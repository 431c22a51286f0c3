import Brazier.ProofLib.KeyValue
import Brazier.Text
import Mathlib.Data.List.Nodup
import Mathlib.Data.List.Perm.Subperm

/-!
# The connection string

What the constructor of `Database` in `src/Database/Database.cpp` hands to `PQconnectdb`. The text
is read by the grammar of `ProofLib.KeyValue`, where a later setting of a keyword replaces an
earlier one. The port is read from the configuration and left out of the text.
-/

namespace Brazier

open ProofLib

/-- The values that the constructor reads: `db_host`, `db_port`, `db_user`, `db_password` and
`db_name`. -/
structure DatabaseConfig where
  host : Text
  port : Text
  user : Text
  password : Text
  name : Text
  deriving DecidableEq

namespace DatabaseConfig

/-- The calls of `global_config->get`, with their defaults. -/
def read (config : TextMap) : DatabaseConfig where
  host := config.getD "database.host" "localhost"
  port := config.getD "database.port" "5432"
  user := config.getD "database.username" "postgres"
  password := config.getD "database.password" ""
  name := config.getD "database.database" "postgres"

/-- `connection_string`. -/
def connectionString (config : DatabaseConfig) : Text :=
  ("host=" : Text) ++ config.host ++ (" user=" : Text) ++ config.user ++ (" password=" : Text) ++
    config.password ++ (" dbname=" : Text) ++ config.name ++ (" client_encoding=UTF8" : Text)

/-- What libpq reads of it. -/
def conninfo (config : DatabaseConfig) : Option (List (Text × Text)) :=
  KeyValue.parse (cString config.connectionString)

/-- The value of a keyword: the last one that is set. -/
def valueOf (settings : List (Text × Text)) (keyword : Text) : Option Text :=
  (settings.reverse.find? (fun setting => setting.1 = keyword)).map Prod.snd

/-- The five settings that are meant. -/
def intended (config : DatabaseConfig) : List (Text × Text) :=
  [("host", config.host), ("port", config.port), ("user", config.user),
    ("password", config.password), ("dbname", config.name)]

/-- The text is read as exactly the five values, apart from the encoding. -/
def RoundTrips (config : DatabaseConfig) : Prop :=
  ∃ settings, config.conninfo = some settings ∧
    (∀ setting ∈ config.intended, valueOf settings setting.1 = some setting.2) ∧
    ∀ setting ∈ settings, setting.1 ∈ config.intended.map Prod.fst ∨
      setting.1 = ("client_encoding" : Text)

/-! ## The text, setting by setting -/

/-- A setting with a blank behind it. -/
def field (keyword value rest : Text) : Text := keyword ++ '=' :: (value ++ ' ' :: rest)

/-- The text behind the four values. -/
def encoding : Text := "client_encoding=UTF8"

theorem connectionString_eq (config : DatabaseConfig) :
    config.connectionString = field "host" config.host (field "user" config.user
      (field "password" config.password (field "dbname" config.name encoding))) := by
  unfold connectionString field encoding
  simp

/-- The text of a keyword. -/
structure Keyword (keyword : Text) : Prop where
  nonempty : keyword ≠ []
  kept : ∀ c ∈ keyword, KeyValue.Kept c
  sign : '=' ∉ keyword

theorem Keyword.inKeyword {keyword : Text} (h : Keyword keyword) :
    ∀ c ∈ keyword, KeyValue.inKeyword c = true := by
  intro c hc
  have hsign : c ≠ '=' := fun heq => h.sign (heq ▸ hc)
  simp [KeyValue.inKeyword, hsign, (h.kept c hc).blank]

/-- A field is read as its keyword with what is read as a value behind the sign. -/
theorem parse_field {keyword : Text} (hkeyword : Keyword keyword) (value rest : Text) :
    KeyValue.parse (field keyword value rest) =
      match KeyValue.readValue ((value ++ ' ' :: rest).dropWhile KeyValue.isBlank) with
      | none => none
      | some (found, rest) =>
          (KeyValue.parse rest).map (fun settings => (keyword, found) :: settings) := by
  obtain ⟨c, keyword, rfl⟩ := List.exists_cons_of_ne_nil hkeyword.nonempty
  have hc : KeyValue.isBlank c = false := (hkeyword.kept c List.mem_cons_self).blank
  have hsign : ¬ KeyValue.inKeyword '=' = true := by decide
  have htake : (field (c :: keyword) value rest).takeWhile KeyValue.inKeyword = c :: keyword := by
    rw [field, List.takeWhile_append_of_pos hkeyword.inKeyword,
      List.takeWhile_cons_of_neg hsign, List.append_nil]
  have hdrop : (field (c :: keyword) value rest).dropWhile KeyValue.inKeyword =
      '=' :: (value ++ ' ' :: rest) := by
    rw [field, List.dropWhile_append_of_pos hkeyword.inKeyword,
      List.dropWhile_cons_of_neg hsign]
  have hsetting : KeyValue.readSetting (field (c :: keyword) value rest) =
      (KeyValue.readValue ((value ++ ' ' :: rest).dropWhile KeyValue.isBlank)).map
        (fun found => ((c :: keyword, found.1), found.2)) := by
    rw [KeyValue.readSetting, hdrop, htake, List.dropWhile_cons_of_neg (by decide)]
    rfl
  show KeyValue.parse (c :: (keyword ++ '=' :: (value ++ ' ' :: rest))) = _
  have hread : KeyValue.readSetting (c :: (keyword ++ '=' :: (value ++ ' ' :: rest))) = _ :=
    hsetting
  rw [KeyValue.parse_of_keyword hc, hread]
  cases KeyValue.readValue ((value ++ ' ' :: rest).dropWhile KeyValue.isBlank) with
  | none => rfl
  | some found => rfl

/-- A plain value is read as it is. -/
theorem parse_field_plain {keyword : Text} (hkeyword : Keyword keyword) {value : Text}
    (hvalue : KeyValue.Plain value) (rest : Text) :
    KeyValue.parse (field keyword value rest) =
      (KeyValue.parse rest).map (fun settings => (keyword, value) :: settings) := by
  rw [parse_field hkeyword, KeyValue.readValue_plain hvalue]

/-- A value that the settings give to its keyword is plain, and the settings go on behind it. -/
theorem plain_of_parse_field {keyword : Text} (hkeyword : Keyword keyword) {value : Text} {c : Char}
    (hc : KeyValue.Kept c) {tail : Text} {settings : List (Text × Text)}
    (h : KeyValue.parse (field keyword value (c :: tail)) = some settings)
    (honly : ∀ found, (keyword, found) ∈ settings → found = value) :
    KeyValue.Plain value ∧ ∃ settings', KeyValue.parse (c :: tail) = some settings' ∧
      settings = (keyword, value) :: settings' := by
  have hread := h
  rw [parse_field hkeyword] at hread
  cases hvalue : KeyValue.readValue ((value ++ ' ' :: c :: tail).dropWhile KeyValue.isBlank) with
  | none =>
      rw [hvalue] at hread
      cases hread
  | some found =>
      obtain ⟨found, rest⟩ := found
      rw [hvalue] at hread
      obtain ⟨settings', _, rfl⟩ := Option.map_eq_some_iff.mp hread
      obtain rfl := honly found List.mem_cons_self
      have hplain := KeyValue.plain_of_readValue hc tail hvalue
      rw [parse_field_plain hkeyword hplain] at h
      obtain ⟨settings'', hrest, heq⟩ := Option.map_eq_some_iff.mp h
      exact ⟨hplain, settings'', hrest, heq.symm⟩

/-! ## The keywords -/

theorem keyword_host : Keyword "host" :=
  ⟨by simp, List.forall_iff_forall_mem.mp (by decide), by decide⟩

theorem keyword_user : Keyword "user" :=
  ⟨by simp, List.forall_iff_forall_mem.mp (by decide), by decide⟩

theorem keyword_password : Keyword "password" :=
  ⟨by simp, List.forall_iff_forall_mem.mp (by decide), by decide⟩

theorem keyword_dbname : Keyword "dbname" :=
  ⟨by simp, List.forall_iff_forall_mem.mp (by decide), by decide⟩

/-- A field begins with a character that a text keeps. -/
theorem field_cons {keyword : Text} (hkeyword : Keyword keyword) (value rest : Text) :
    ∃ c tail, field keyword value rest = c :: tail ∧ KeyValue.Kept c := by
  obtain ⟨c, keyword, rfl⟩ := List.exists_cons_of_ne_nil hkeyword.nonempty
  exact ⟨c, keyword ++ '=' :: (value ++ ' ' :: rest), rfl, hkeyword.kept c List.mem_cons_self⟩

theorem encoding_eq : encoding = 'c' :: ("lient_encoding=UTF8" : Text) := by
  unfold encoding
  simp

/-- The encoding is read as one setting. -/
theorem parse_encoding :
    KeyValue.parse encoding = some [(("client_encoding" : Text), ("UTF8" : Text))] := by
  have hsetting : KeyValue.readSetting ('c' :: ("lient_encoding=UTF8" : Text)) =
      some ((("client_encoding" : Text), ("UTF8" : Text)), []) := by decide +kernel
  rw [encoding_eq, KeyValue.parse_of_keyword rfl, hsetting]
  show (KeyValue.parse []).map _ = _
  rw [KeyValue.parse]
  rfl

/-! ## What libpq reads -/

/-- The settings that the text is written from. -/
def transmitted (config : DatabaseConfig) : List (Text × Text) :=
  [("host", config.host), ("user", config.user), ("password", config.password),
    ("dbname", config.name), ("client_encoding", "UTF8")]

/-- The four values in the text need no quotes. -/
structure PlainValues (config : DatabaseConfig) : Prop where
  host : KeyValue.Plain config.host
  user : KeyValue.Plain config.user
  password : KeyValue.Plain config.password
  name : KeyValue.Plain config.name

variable {config : DatabaseConfig}

theorem parse_connectionString (h : config.PlainValues) :
    KeyValue.parse config.connectionString = some config.transmitted := by
  rw [connectionString_eq, parse_field_plain keyword_host h.host,
    parse_field_plain keyword_user h.user, parse_field_plain keyword_password h.password,
    parse_field_plain keyword_dbname h.name, parse_encoding]
  rfl

/-- Settings that give no other value to the four keywords come from plain values. -/
theorem plain_of_parse {settings : List (Text × Text)}
    (h : KeyValue.parse config.connectionString = some settings)
    (honly : ∀ sent ∈ config.transmitted, ∀ found, (sent.1, found) ∈ settings → found = sent.2) :
    config.PlainValues ∧ settings = config.transmitted := by
  rw [transmitted, List.forall_mem_cons, List.forall_mem_cons, List.forall_mem_cons,
    List.forall_mem_cons] at honly
  -- one field after the other: a plain value ends at its blank, and the next keyword begins there
  obtain ⟨hhost, huser, hpassword, hname, -⟩ := honly
  obtain ⟨c, tail, hcons, hc⟩ := field_cons keyword_user config.user
    (field "password" config.password (field "dbname" config.name encoding))
  rw [connectionString_eq, hcons] at h
  obtain ⟨hplainHost, afterHost, hafterHost, rfl⟩ := plain_of_parse_field keyword_host hc h hhost
  rw [← hcons] at hafterHost
  obtain ⟨c, tail, hcons, hc⟩ := field_cons keyword_password config.password
    (field "dbname" config.name encoding)
  rw [hcons] at hafterHost
  obtain ⟨hplainUser, afterUser, hafterUser, rfl⟩ :=
    plain_of_parse_field keyword_user hc hafterHost
      fun found hfound => huser found (List.mem_cons_of_mem _ hfound)
  rw [← hcons] at hafterUser
  obtain ⟨c, tail, hcons, hc⟩ := field_cons keyword_dbname config.name encoding
  rw [hcons] at hafterUser
  obtain ⟨hplainPassword, afterPassword, hafterPassword, rfl⟩ :=
    plain_of_parse_field keyword_password hc hafterUser
      fun found hfound => hpassword found
        (List.mem_cons_of_mem _ (List.mem_cons_of_mem _ hfound))
  rw [← hcons, encoding_eq] at hafterPassword
  obtain ⟨hplainName, afterName, hafterName, rfl⟩ :=
    plain_of_parse_field keyword_dbname (c := 'c') (by decide) hafterPassword
      fun found hfound => hname found
        (List.mem_cons_of_mem _ (List.mem_cons_of_mem _ (List.mem_cons_of_mem _ hfound)))
  rw [← encoding_eq, parse_encoding] at hafterName
  cases hafterName
  exact ⟨⟨hplainHost, hplainUser, hplainPassword, hplainName⟩, rfl⟩

theorem count_field {c : Char} (hc : KeyValue.Kept c) (keyword value rest : Text) :
    (field keyword value rest).count c =
      KeyValue.settingCount c (keyword, value) + rest.count c := by
  have hblank : ' ' ≠ c := by
    rintro rfl
    exact absurd hc.blank (by decide)
  rw [field, List.count_append, KeyValue.count_sign, List.count_append,
    List.count_cons_of_ne hblank]
  show _ = keyword.count c + (if c = '=' then 1 else 0) + value.count c + rest.count c
  omega

/-- A kept character is in the text as often as in the settings that it is written from. -/
theorem count_connectionString {c : Char} (hc : KeyValue.Kept c) (config : DatabaseConfig) :
    config.connectionString.count c =
      (config.transmitted.map (KeyValue.settingCount c)).sum := by
  have hencoding := KeyValue.count_settings hc encoding parse_encoding
  rw [List.map_singleton, List.sum_singleton] at hencoding
  rw [connectionString_eq, count_field hc, count_field hc, count_field hc, count_field hc,
    ← hencoding]
  show _ = _ + (_ + (_ + (_ + (_ + 0))))
  omega

/-! ## NUL characters -/

/-- The four values in the text have no NUL. -/
structure NoNul (config : DatabaseConfig) : Prop where
  host : '\x00' ∉ config.host
  user : '\x00' ∉ config.user
  password : '\x00' ∉ config.password
  name : '\x00' ∉ config.name

/-- A text without NUL is read to its end. -/
theorem conninfo_of_noNul (h : config.NoNul) :
    config.conninfo = KeyValue.parse config.connectionString := by
  have hcount : config.connectionString.count '\x00' = 0 := by
    rw [count_connectionString (by decide), transmitted]
    simp [KeyValue.settingCount, List.count_eq_zero, h.host, h.user, h.password, h.name]
  rw [conninfo, cString_of_not_mem (List.count_eq_zero.mp hcount)]

/-- No value that is read has a NUL. -/
theorem noNul_of_conninfo {settings : List (Text × Text)} (h : config.conninfo = some settings)
    (keyword value : Text) (hmem : (keyword, value) ∈ settings) : '\x00' ∉ value := by
  have hsum := KeyValue.count_settings (c := '\x00') (by decide) _ h
  rw [List.count_eq_zero.mpr (not_mem_cString config.connectionString),
    List.sum_eq_zero_iff_forall_eq_nat] at hsum
  have hcount : keyword.count '\x00' + 0 + value.count '\x00' = 0 :=
    hsum _ (List.mem_map_of_mem hmem)
  rw [← List.count_eq_zero]
  omega

/-! ## The keywords are different -/

theorem value_unique {settings : List (Text × Text)} (hnodup : (settings.map Prod.fst).Nodup)
    {keyword value value' : Text} (h : (keyword, value) ∈ settings)
    (h' : (keyword, value') ∈ settings) : value' = value :=
  congrArg Prod.snd (List.inj_on_of_nodup_map hnodup h' h rfl)

theorem nodup_transmitted (config : DatabaseConfig) :
    (config.transmitted.map Prod.fst).Nodup := by
  simp [transmitted]

theorem nodup_intended (config : DatabaseConfig) : (config.intended.map Prod.fst).Nodup := by
  simp [intended]

/-- The values in the text come back, with the encoding and nothing else, exactly when they need no
quotes and have no NUL. -/
theorem conninfo_eq_transmitted_iff (config : DatabaseConfig) :
    config.conninfo = some config.transmitted ↔ config.PlainValues ∧ config.NoNul := by
  constructor
  · intro h
    have hnoNul : config.NoNul :=
      ⟨noNul_of_conninfo h "host" config.host (by simp [transmitted]),
        noNul_of_conninfo h "user" config.user (by simp [transmitted]),
        noNul_of_conninfo h "password" config.password (by simp [transmitted]),
        noNul_of_conninfo h "dbname" config.name (by simp [transmitted])⟩
    rw [conninfo_of_noNul hnoNul] at h
    refine ⟨(plain_of_parse h ?_).1, hnoNul⟩
    exact fun sent hsent found hfound => value_unique config.nodup_transmitted hsent hfound
  · intro ⟨hplain, hnoNul⟩
    rw [conninfo_of_noNul hnoNul, parse_connectionString hplain]

/-! ## The port -/

theorem mem_of_valueOf {settings : List (Text × Text)} {keyword value : Text}
    (h : valueOf settings keyword = some value) : (keyword, value) ∈ settings := by
  obtain ⟨setting, hfind, rfl⟩ := Option.map_eq_some_iff.mp h
  have hkeyword : setting.1 = keyword := by simpa using List.find?_some hfind
  have hmem := List.mem_of_find?_eq_some hfind
  rw [List.mem_reverse] at hmem
  rw [← hkeyword]
  exact hmem

/-- The signs of the five settings are at least those of the text. -/
theorem signs_le (config : DatabaseConfig) :
    (config.transmitted.map (KeyValue.settingCount '=')).sum ≤
      (config.intended.map (KeyValue.settingCount '=')).sum := by
  simp [transmitted, intended, KeyValue.settingCount]
  omega

/-- Settings that give the five values are these five and no others: the text has no sign for
another one. -/
theorem perm_intended {settings : List (Text × Text)}
    (h : KeyValue.parse config.connectionString = some settings)
    (hmem : ∀ setting ∈ config.intended, setting ∈ settings) :
    settings.Perm config.intended := by
  obtain ⟨five, hfive, hsub⟩ :=
    List.subperm_of_subset (List.Nodup.of_map Prod.fst config.nodup_intended) hmem
  obtain ⟨others, hperm⟩ := hsub.exists_perm_append
  have hothers := (hperm.trans (hfive.append_right others)).map (KeyValue.settingCount '=')
  -- each setting takes a sign, and the text has none to spare
  have hsum := hothers.sum_eq
  rw [List.map_append, List.sum_append, KeyValue.count_settings (by decide) _ h,
    count_connectionString (by decide)] at hsum
  have hle := config.signs_le
  cases others with
  | nil =>
      rw [List.append_nil] at hperm
      exact hperm.trans hfive
  | cons other others =>
      have hsign : 1 ≤ KeyValue.settingCount '=' other := by
        show 1 ≤ other.1.count '=' + 1 + other.2.count '='
        omega
      rw [List.map_cons, List.sum_cons] at hsum
      omega

/-- No configuration is read as its five values. -/
theorem not_roundTrips (config : DatabaseConfig) : ¬ RoundTrips config := by
  intro ⟨settings, h, hvalues, _⟩
  have hmem : ∀ setting ∈ config.intended, setting ∈ settings :=
    fun setting hsetting => mem_of_valueOf (hvalues setting hsetting)
  have hnoNul : config.NoNul :=
    ⟨noNul_of_conninfo h "host" config.host (hmem ("host", config.host) (by simp [intended])),
      noNul_of_conninfo h "user" config.user (hmem ("user", config.user) (by simp [intended])),
      noNul_of_conninfo h "password" config.password
        (hmem ("password", config.password) (by simp [intended])),
      noNul_of_conninfo h "dbname" config.name (hmem ("dbname", config.name) (by simp [intended]))⟩
  rw [conninfo_of_noNul hnoNul] at h
  have hperm := perm_intended h hmem
  -- so the encoding is one of the five, which it is not
  obtain ⟨-, hsettings⟩ := plain_of_parse h (by
    intro sent hsent found hfound
    rw [hperm.mem_iff] at hfound
    simp only [transmitted, List.mem_cons, List.not_mem_nil, or_false] at hsent
    rcases hsent with rfl | rfl | rfl | rfl | rfl
    · simpa [intended] using hfound
    · simpa [intended] using hfound
    · simpa [intended] using hfound
    · simpa [intended] using hfound
    · simp [intended] at hfound)
  have hencoding : (("client_encoding" : Text), ("UTF8" : Text)) ∈ config.intended := by
    rw [← hperm.mem_iff, hsettings]
    simp [transmitted]
  simp [intended] at hencoding

/-- A port that is configured is not among the settings. -/
theorem port_not_transmitted :
    ¬ RoundTrips ⟨"localhost", "6432", "app", "secret", "shop"⟩ := by
  intro ⟨settings, h, hvalues, _⟩
  have hplain : PlainValues ⟨"localhost", "6432", "app", "secret", "shop"⟩ := by
    constructor <;> exact
      ⟨by simp, by simp [KeyValue.quote], List.forall_iff_forall_mem.mp (by decide)⟩
  have hnoNul : NoNul ⟨"localhost", "6432", "app", "secret", "shop"⟩ := by
    constructor <;> decide
  rw [conninfo_of_noNul hnoNul, parse_connectionString hplain] at h
  cases h
  have hport := mem_of_valueOf (hvalues ("port", "6432") (by simp [intended]))
  simp [transmitted] at hport

end DatabaseConfig

end Brazier
