import Brazier.Config.ReaderAgreement
import Brazier.Http.DerivedLimits
import Brazier.TLS.Configuration

/-!
# The TLS configuration of the global configuration

`load_tls_config_from_global` of `src/HttpsServerConfig.cpp`. The commands for OpenSSL come from an
array, and the loop appends each command when it has read it. The first entry that is malformed
ends the loop by an exception, which is caught and reported as if nothing had been loaded: the
commands in front of it stay.
-/

namespace Brazier

open ProofLib

variable {ν : Type}

/-- The elements of a value that is an array. The parameter says which leaves are arrays. -/
def asArray (elements : ν → Option (List (Json ν))) (j : Json ν) : Option (List (Json ν)) :=
  match j.1 with
  | .leaf (.other value) => elements value
  | _ => none

/-- The exceptions that the loading of the commands meets. -/
inductive ConfError where
  | runtimeError (what : Text)
  | typeError
  | config (e : ConfigError)
  deriving DecidableEq

/-- `get<std::string>()`. -/
def getString (j : Json ν) : Except ConfError Text :=
  match j.1 with
  | .leaf (.string text) => .ok text
  | _ => .error .typeError

namespace HttpsServer

/-- `tls_` and `tls_config_from_user_`. -/
structure TlsMembers where
  tls : TlsConfig
  tlsConfigFromUser : Bool

/-- The text of the exception for an entry that is no array of one or two elements. -/
def malformedEntry : Text :=
  "https_server.tls.conf: each entry must be [command] or [command, value]"

/-- The body of the loop over the entries, up to `emplace_back`. -/
def readEntry (elements : ν → Option (List (Json ν))) (item : Json ν) :
    Except ConfError (Text × Text) :=
  match asArray elements item with
  | none => .error (.runtimeError malformedEntry)
  | some [] => .error (.runtimeError malformedEntry)
  | some [command] => do
      let cmd ← getString command
      return (cmd, [])
  | some [command, value] => do
      let cmd ← getString command
      let val ← getString value
      return (cmd, val)
  | some (_ :: _ :: _ :: _) => .error (.runtimeError malformedEntry)

/-- The body of the loop over the entries. -/
def loadEntry (elements : ν → Option (List (Json ν))) (item : Json ν) :
    Throwing TlsMembers ConfError Unit :=
  match readEntry elements item with
  | .error e => throw e
  | .ok entry =>
      modify fun server => { server with tls.conf := server.tls.conf ++ [entry] }

section Load

variable (J : JsonText ν) (elements : ν → Option (List (Json ν)))
  (bool : ConfigManager.Conversion ν Bool) (int : ConfigManager.Conversion ν CInt)
  (hash : Enumeration) (order : List (Text × Text)) (globalConfig : ConfigManager)

/-- The `try` block. -/
def loadConf : Throwing TlsMembers ConfError Unit :=
  match ConfigManager.getJson J hash order "https_server.tls.conf" with
  | .error e => throw (.config e)
  | .ok conf =>
      match asArray elements conf with
      | none => pure ()
      | some items => items.forM (loadEntry elements)

/-- What is read in front of it. -/
def loadMembers (tls : TlsConfig) : TlsConfig where
  certPem := ConfigManager.get J .string globalConfig "https_server.tls.cert_pem" ""
  keyPem := ConfigManager.get J .string globalConfig "https_server.tls.key_pem" ""
  certFile := ConfigManager.get J .string globalConfig "https_server.tls.cert_file" "server.crt"
  keyFile := ConfigManager.get J .string globalConfig "https_server.tls.key_file" "server.key"
  caFile := ConfigManager.get J .string globalConfig "https_server.tls.ca_file" ""
  requireClientCert :=
    ConfigManager.get J (.converted bool) globalConfig "https_server.tls.require_client_cert" false
  verifyClientCert :=
    ConfigManager.get J (.converted bool) globalConfig "https_server.tls.verify_client_cert" false
  handshakeTimeout :=
    (ConfigManager.get J (.converted int) globalConfig "https_server.tls.handshake_timeout"
      ⟨15, by decide⟩).1
  conf := tls.conf

/-- `load_tls_config_from_global`, where the map of the configuration is enumerated in this order.
Every exception is caught and written to the log; undefined behaviour is not. -/
def loadTlsConfigFromGlobal : Throwing TlsMembers ConfError Unit := do
  let server ← get
  if server.tlsConfigFromUser then
    return
  modify fun server => { server with tls := loadMembers J bool int globalConfig server.tls }
  tryCatch (loadConf J elements hash order) fun e =>
    if e = .config .undefined then throw e else pure ()

end Load

/-! ## What an entry is -/

/-- An entry with its command and its value. -/
inductive Entry (elements : ν → Option (List (Json ν))) : Json ν → Text × Text → Prop
  | command {item : Json ν} (cmd : Text) :
      asArray elements item = some [Json.ofString cmd] → Entry elements item (cmd, [])
  | commandValue {item : Json ν} (cmd val : Text) :
      asArray elements item = some [Json.ofString cmd, Json.ofString val] →
      Entry elements item (cmd, val)

/-- The item is no entry. -/
def Malformed (elements : ν → Option (List (Json ν))) (item : Json ν) : Prop :=
  ∀ entry, ¬ Entry elements item entry

/-- All entries of the array have been appended, or none, because one is malformed or because the
user has handed the server its configuration. -/
def LoadedWhole (elements : ν → Option (List (Json ν))) (items : List (Json ν))
    (server server' : TlsMembers) : Prop :=
  (∃ entries, List.Forall₂ (Entry elements) items entries ∧
    server'.tls.conf = server.tls.conf ++ entries) ∨
  (server.tlsConfigFromUser = true ∨ ∃ item ∈ items, Malformed elements item) ∧
    server'.tls.conf = server.tls.conf

/-! ## What the loop appends -/

section Loop

variable {elements : ν → Option (List (Json ν))}

/-- Only a string has the text of a string. -/
theorem getString_eq_ok {j : Json ν} {text : Text} :
    getString j = .ok text ↔ j = Json.ofString text := by
  rw [Subtype.ext_iff]
  obtain ⟨t, ht⟩ := j
  cases t with
  | leaf leaf => cases leaf <;> simp [getString, Json.ofString, Ordered.leaf]
  | node members => simp [getString, Json.ofString, Ordered.leaf]

/-- The body of the loop reads the entries. -/
theorem readEntry_eq_ok {item : Json ν} {entry : Text × Text} :
    readEntry elements item = .ok entry ↔ Entry elements item entry := by
  constructor
  · intro hread
    rw [readEntry] at hread
    split at hread
    · cases hread
    · cases hread
    · next command harray =>
        cases hcmd : getString command with
        | error e =>
            rw [hcmd] at hread
            cases hread
        | ok cmd =>
            rw [hcmd] at hread
            cases hread
            rw [getString_eq_ok.mp hcmd] at harray
            exact .command cmd harray
    · next command value harray =>
        cases hcmd : getString command with
        | error e =>
            rw [hcmd] at hread
            cases hread
        | ok cmd =>
            cases hval : getString value with
            | error e =>
                rw [hcmd, hval] at hread
                cases hread
            | ok val =>
                rw [hcmd, hval] at hread
                cases hread
                rw [getString_eq_ok.mp hcmd, getString_eq_ok.mp hval] at harray
                exact .commandValue cmd val harray
    · cases hread
  · intro hentry
    cases hentry with
    | command cmd harray =>
        rw [readEntry, harray]
        rfl
    | commandValue cmd val harray =>
        rw [readEntry, harray]
        rfl

/-- The loop appends the entries in front of the first item that is malformed. -/
theorem loadEntries_outcome (items : List (Json ν)) (server : TlsMembers) :
    ∃ read rest entries, items = read ++ rest ∧ List.Forall₂ (Entry elements) read entries ∧
      ((items.forM (loadEntry elements)).outcome server).2 =
        { server with tls.conf := server.tls.conf ++ entries } ∧
      ∀ item more, rest = item :: more → Malformed elements item := by
  induction items generalizing server with
  | nil => exact ⟨[], [], [], rfl, .nil, by simp [List.forM], by simp⟩
  | cons item more ih =>
      have hcons : (item :: more).forM (loadEntry elements) =
          loadEntry elements item >>= fun _ => more.forM (loadEntry elements) := rfl
      cases hread : readEntry elements item with
      | error e =>
          have hthrow : (loadEntry elements item).outcome server = (.error e, server) := by
            rw [loadEntry, hread]
            rfl
          refine ⟨[], item :: more, [], rfl, .nil, ?_, ?_⟩
          · rw [hcons, outcome_bind_error hthrow, List.append_nil]
          · intro item' more' heq entry hentry
            cases heq
            rw [readEntry_eq_ok.mpr hentry] at hread
            cases hread
      | ok entry =>
          have happend : (loadEntry elements item).outcome server =
              (.ok (), { server with tls.conf := server.tls.conf ++ [entry] }) := by
            rw [loadEntry, hread]
            rfl
          obtain ⟨read, rest, entries, hitems, hentries, hstate, hrest⟩ :=
            ih { server with tls.conf := server.tls.conf ++ [entry] }
          refine ⟨item :: read, rest, entry :: entries, by rw [hitems]; rfl,
            .cons (readEntry_eq_ok.mp hread) hentries, ?_, hrest⟩
          rw [hcons, outcome_bind_ok happend, hstate, List.append_assoc]
          rfl

/-- Items that stand for entries are not malformed. -/
theorem not_malformed_of_entries {items : List (Json ν)} {entries : List (Text × Text)}
    (h : List.Forall₂ (Entry elements) items entries) :
    ∀ item ∈ items, ¬ Malformed elements item := by
  induction h with
  | nil => simp
  | cons hentry _ ih =>
      rw [List.forall_mem_cons]
      exact ⟨fun hmalformed => hmalformed _ hentry, ih⟩

/-- Items that are entries are read whole, and an item that is malformed ends what is read. -/
theorem loadedWhole_iff {items read rest : List (Json ν)} {entries : List (Text × Text)}
    {server server' : TlsMembers} (huser : server.tlsConfigFromUser = false)
    (hitems : items = read ++ rest) (hentries : List.Forall₂ (Entry elements) read entries)
    (hconf : server'.tls.conf = server.tls.conf ++ entries)
    (hrest : ∀ item more, rest = item :: more → Malformed elements item) :
    LoadedWhole elements items server server' ↔
      (∀ item ∈ items, ¬ Malformed elements item) ∨
        ∃ item more, items = item :: more ∧ Malformed elements item := by
  have hread := not_malformed_of_entries hentries
  rw [LoadedWhole, huser, hconf]
  constructor
  · rintro (⟨entries', hwhole, _⟩ | ⟨hmalformed, hsame⟩)
    · exact Or.inl (not_malformed_of_entries hwhole)
    · right
      obtain rfl : entries = [] := List.append_right_eq_self.mp hsame
      obtain rfl : read = [] := List.forall₂_nil_right_iff.mp hentries
      obtain ⟨item, hitem, _⟩ := hmalformed.resolve_left Bool.false_ne_true
      obtain ⟨first, more, hfirst⟩ := List.exists_cons_of_ne_nil (List.ne_nil_of_mem hitem)
      exact ⟨first, more, hfirst, hrest first more (hitems.symm.trans hfirst)⟩
  · rintro (hwell | ⟨first, more, rfl, hmalformed⟩)
    · left
      have hall : rest = [] := by
        cases hcases : rest with
        | nil => rfl
        | cons item more =>
            exact absurd (hrest item more hcases) (hwell item (by simp [hitems, hcases]))
      rw [hall, List.append_nil] at hitems
      exact ⟨entries, by rwa [hitems], rfl⟩
    · right
      refine ⟨Or.inr ⟨first, List.mem_cons_self, hmalformed⟩, ?_⟩
      cases read with
      | nil =>
          rw [List.forall₂_nil_left_iff.mp hentries, List.append_nil]
      | cons item read =>
          obtain ⟨rfl, _⟩ := List.cons.inj hitems
          exact absurd hmalformed (hread _ List.mem_cons_self)

end Loop

/-- Where an array is stored, the commands are loaded whole exactly when the first entry of the
array is malformed, or none is, or the user has handed the server its configuration. -/
theorem conf_loaded_whole_iff (J : JsonText ν) (elements : ν → Option (List (Json ν)))
    (bool : ConfigManager.Conversion ν Bool) (int : ConfigManager.Conversion ν CInt)
    (hash : Enumeration) (globalConfig : ConfigManager) (order : List (Text × Text))
    (horder : order.Perm globalConfig.config.toList) (text : Text)
    (hstored : globalConfig.config[("https_server.tls.conf" : Text)]? = some text) (conf : Json ν)
    (hparse : J.parse text = some conf) (items : List (Json ν))
    (harray : asArray elements conf = some items) (server : TlsMembers) :
    LoadedWhole elements items server
      ((loadTlsConfigFromGlobal J elements bool int hash order globalConfig).outcome server).2 ↔
    server.tlsConfigFromUser = true ∨ (∀ item ∈ items, ¬ Malformed elements item) ∨
      ∃ item more, items = item :: more ∧ Malformed elements item := by
  have hget : ConfigManager.getJson J hash order "https_server.tls.conf" = .ok conf := by
    rw [ConfigManager.getJson_of_key horder hstored, ConfigManager.valueJson, hparse]
  have hloop : loadConf J elements hash order = items.forM (loadEntry elements) := by
    rw [loadConf, hget]
    dsimp only
    rw [harray]
  rw [loadTlsConfigFromGlobal, outcome_get_bind]
  cases huser : server.tlsConfigFromUser with
  | true =>
      rw [if_pos rfl, outcome_pure]
      exact iff_of_true (Or.inr ⟨Or.inl huser, rfl⟩) (Or.inl rfl)
  | false =>
      rw [if_neg Bool.false_ne_true, outcome_bind_ok (outcome_modify _ _), hloop]
      obtain ⟨read, rest, entries, hitems, hentries, hstate, hrest⟩ := loadEntries_outcome items
        { server with tls := loadMembers J bool int globalConfig server.tls }
      rw [outcome_tryCatch_snd]
      · rw [hstate, loadedWhole_iff huser hitems hentries rfl hrest]
        simp
      · intro e s
        split <;> rfl

/-- The values of a configuration: truth values, numbers, and the arrays of two lists of commands,
of which the second one ends with an array without elements. -/
inductive SampleValue where
  | bool (value : Bool)
  | number (value : CInt)
  | minProtocol
  | nothing
  | policy
  | brokenPolicy

namespace SampleValue

/-- The elements of the arrays. -/
def elements : SampleValue → Option (List (Json SampleValue))
  | .bool _ => none
  | .number _ => none
  | .minProtocol => some [Json.ofString "MinProtocol".toList, Json.ofString "TLSv1.3".toList]
  | .nothing => some []
  | .policy => some [Ordered.leaf (.other .minProtocol)]
  | .brokenPolicy => some [Ordered.leaf (.other .minProtocol), Ordered.leaf (.other .nothing)]

/-- The text of the first list of commands. -/
def policyText : Text := "[[\"MinProtocol\",\"TLSv1.3\"]]"

/-- The text of the second one. -/
def brokenText : Text := "[[\"MinProtocol\",\"TLSv1.3\"],[]]"

/-- The texts of the lists of commands. -/
def table : Table SampleValue where
  read text :=
    if text = policyText then some .policy
    else if text = brokenText then some .brokenPolicy else none
  print
    | .policy => some policyText
    | .brokenPolicy => some brokenText
    | _ => none
  read_print value text h := by
    cases value <;> cases h <;> rfl
  print_read text value h := by
    split at h
    · cases h
      rfl
    · split at h
      · cases h
        rfl
      · cases h
  read_null := rfl
  read_braces := rfl

/-- Truth values. -/
def boolConversion : ConfigManager.Conversion SampleValue Bool where
  toJson value := Ordered.leaf (.other (.bool value))
  fromJson j :=
    match j.1 with
    | .leaf (.other (.bool value)) => some value
    | _ => none
  fromJson_toJson _ := rfl

/-- Numbers. -/
def intConversion : ConfigManager.Conversion SampleValue CInt where
  toJson value := Ordered.leaf (.other (.number value))
  fromJson j :=
    match j.1 with
    | .leaf (.other (.number value)) => some value
    | _ => none
  fromJson_toJson _ := rfl

end SampleValue

/-- A server that takes its configuration from the global one. -/
def plainServer : TlsMembers :=
  ⟨{ certFile := [], keyFile := [], caFile := [], certPem := [], keyPem := [], conf := [] }, false⟩

/-- The members of a server after a list of commands has been loaded. -/
def loadedFrom (text : Text) : TlsMembers :=
  ((loadTlsConfigFromGlobal SampleValue.table.jsonText SampleValue.elements
    SampleValue.boolConversion SampleValue.intConversion ConfigManager.sortedEnumeration
    [("https_server.tls.conf", text)]
    (ConfigManager.oneEntry "https_server.tls.conf" text)).outcome plainServer).2

theorem conf_loaded_policy :
    LoadedWhole SampleValue.elements [Ordered.leaf (.other .minProtocol)] plainServer
      (loadedFrom SampleValue.policyText) := by
  refine (conf_loaded_whole_iff SampleValue.table.jsonText SampleValue.elements
    SampleValue.boolConversion SampleValue.intConversion ConfigManager.sortedEnumeration
    (ConfigManager.oneEntry "https_server.tls.conf" SampleValue.policyText)
    [("https_server.tls.conf", SampleValue.policyText)] (ConfigManager.toList_oneEntry _ _).symm
    SampleValue.policyText (by decide +kernel) (Ordered.leaf (.other .policy)) rfl
    [Ordered.leaf (.other .minProtocol)] rfl plainServer).mpr (Or.inr (Or.inl ?_))
  intro item hitem hmalformed
  obtain rfl := List.mem_singleton.mp hitem
  exact hmalformed _ (.commandValue "MinProtocol".toList "TLSv1.3".toList rfl)

/-- The command in front of a malformed entry stays. -/
theorem conf_loaded_in_part :
    (loadedFrom SampleValue.brokenText).tls.conf =
      ([("MinProtocol", "TLSv1.3")] : List (Text × Text)) ∧
    ¬ LoadedWhole SampleValue.elements
      [Ordered.leaf (.other .minProtocol), Ordered.leaf (.other .nothing)] plainServer
      (loadedFrom SampleValue.brokenText) := by
  have hloaded : (loadedFrom SampleValue.brokenText).tls.conf =
      ([("MinProtocol", "TLSv1.3")] : List (Text × Text)) := by decide +kernel
  refine ⟨hloaded, ?_⟩
  rintro (⟨entries, hentries, _⟩ | ⟨_, hsame⟩)
  · refine not_malformed_of_entries hentries (Ordered.leaf (.other .nothing)) (by simp) ?_
    intro entry hentry
    cases hentry with
    | command cmd harray => cases harray
    | commandValue cmd val harray => cases harray
  · rw [hloaded] at hsame
    cases hsame

end HttpsServer

end Brazier
