import Brazier.ProofLib.PercentCoding
import Brazier.ProofLib.PlainJson
import Brazier.Text

/-!
# Query strings

`HttpClient::encode_url` and `HttpClient::json_to_query_string` of `src/HttpClient.cpp`.
`encodeUrl_eq` says that the manipulators of the stream are back in their place after every
character, so that a text is percent-encoded byte by byte. `query_decodable` decodes the query
string of an object.
-/

namespace Brazier

open ProofLib

/-- A `std::ostringstream`, with what its manipulators have set. -/
structure OStream where
  text : Text
  fill : Char
  width : Nat
  hex : Bool
  uppercase : Bool

namespace OStream

/-- A new stream. -/
def empty : OStream := ⟨[], ' ', 0, false, false⟩

/-- Formatted output: it is filled up to the width, which is zero behind it. -/
def put (os : OStream) (item : Text) : OStream :=
  { os with
    text := os.text ++ (List.replicate (os.width - item.length) os.fill ++ item)
    width := 0 }

/-- `os << n`, for a number that is not negative. -/
def putInt (os : OStream) (n : Nat) : OStream :=
  let digits := Nat.toDigits (if os.hex then 16 else 10) n
  os.put (if os.uppercase then digits.map Char.toUpper else digits)

/-- `std::setw`. -/
def setw (os : OStream) (width : Nat) : OStream := { os with width }

/-- `std::uppercase` and `std::nouppercase`. -/
def setUppercase (os : OStream) (uppercase : Bool) : OStream := { os with uppercase }

end OStream

/-- What the client throws, and what `dump` throws in it. -/
inductive ClientError where
  | runtimeError (what : Text)
  | typeError
  deriving DecidableEq

namespace HttpClient

/-- The characters that `encode_url` leaves as they are. -/
def isUnreserved (c : Char) : Bool :=
  c.isAlphanum || c = '-' || c = '_' || c = '.' || c = '~'

/-- The body of the loop of `encode_url`. -/
def escapeChar (escaped : OStream) (c : Char) : OStream :=
  let uc := c.toNat % 256
  if (Char.ofNat uc).isAlphanum || c = '-' || c = '_' || c = '.' || c = '~' then escaped.put [c]
  else
    let escaped := escaped.setUppercase true
    let escaped := ((escaped.put ['%']).setw 2).putInt uc
    escaped.setUppercase false

/-- `encode_url`. -/
def encodeUrl (value : Text) : Text :=
  (value.foldl escapeChar { OStream.empty with fill := '0', hex := true }).text

variable {ν : Type} (J : JsonText ν)

/-- The text of a value in a query string, before it is encoded. -/
def memberText (value : Json ν) : Except ClientError Text :=
  match value.1 with
  | .leaf (.string text) => .ok text
  | _ =>
      match J.dump none value with
      | some text => .ok text
      | none => .error .typeError

/-- The body of the loop of `json_to_query_string`. -/
def appendMember (result : Text) (member : Text × Json ν) : Except ClientError Text := do
  let result := if result ≠ [] then result ++ ("&" : Text) else result
  let key := encodeUrl member.1
  let text ← memberText J member.2
  let value := encodeUrl text
  return result ++ (key ++ ("=" : Text) ++ value)

/-- `json_to_query_string`. -/
def jsonToQueryString (j : Json ν) : Except ClientError Text :=
  match j.members with
  | none => .error (.runtimeError ("JSON must be an object for query string conversion" : Text))
  | some members => members.foldlM (appendMember J) []

/-! ## Percent-encoding -/

/-- The number of a byte is written in two digits. -/
theorem byte_digits {n : Nat} (hn : n < 256) :
    List.replicate (2 - ((Nat.toDigits 16 n).map Char.toUpper).length) '0' ++
        (Nat.toDigits 16 n).map Char.toUpper =
      [PercentCoding.digit (n / 16), PercentCoding.digit (n % 16)] := by
  have hall : ∀ i : Fin 256,
      List.replicate (2 - ((Nat.toDigits 16 i).map Char.toUpper).length) '0' ++
        (Nat.toDigits 16 i).map Char.toUpper =
      [PercentCoding.digit (i / 16), PercentCoding.digit (i % 16)] := by decide +kernel
  exact hall ⟨n, hn⟩

/-- A stream as `encode_url` has set it up. -/
def escapedStream (text : Text) : OStream := ⟨text, '0', 0, true, false⟩

/-- After a character the stream is as before, but for its text. -/
theorem escapeChar_eq (text : Text) {c : Char} (hc : c.toNat < 256) :
    escapeChar (escapedStream text) c =
      escapedStream (text ++ PercentCoding.encodeChar isUnreserved c) := by
  have hmod : c.toNat % 256 = c.toNat := Nat.mod_eq_of_lt hc
  unfold escapeChar PercentCoding.encodeChar
  dsimp only
  rw [hmod, Char.ofNat_toNat]
  by_cases h : isUnreserved c = true
  · have hplain := h
    unfold isUnreserved at hplain
    rw [if_pos hplain, if_pos h]
    rfl
  · have hplain := h
    unfold isUnreserved at hplain
    rw [if_neg hplain, if_neg h, ← byte_digits hc]
    show escapedStream (text ++ ['%'] ++ _) = escapedStream (text ++ ('%' :: _))
    rw [List.append_assoc]
    rfl

/-- A text of bytes is percent-encoded. -/
theorem encodeUrl_eq {value : Text} (h : PercentCoding.IsBytes value) :
    encodeUrl value = PercentCoding.encode isUnreserved value := by
  have hloop : ∀ text : Text, value.foldl escapeChar (escapedStream text) =
      escapedStream (text ++ PercentCoding.encode isUnreserved value) := by
    induction value with
    | nil =>
        intro text
        simp [PercentCoding.encode]
    | cons c value ih =>
        obtain ⟨hc, hvalue⟩ := List.forall_mem_cons.mp h
        intro text
        rw [List.foldl_cons, escapeChar_eq text hc, ih hvalue]
        simp [PercentCoding.encode]
  show (value.foldl escapeChar (escapedStream [])).text = _
  rw [hloop []]
  rfl

/-! ## The list of the members -/

/-- A member of a query string. -/
def pairText (pair : Text × Text) : Text :=
  encodeUrl pair.1 ++ ("=" : Text) ++ encodeUrl pair.2

/-- The keys of the members, and the texts of their values. -/
def pairs (members : List (Text × Json ν)) : Except ClientError (List (Text × Text)) :=
  members.mapM fun member => (memberText J member.2).map (member.1, ·)

theorem pairText_ne_nil (pair : Text × Text) : pairText pair ≠ [] := by
  simp [pairText]

/-- A member is written behind the others, after a separator unless it is the first. -/
theorem appendMember_eq {written : List Text} (hwritten : ∀ item ∈ written, item ≠ [])
    (member : Text × Json ν) :
    appendMember J (joinWith ("&" : Text) written) member =
      (memberText J member.2).map fun text =>
        joinWith ("&" : Text) (written ++ [pairText (member.1, text)]) := by
  have hempty : joinWith ("&" : Text) written ≠ [] ↔ written ≠ [] := by
    cases written with
    | nil => exact iff_of_false (fun h => h rfl) (fun h => h rfl)
    | cons item rest =>
        exact iff_of_true (joinWith_ne_nil (hwritten item List.mem_cons_self) _ rest)
          (List.cons_ne_nil item rest)
  have hstep : ∀ text, joinWith ("&" : Text) (written ++ [pairText (member.1, text)]) =
      (if joinWith ("&" : Text) written ≠ [] then joinWith ("&" : Text) written ++ ("&" : Text)
        else joinWith ("&" : Text) written) ++ pairText (member.1, text) := by
    intro text
    rw [joinWith_append]
    by_cases hnil : written = []
    · subst hnil
      rfl
    · rw [if_pos ⟨hnil, List.cons_ne_nil _ _⟩, if_pos (hempty.mpr hnil), List.append_assoc]
      rfl
  unfold appendMember
  cases memberText J member.2 with
  | error e => rfl
  | ok text => exact congrArg Except.ok (hstep text).symm

/-- The loop writes the members behind each other. -/
theorem foldlM_appendMember (members : List (Text × Json ν)) {written : List Text}
    (hwritten : ∀ item ∈ written, item ≠ []) :
    members.foldlM (appendMember J) (joinWith ("&" : Text) written) =
      (pairs J members).map fun pairs =>
        joinWith ("&" : Text) (written ++ pairs.map pairText) := by
  induction members generalizing written with
  | nil =>
      show Except.ok _ = Except.ok (joinWith ("&" : Text) (written ++ []))
      rw [List.append_nil]
  | cons member members ih =>
      rw [List.foldlM_cons, appendMember_eq J hwritten, pairs, List.mapM_cons]
      cases memberText J member.2 with
      | error e => rfl
      | ok text =>
          have hnext : ∀ item ∈ written ++ [pairText (member.1, text)], item ≠ [] := by
            intro item hitem
            rcases List.mem_append.mp hitem with hitem | hitem
            · exact hwritten item hitem
            · rw [List.mem_singleton.mp hitem]
              exact pairText_ne_nil _
          refine (ih hnext).trans ?_
          rw [pairs]
          cases List.mapM (fun member => (memberText J member.2).map (member.1, ·)) members with
          | error e => rfl
          | ok pairs => exact congrArg Except.ok (by simp)

/-- The texts of the members, with `&` between them. -/
theorem jsonToQueryString_eq {j : Json ν} {members : List (Text × Json ν)}
    (hmembers : j.members = some members) :
    jsonToQueryString J j =
      (pairs J members).map (fun pairs => joinWith ("&" : Text) (pairs.map pairText)) := by
  rw [jsonToQueryString, hmembers]
  have hnothing : ∀ item ∈ ([] : List Text), item ≠ [] := by simp
  exact foldlM_appendMember J members hnothing

/-- An object with members has a query string. -/
theorem jsonToQueryString_ne_nil {j : Json ν} {member : Text × Json ν}
    {members : List (Text × Json ν)} (hmembers : j.members = some (member :: members))
    {query : Text} (h : jsonToQueryString J j = .ok query) : query ≠ [] := by
  rw [jsonToQueryString_eq J hmembers, pairs, List.mapM_cons] at h
  cases htext : memberText J member.2 with
  | error e =>
      rw [htext] at h
      cases h
  | ok text =>
      rw [htext] at h
      cases hrest : members.mapM fun member => (memberText J member.2).map (member.1, ·) with
      | error e =>
          rw [hrest] at h
          cases h
      | ok rest =>
          rw [hrest] at h
          rw [← Except.ok.inj h]
          exact joinWith_ne_nil (pairText_ne_nil _) _ _

/-! ## Reading a query string -/

/-- A part of a query string, cut at its first `=` and decoded. -/
def decodePart (part : Text) : Option (Text × Text) := do
  let (key, value) ← cutAt '=' part
  return (← PercentCoding.decode key, ← PercentCoding.decode value)

/-- The parts between the `&`. There is none in an empty text. -/
def decodeQuery (query : Text) : Option (List (Text × Text)) :=
  if query = [] then some [] else (query.splitOn '&').mapM decodePart

theorem isUnreserved_of_delimiter : ∀ c ∈ ['%', '&', '='], isUnreserved c = false :=
  List.all_iff_forall_prop.mp (by decide)

/-- Delimiters are always encoded. -/
theorem not_mem_encodeUrl {value : Text} (h : PercentCoding.IsBytes value) {c : Char}
    (hc : c ∈ ['&', '=']) : c ∉ encodeUrl value := by
  intro hmem
  rw [encodeUrl_eq h] at hmem
  have hplain := isUnreserved_of_delimiter c (List.mem_cons_of_mem _ hc)
  have hdigits : ∀ c ∈ ['&', '='], c ≠ '%' ∧ c ∉ PercentCoding.digits :=
    List.all_iff_forall_prop.mp (by decide)
  rcases (PercentCoding.encoded_encode (isUnreserved_of_delimiter '%' (by simp))
    (fun _ h => h) h).mem hmem with hunreserved | hpercent | hdigit
  · rw [hplain] at hunreserved
    cases hunreserved
  · exact (hdigits c hc).1 hpercent
  · exact (hdigits c hc).2 hdigit

theorem decode_encodeUrl {value : Text} (h : PercentCoding.IsBytes value) :
    PercentCoding.decode (encodeUrl value) = some value := by
  rw [encodeUrl_eq h]
  exact PercentCoding.decode_encode (isUnreserved_of_delimiter '%' (by simp)) h

/-- The key and the text are bytes. -/
def PairBytes (pair : Text × Text) : Prop :=
  PercentCoding.IsBytes pair.1 ∧ PercentCoding.IsBytes pair.2

instance (pair : Text × Text) : Decidable (PairBytes pair) := inferInstanceAs (Decidable (_ ∧ _))

theorem decodePart_pairText {pair : Text × Text} (h : PairBytes pair) :
    decodePart (pairText pair) = some pair := by
  have hcut : cutAt '=' (pairText pair) = some (encodeUrl pair.1, encodeUrl pair.2) := by
    rw [pairText, List.append_assoc]
    exact cutAt_append (not_mem_encodeUrl h.1 (by simp)) _
  rw [decodePart, hcut]
  simp [decode_encodeUrl h.1, decode_encodeUrl h.2]

theorem not_mem_pairText {pair : Text × Text} (h : PairBytes pair) : '&' ∉ pairText pair := by
  have hkey := not_mem_encodeUrl h.1 (c := '&') (by simp)
  have hvalue := not_mem_encodeUrl h.2 (c := '&') (by simp)
  simp [pairText, hkey, hvalue]

/-- The pairs are read back. -/
theorem decodeQuery_joinWith {pairs : List (Text × Text)} (h : ∀ pair ∈ pairs, PairBytes pair) :
    decodeQuery (joinWith ("&" : Text) (pairs.map pairText)) = some pairs := by
  cases pairs with
  | nil => rfl
  | cons pair rest =>
      have hdecode : ((pair :: rest).map pairText).mapM decodePart = some (pair :: rest) := by
        generalize pair :: rest = pairs at h
        induction pairs with
        | nil => rfl
        | cons pair pairs ih =>
            obtain ⟨hpair, hpairs⟩ := List.forall_mem_cons.mp h
            rw [List.map_cons, List.mapM_cons, decodePart_pairText hpair, ih hpairs]
            rfl
      have hne : joinWith ("&" : Text) ((pair :: rest).map pairText) ≠ [] :=
        joinWith_ne_nil (pairText_ne_nil pair) _ _
      have hamp : ∀ item ∈ (pair :: rest).map pairText, '&' ∉ item := by
        rw [List.forall_mem_map]
        exact fun pair hpair => not_mem_pairText (h pair hpair)
      have hsplit : (joinWith ("&" : Text) ((pair :: rest).map pairText)).splitOn '&' =
          (pair :: rest).map pairText := by
        rw [joinWith_eq_intercalate]
        exact List.splitOn_intercalate '&' hamp (by simp)
      rw [decodeQuery, if_neg hne, hsplit, hdecode]

/-- The characters of a query string: unreserved ones, `%`, and the two delimiters. Behind every
`%` there are two digits. -/
structure WellWritten (query : Text) : Prop where
  characters : ∀ c ∈ query, isUnreserved c = true ∨ c = '%' ∨ c = '=' ∨ c = '&'
  escapes : ∀ front rest, query = front ++ '%' :: rest →
    ∃ high low more, rest = high :: low :: more ∧ high ∈ PercentCoding.digits ∧
      low ∈ PercentCoding.digits

/-- The unreserved characters, and the delimiters of a query string. -/
def isQueryChar (c : Char) : Bool := isUnreserved c || c = '=' || c = '&'

theorem wellWritten_of_encoded {query : Text} (h : PercentCoding.Encoded isQueryChar query) :
    WellWritten query := by
  have hdigits : ∀ c ∈ PercentCoding.digits, isUnreserved c = true :=
    List.all_iff_forall_prop.mp (by decide)
  constructor
  · intro c hc
    rcases h.mem hc with hplain | hpercent | hdigit
    · simp only [isQueryChar, Bool.or_eq_true, decide_eq_true_eq] at hplain
      rcases hplain with (hplain | heq) | hamp
      · exact .inl hplain
      · exact .inr (.inr (.inl heq))
      · exact .inr (.inr (.inr hamp))
    · exact .inr (.inl hpercent)
    · exact .inl (hdigits c hdigit)
  · intro front rest hquery
    exact h.digits_behind (by decide) hquery

/-- A query string is well written. -/
theorem encoded_joinWith {pairs : List (Text × Text)} (h : ∀ pair ∈ pairs, PairBytes pair) :
    PercentCoding.Encoded isQueryChar (joinWith ("&" : Text) (pairs.map pairText)) := by
  have hpercent : isQueryChar '%' = false := by decide
  have hvalue : ∀ value, PercentCoding.IsBytes value →
      PercentCoding.Encoded isQueryChar (encodeUrl value) := by
    intro value hvalue
    rw [encodeUrl_eq hvalue]
    refine PercentCoding.encoded_encode hpercent (fun c hc => ?_) hvalue
    rw [isQueryChar, hc]
    rfl
  have hpair : ∀ pair, PairBytes pair → PercentCoding.Encoded isQueryChar (pairText pair) := by
    intro pair hpair
    rw [pairText, List.append_assoc]
    exact (hvalue _ hpair.1).append hpercent ((hvalue _ hpair.2).cons hpercent (by decide))
  induction pairs with
  | nil => trivial
  | cons pair rest ih =>
      obtain ⟨hfirst, hrest⟩ := List.forall_mem_cons.mp h
      cases rest with
      | nil => exact hpair pair hfirst
      | cons next rest =>
          show PercentCoding.Encoded isQueryChar
            (pairText pair ++ ("&" : Text) ++ joinWith ("&" : Text) ((next :: rest).map pairText))
          rw [List.append_assoc]
          exact (hpair pair hfirst).append hpercent ((ih hrest).cons hpercent (by decide))

/-- The query string of an object gives its keys and the texts of its values back. -/
theorem query_decodable {j : Json ν} {members : List (Text × Json ν)}
    (hobject : j.members = some members) {entries : List (Text × Text)}
    (hentries : pairs J members = .ok entries) (hbytes : ∀ entry ∈ entries, PairBytes entry) :
    (∃ query, jsonToQueryString J j = .ok query ∧ decodeQuery query = some entries ∧
      WellWritten query) ∧
    ∀ first second, PercentCoding.IsBytes first → PercentCoding.IsBytes second →
      encodeUrl first = encodeUrl second → first = second := by
  constructor
  · refine ⟨joinWith ("&" : Text) (entries.map pairText), ?_, decodeQuery_joinWith hbytes,
      wellWritten_of_encoded (encoded_joinWith hbytes)⟩
    rw [jsonToQueryString_eq J hobject, hentries]
    rfl
  · intro first second hfirst hsecond h
    rw [encodeUrl_eq hfirst, encodeUrl_eq hsecond] at h
    exact PercentCoding.encode_injOn (isUnreserved_of_delimiter '%' (by simp)) hfirst hsecond h

/-- An object with an empty key, and with delimiters in a key and in a value. -/
def filters : Json Bool :=
  ⟨.node (.leaf [] .null (.leaf ("a&b" : Text) (.string ("x=%" : Text)) .nil)),
    by simp [Tree.Sorted, Forest.Sorted, Forest.keys]⟩

theorem filters_decodable :
    (∃ query, jsonToQueryString PlainJson.jsonText filters = .ok query ∧
      decodeQuery query = some [([], ("null" : Text)), (("a&b" : Text), ("x=%" : Text))] ∧
      WellWritten query) ∧
    ∀ first second, PercentCoding.IsBytes first → PercentCoding.IsBytes second →
      encodeUrl first = encodeUrl second → first = second :=
  query_decodable PlainJson.jsonText (j := filters) rfl (by rfl) (by decide)

end HttpClient

end Brazier
