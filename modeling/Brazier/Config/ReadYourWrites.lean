import Brazier.Config.Getters
import Brazier.ProofLib.Runs

/-!
# Reading back what was set

`set` encodes a value by the type at its call site, `get` decodes by the type at another one. A
`std::string` is stored as it is and any other value as what `dump` gives. A string literal arrives
at `set` as an array of characters, which is none of the types that are stored as they are: its text
is stored in quotes, and `get<std::string>` returns the quotes.
-/

namespace Brazier

open ProofLib

namespace ConfigManager

variable {ν α : Type} {J : JsonText ν} {cm cm' : ConfigManager} {key : Text}

/-- `set` was handed a string literal. -/
def Kind.IsLiteral : Kind ν α → Prop
  | .string => False
  | .literal => True
  | .converted _ => False

/-- The path of the call is not empty, and the key is neither the path nor below it. -/
def ApartFrom (key path : Text) : Prop := path ≠ [] ∧ ¬ InSubtree path key

instance (key path : Text) : Decidable (ApartFrom key path) :=
  inferInstanceAs (Decidable (_ ∧ _))

/-- A call of `set`, `setNested`, `remove` or `removeNested` apart from the key. -/
def Call.Apart (key : Text) : Call ν → Prop
  | .set path _ => ApartFrom key path
  | .setNested path _ => ApartFrom key path
  | .remove path => ApartFrom key path
  | .removeNested path => ApartFrom key path
  | .clear => False
  | .loadFromJson _ => False

/-! ## What a call does to another key -/

theorem ApartFrom.ne {path : Text} (h : ApartFrom key path) : path ≠ key :=
  fun heq => h.2 (Or.inl heq.symm)

/-- Storing a text at a path leaves the other keys, also when `toString` throws. -/
theorem getElem?_assignText {path : Text} (hne : path ≠ key) (value : Value ν) :
    ((assignText J path value).outcome cm).2.config[key]? = cm.config[key]? := by
  rw [assignText]
  cases toString J value with
  | none => rfl
  | some text =>
      show (cm.config.insert path text)[key]? = _
      rw [getElem?_insert, if_neg hne]

/-- A call apart from a key leaves what is stored there. -/
theorem Call.Apart.getElem?_call {c : Call ν} (h : c.Apart key) :
    (call J cm c).config[key]? = cm.config[key]? := by
  cases c with
  | set path value => exact getElem?_assignText (ApartFrom.ne h) value
  | setNested path value =>
      cases value with
      | string text => exact getElem?_assignText (ApartFrom.ne h) _
      | scalar v => exact getElem?_assignText (ApartFrom.ne h) _
      | json j =>
          show ((ConfigManager.setNested J path (.json j)).outcome cm).2.config[key]? = _
          rw [getElem?_setNested_json cm h.1, if_neg h.2]
  | remove path =>
      show (cm.config.erase path)[key]? = _
      rw [Std.ExtTreeMap.getElem?_erase, if_neg]
      simpa using h.ne
  | removeNested path =>
      rw [call, removeNested_outcome]
      show (eraseNested path cm.config)[key]? = _
      rw [getElem?_eraseNested, if_neg h.2]
  | clear => cases h
  | loadFromJson j => cases h

/-- Calls apart from a key leave what is stored there. -/
theorem getElem?_runFrom {calls : List (Call ν)} (h : ∀ c ∈ calls, c.Apart key) :
    (runFrom (call J) cm calls).config[key]? = cm.config[key]? :=
  runFrom_invariant (fun cm' : ConfigManager => cm'.config[key]? = cm.config[key]?) rfl
    fun c hc _ hsame => ((h c hc).getElem?_call).trans hsame

/-! ## Encoding and decoding -/

/-- A `set` that returned has stored what `toString` gives. -/
theorem getElem?_set {value : Value ν} (hset : (set J key value).outcome cm = (.ok (), cm')) :
    ∃ text, toString J value = some text ∧ cm'.config[key]? = some text := by
  rw [set, assignText] at hset
  cases htext : toString J value with
  | none =>
      rw [htext] at hset
      cases hset
  | some text =>
      rw [htext] at hset
      cases hset
      refine ⟨text, rfl, ?_⟩
      show (cm.config.insert key text)[key]? = _
      rw [getElem?_insert, if_pos rfl]

/-- What is not a literal is decoded from what it was encoded to. -/
theorem Kind.fromString_toString {kind : Kind ν α} (hkind : ¬ kind.IsLiteral) {v : α} {text : Text}
    (htext : toString J (kind.value v) = some text) : kind.fromString J text = some v := by
  cases kind with
  | string => exact htext.symm
  | literal => exact absurd trivial hkind
  | converted conversion =>
      have hparse : J.parse text = some (conversion.toJson v) := J.parse_dump none _ _ htext
      rw [Kind.fromString, hparse]
      exact conversion.fromJson_toJson v

/-- A literal is encoded to a longer text. -/
theorem literal_lt {v text : Text} (htext : toString J (Kind.literal.value v) = some text) :
    v.length < text.length :=
  J.string_lt text (Json.ofString v) [] v (J.parse_dump none _ _ htext) rfl

/-- After a `set` that returned, and any calls apart from its key, `get` returns the value, unless
it was a string literal. -/
theorem get_set_iff (J : JsonText ν) (kind : Kind ν α) (cm cm' : ConfigManager) (key : Text)
    (v defaultValue : α) (hset : (set J key (kind.value v)).outcome cm = (.ok (), cm')) :
    (∀ calls : List (Call ν), (∀ c ∈ calls, c.Apart key) →
      get J kind (runFrom (call J) cm' calls) key defaultValue = v) ↔ ¬ kind.IsLiteral := by
  obtain ⟨text, htext, hstored⟩ := getElem?_set hset
  constructor
  · intro hreads hliteral
    have hread := hreads [] (by simp)
    cases kind with
    | string => exact hliteral
    | converted conversion => exact hliteral
    | literal =>
        rw [runFrom_nil, get, hstored] at hread
        obtain rfl : text = v := hread
        exact absurd (literal_lt htext) (Nat.lt_irrefl _)
  · intro hkind calls hcalls
    rw [get, getElem?_runFrom hcalls, hstored]
    show (kind.fromString J text).getD defaultValue = v
    rw [Kind.fromString_toString hkind htext]
    rfl

/-- A manager after a `set` of a string. -/
def hostManager : ConfigManager :=
  ((set PlainJson.jsonText "server.host" (Kind.string.value "localhost")).outcome empty).2

theorem get_set_host :
    get PlainJson.jsonText .string
      (runFrom (call PlainJson.jsonText) hostManager [.removeNested "server.h"])
      "server.host" [] = "localhost" := by
  refine (get_set_iff PlainJson.jsonText .string empty hostManager "server.host" "localhost" []
    rfl).mpr id [.removeNested "server.h"] ?_
  intro c hc
  obtain rfl := List.mem_singleton.mp hc
  exact (by decide : ApartFrom "server.host" "server.h")

/-- A literal is read back with its quotes. -/
theorem literal_quoted :
    ((set PlainJson.jsonText "server.host" (Kind.literal.value "0.0.0.0")).outcome empty).1 =
      .ok () ∧
    get PlainJson.jsonText .string
      ((set PlainJson.jsonText "server.host" (Kind.literal.value "0.0.0.0")).outcome empty).2
      "server.host" [] = "\"0.0.0.0\"" ∧
    get PlainJson.jsonText .string
      ((set PlainJson.jsonText "server.host" (Kind.literal.value "0.0.0.0")).outcome empty).2
      "server.host" [] ≠ "0.0.0.0" := by
  refine ⟨rfl, ?_, ?_⟩ <;> decide +kernel

end ConfigManager

end Brazier
