import Brazier.Config.Subtrees

/-!
# The getters of the configuration manager

`get`, `getNested`, `getJson` and `getNestedJson`. The first two are templates: a `Kind` says what
`toString`, `fromString` and `getNested` do at a type. An `unordered_map` that a getter fills is
enumerated in an order that the insertions into it determine.
-/

namespace Brazier

open ProofLib

/-- How an `unordered_map` is enumerated that was filled by these insertions. -/
structure Enumeration where
  enumerate : List (Text × Text) → List (Text × Text)
  perm : ∀ insertions, (enumerate insertions).Perm (insertAll insertions ∅).toList

namespace ConfigManager

variable {ν α : Type}

/-- The conversions between a type and `json`: `to_json` and `get<T>()`. -/
structure Conversion (ν α : Type) where
  toJson : α → Json ν
  fromJson : Json ν → Option α
  fromJson_toJson : ∀ v, fromJson (toJson v) = some v

/-- A `json` is converted to itself. -/
def Conversion.json : Conversion ν (Json ν) where
  toJson := id
  fromJson := some
  fromJson_toJson _ := rfl

/-- What a template parameter may be: `std::string`, the array of a string literal (which is read as
a `std::string`), or a type that `json` converts. -/
inductive Kind (ν : Type) : Type → Type 1 where
  | string : Kind ν Text
  | literal : Kind ν Text
  | converted {α : Type} (conversion : Conversion ν α) : Kind ν α

namespace Kind

/-- `T` is `json`. -/
def json : Kind ν (Json ν) := .converted .json

/-- What `set` is handed. `toString` compares the type with `std::string`, `const char*` and
`char*`, so an array of characters takes the last branch, `json j = value; return j.dump()`. -/
def value : Kind ν α → α → Value ν
  | .string, text => .string text
  | .literal, text => .json (Json.ofString text)
  | .converted conversion, v => .json (conversion.toJson v)

/-- `fromString`. -/
def fromString (J : JsonText ν) : Kind ν α → Text → Option α
  | .string, str => some str
  | .literal, str => some str
  | .converted conversion, str => (J.parse str).bind conversion.fromJson

/-- What `getNested` makes of a subtree. -/
def fromNested (J : JsonText ν) : Kind ν α → Json ν → Option α
  | .string, nestedJson => J.dump (some 4) nestedJson
  | .literal, nestedJson => J.dump (some 4) nestedJson
  | .converted conversion, nestedJson => conversion.fromJson nestedJson

end Kind

/-- `json::object()`. -/
def emptyObject : Json ν := ⟨.node .nil, trivial⟩

/-- `get`. -/
def get (J : JsonText ν) (kind : Kind ν α) (cm : ConfigManager) (key : Text) (defaultValue : α) :
    α :=
  match cm.config[key]? with
  | some text => (kind.fromString J text).getD defaultValue
  | none => defaultValue

/-- The loop of `getNested`: what it inserts into `filtered`. -/
def filteredBelow (path : Text) (order : List (Text × Text)) : List (Text × Text) :=
  (order.filter (fun entry => (path ++ ['.']).isPrefixOf entry.1)).map
    (fun entry => (entry.1.drop (path.length + 1), entry.2))

/-- `getNested`, where `config_` is enumerated in this order. `unflattenMap` is called in front of
the `try` block. -/
def getNested (J : JsonText ν) (kind : Kind ν α) (hash : Enumeration) (order : List (Text × Text))
    (cm : ConfigManager) (path : Text) (defaultValue : α) : Except ConfigError α :=
  match cm.config[path]? with
  | some text => .ok ((kind.fromString J text).getD defaultValue)
  | none =>
      if (filteredBelow path order).isEmpty then .ok defaultValue
      else
        match unflattenMap J (hash.enumerate (filteredBelow path order)) with
        | .error e => .error e
        | .ok nestedJson => .ok ((kind.fromNested J nestedJson).getD defaultValue)

/-- The loop of `getJson` and what follows it. -/
def getJsonFrom (J : JsonText ν) (hash : Enumeration) (key : Text) (filtered : List (Text × Text)) :
    List (Text × Text) → Except ConfigError (Json ν)
  | [] =>
      if filtered.isEmpty then .ok emptyObject else unflattenMap J (hash.enumerate filtered)
  | (configKey, value) :: rest =>
      if configKey = key then .ok (valueJson J value)
      else if (key ++ ['.']).isPrefixOf configKey then
        getJsonFrom J hash key (filtered ++ [(configKey.drop (key.length + 1), value)]) rest
      else getJsonFrom J hash key filtered rest

/-- `getJson`, where `config_` is enumerated in this order. -/
def getJson (J : JsonText ν) (hash : Enumeration) (order : List (Text × Text)) (key : Text) :
    Except ConfigError (Json ν) :=
  getJsonFrom J hash key [] order

/-- What `getNestedJson` throws: `std::out_of_range`, or what `unflattenMap` does. -/
inductive SubtreeError where
  | outOfRange
  | unflatten (e : ConfigError)
  deriving DecidableEq

/-- The loop of `getNestedJson`. `substr` throws when it is to start behind the end. -/
def filteredFrom (pre : Text) (filtered : List (Text × Text)) :
    List (Text × Text) → Except SubtreeError (List (Text × Text))
  | [] => .ok filtered
  | (key, value) :: rest =>
      if pre.isPrefixOf key then
        if key.length < pre.length + 1 then .error .outOfRange
        else filteredFrom pre (filtered ++ [(key.drop (pre.length + 1), value)]) rest
      else filteredFrom pre filtered rest

/-- `getNestedJson`, where `config_` is enumerated in this order. -/
def getNestedJson (J : JsonText ν) (hash : Enumeration) (order : List (Text × Text)) (pre : Text) :
    Except SubtreeError (Json ν) := do
  let filtered ← if pre.isEmpty then pure order else filteredFrom pre [] order
  (unflattenMap J (hash.enumerate filtered)).mapError .unflatten

/-! ## What the loops select -/

/-- What is inserted for the path is what is below it, with the path and the dot cut off. -/
theorem mem_filteredBelow {path subKey value : Text} {order : List (Text × Text)} :
    (subKey, value) ∈ filteredBelow path order ↔ (path ++ '.' :: subKey, value) ∈ order := by
  rw [filteredBelow, List.mem_map]
  constructor
  · rintro ⟨⟨key, v⟩, hmem, heq⟩
    obtain ⟨hmem, hbelow⟩ := List.mem_filter.mp hmem
    obtain ⟨rest, rfl⟩ := List.isPrefixOf_iff_prefix.mp hbelow
    obtain ⟨hcut, rfl⟩ : (path ++ ['.'] ++ rest).drop (path.length + 1) = subKey ∧ v = value :=
      Prod.ext_iff.mp heq
    have hlength : path.length + 1 = (path ++ ['.']).length := by simp
    obtain rfl : rest = subKey := by
      rw [← hcut, hlength, List.drop_left]
    rwa [List.append_assoc] at hmem
  · intro hmem
    refine ⟨(path ++ '.' :: subKey, value), List.mem_filter.mpr ⟨hmem, ?_⟩, ?_⟩
    · exact List.isPrefixOf_iff_prefix.mpr ⟨subKey, by simp⟩
    · simp

end ConfigManager

end Brazier
