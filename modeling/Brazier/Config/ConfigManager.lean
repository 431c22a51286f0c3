import Brazier.ProofLib.Json
import Brazier.ProofLib.Throwing
import Brazier.Text
import Std.Data.ExtTreeMap

/-!
# The configuration manager

`ConfigManager` of `src/ConfigManager.cpp`: a map from dotted keys to texts, read from a JSON
document and written to one. `autoSave_` is false, as it is until `setAutoSave` is called: no
mutator writes the file. `AutoSave` is about the managers where it is true. The driver holds what
was put last at `configFilePath_`. The order in which an `unordered_map` is enumerated is a
parameter of what enumerates one: it is any permutation of the entries of the map.
-/

namespace Brazier

open ProofLib

/-- What is thrown. Using the parts of an empty key is undefined. -/
inductive ConfigError where
  | typeError
  | loadFailed
  | undefined
  deriving DecidableEq

/-- A `ConfigManager`, and what its driver holds at its path. -/
structure ConfigManager where
  config : TextMap
  file : Option Text

namespace ConfigManager

/-- A member function: it may change the manager, and return or throw. -/
abbrev Action := Throwing ConfigManager ConfigError

variable {ν : Type}

/-- A key below another one: `prefix.empty() ? key : prefix + "." + key`. -/
def newPrefix (pre key : Text) : Text :=
  if pre.isEmpty then key else pre ++ '.' :: key

/-- The text under which a value without members is stored: a string itself, and of any other
value what `dump` gives. -/
def leafText (J : JsonText ν) : Leaf ν → Option Text
  | .string text => some text
  | .null => J.dump none (Ordered.leaf .null)
  | .other value => J.dump none (Ordered.leaf (.other value))

/-- `output[prefix] = …`. -/
def writeLeaf (J : JsonText ν) (pre : Text) (leaf : Leaf ν) : Throwing TextMap ConfigError Unit :=
  match leafText J leaf with
  | some text => modify (fun output => output.insert pre text)
  | none => throw .typeError

/-- The loop of `flattenJson` over the members of an object. -/
def flattenMembers (J : JsonText ν) (pre : Text) :
    Forest Text (Leaf ν) → Throwing TextMap ConfigError Unit
  | .nil => pure ()
  | .leaf key leaf rest => do
      writeLeaf J (newPrefix pre key) leaf
      flattenMembers J pre rest
  | .node key members rest => do
      flattenMembers J (newPrefix pre key) members
      flattenMembers J pre rest

/-- `flattenJson`. -/
def flattenJson (J : JsonText ν) (pre : Text) (j : Json ν) : Throwing TextMap ConfigError Unit :=
  match j.1 with
  | .leaf leaf => writeLeaf J pre leaf
  | .node members => flattenMembers J pre members

/-- The value a stored text stands for: what it parses to, or the text itself. -/
def valueJson (J : JsonText ν) (value : Text) : Json ν :=
  match J.parse value with
  | some j => j
  | none => Json.ofString value

/-- The body of the loop of `unflattenMap`. Null becomes an object where a part is looked up in it;
any other value without members throws. -/
def unflattenEntry (J : JsonText ν) (result : Json ν) (entry : Text × Text) :
    Except ConfigError (Json ν) :=
  match getlines '.' entry.1 with
  | [] => .error .undefined
  | part :: parts =>
      match result.assign Leaf.isNull (part :: parts) (valueJson J entry.2) with
      | some result => .ok result
      | none => .error .typeError

/-- `unflattenMap` of a map that is enumerated in this order. -/
def unflattenMap (J : JsonText ν) (map : List (Text × Text)) : Except ConfigError (Json ν) :=
  map.foldlM (unflattenEntry J) Json.null

/-- A value handed to `set` or `setNested`: a string, a boolean or number, or a `json`. -/
inductive Value (ν : Type) where
  | string (text : Text)
  | scalar (value : ν)
  | json (j : Json ν)

/-- `toString`. -/
def toString (J : JsonText ν) : Value ν → Option Text
  | .string text => some text
  | .scalar value => J.dump none (Ordered.leaf (.other value))
  | .json j => J.dump none j

/-- An operation on `config_`. -/
def onConfig (x : Throwing TextMap ConfigError Unit) : Action Unit := fun cm =>
  let (result, config) := x.outcome cm.config
  (result, { cm with config })

/-- `config_[key] = toString(value)`. -/
def assignText (J : JsonText ν) (key : Text) (value : Value ν) : Action Unit :=
  match toString J value with
  | some text => modify (fun cm => { cm with config := cm.config.insert key text })
  | none => throw .typeError

/-- `set`. -/
def set (J : JsonText ν) (key : Text) (value : Value ν) : Action Unit := assignText J key value

/-- The keys that `setNested` of a `json` and `removeNested` erase: the path and what is below. -/
def toRemove (path : Text) (config : TextMap) : List Text :=
  config.keys.filter (fun key => key = path || (path ++ ['.']).isPrefixOf key)

/-- The loop that erases them. -/
def eraseNested (path : Text) (config : TextMap) : TextMap :=
  (toRemove path config).foldl (fun config key => config.erase key) config

/-- `setNested`. -/
def setNested (J : JsonText ν) (path : Text) : Value ν → Action Unit
  | .json j => do
      modify (fun cm => { cm with config := eraseNested path cm.config })
      onConfig (flattenJson J path j)
  | value => assignText J path value

/-- `remove`. -/
def remove (key : Text) : Action Bool := do
  let cm ← get
  modify (fun cm => { cm with config := cm.config.erase key })
  return cm.config.contains key

/-- `removeNested`. -/
def removeNested (path : Text) : Action Bool := do
  let cm ← get
  if (toRemove path cm.config).isEmpty then
    return false
  modify (fun cm => { cm with config := eraseNested path cm.config })
  return true

/-- `clear`. -/
def clear : Action Unit := modify (fun cm => { cm with config := ∅ })

/-- `loadFromJson`. -/
def loadFromJson (J : JsonText ν) (j : Json ν) : Action Unit := do
  modify (fun cm => { cm with config := ∅ })
  onConfig (flattenJson J [] j)

/-- `getAllAsJson`. -/
def getAllAsJson (J : JsonText ν) (order : List (Text × Text)) : Except ConfigError (Json ν) :=
  unflattenMap J order

/-- `save`. -/
def save (J : JsonText ν) (order : List (Text × Text)) : Action Unit :=
  match unflattenMap J order with
  | .error e => throw e
  | .ok j =>
      match J.dump (some 4) j with
      | none => throw .typeError
      | some content => modify (fun cm => { cm with file := some content })

/-- `load`. -/
def load (J : JsonText ν) : Action Unit := do
  let cm ← get
  match cm.file with
  | none => modify (fun cm => { cm with config := ∅ })
  | some content =>
      match J.parse content with
      | none => throw .loadFailed
      | some j =>
          modify (fun cm => { cm with config := ∅ })
          tryCatch (onConfig (flattenJson J [] j)) (fun _ => throw .loadFailed)

/-- `reload`. -/
def reload (J : JsonText ν) : Action Unit := load J

/-- `getRawData`. -/
def getRawData (cm : ConfigManager) : TextMap := cm.config

/-! ## Sequences of calls -/

/-- A call of a public mutator. -/
inductive Call (ν : Type) where
  | set (key : Text) (value : Value ν)
  | setNested (path : Text) (value : Value ν)
  | remove (key : Text)
  | removeNested (path : Text)
  | clear
  | loadFromJson (j : Json ν)

/-- The manager after a call, whether it returned or threw. -/
def call (J : JsonText ν) (cm : ConfigManager) : Call ν → ConfigManager
  | .set key value => ((set J key value).outcome cm).2
  | .setNested path value => ((setNested J path value).outcome cm).2
  | .remove key => ((remove key).outcome cm).2
  | .removeNested path => ((removeNested path).outcome cm).2
  | .clear => (clear.outcome cm).2
  | .loadFromJson j => ((loadFromJson J j).outcome cm).2

/-- A manager without entries, over a driver that holds nothing. -/
def empty : ConfigManager := ⟨∅, none⟩

end ConfigManager

end Brazier
