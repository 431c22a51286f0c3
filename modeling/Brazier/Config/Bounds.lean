import Brazier.Config.HashOrder
import Brazier.Config.Subtrees

/-!
# The indices of the loop in `unflattenMap`

The loop runs over the indices below `parts.size() - 1`, and `parts.back()` follows it. Only an
empty key has no parts. Then the difference wraps round, and the first access is already outside.
Such a key is stored by `set`, and by a document that has a value under no key but empty ones.
-/

namespace Brazier

open ProofLib

namespace ConfigManager

variable {ν : Type} {J : JsonText ν} {cm : ConfigManager}

/-- `parts.size() - 1`, in `size_t`. -/
def lastIndex : Nat → Nat
  | 0 => 2 ^ 64 - 1
  | size + 1 => size

/-- The loop of `unflattenMap` over the parts of a key from an index on, and the assignment behind
it. An element that does not exist is undefined. -/
def assignFrom (parts : List Text) (value : Json ν) (i : Nat) (current : Tree Text (Leaf ν)) :
    Except ConfigError (Tree Text (Leaf ν)) :=
  if i < lastIndex parts.length then
    match parts[i]? with
    | none => .error .undefined
    | some part =>
        match current.children Leaf.isNull with
        | none => .error .typeError
        | some members => do
            let child ← assignFrom parts value (i + 1) ((members.get part).getD (.node .nil))
            return .node (members.set part child)
  else
    match parts.getLast? with
    | none => .error .undefined
    | some lastPart =>
        match current.assign Leaf.isNull [lastPart] value.1 with
        | none => .error .typeError
        | some result => .ok result
termination_by lastIndex parts.length - i

/-- The loop of `unflattenMap` over the entries. -/
def unflattenIndexed (J : JsonText ν) (order : List (Text × Text)) :
    Except ConfigError (Tree Text (Leaf ν)) :=
  order.foldlM (fun result entry =>
    assignFrom (getlines '.' entry.1) (valueJson J entry.2) 0 result) (.leaf .null)

/-- However the map is enumerated, `unflattenMap` accesses only parts that exist. -/
def StaysInBounds (J : JsonText ν) (cm : ConfigManager) : Prop :=
  ∀ order, order.Perm cm.config.toList → unflattenIndexed J order ≠ .error .undefined

/-! ## What fills the map -/

/-- A call of `set` or `loadFromJson`, or one of `load` where the driver holds this. -/
inductive Input (ν : Type) where
  | set (key : Text) (value : Value ν)
  | load (content : Option Text)
  | loadFromJson (j : Json ν)

/-- The manager after a call, whether it returned or threw. -/
def step (J : JsonText ν) (cm : ConfigManager) : Input ν → ConfigManager
  | .set key value => ((set J key value).outcome cm).2
  | .load content => ((load J).outcome { cm with file := content }).2
  | .loadFromJson j => ((loadFromJson J j).outcome cm).2

/-- The document has a value that is stored, and no key but empty ones leads to it: it is the whole
document, or stands under an empty key of the first level, or under an empty key below that. -/
def Unkeyed (J : JsonText ν) (j : Json ν) : Prop :=
  ∃ leaf ∈ j.1.leaves, (∀ key ∈ leaf.1, key = []) ∧ leafText J leaf.2 ≠ none

/-- The call stores nothing under an empty key. -/
def Input.Keyed (J : JsonText ν) : Input ν → Prop
  | .set key value => key = [] → toString J value = none
  | .load none => True
  | .load (some content) => ∀ j, J.parse content = some j → ¬ Unkeyed J j
  | .loadFromJson j => ¬ Unkeyed J j

/-! ## The loop over the parts -/

/-- With a part at the index the loop assigns at the path of the parts from there on. -/
theorem assignFrom_eq {parts : List Text} {value : Json ν} {i : Nat} (hi : i < parts.length)
    (current : Tree Text (Leaf ν)) :
    assignFrom parts value i current =
      match current.assign Leaf.isNull (parts.drop i) value.1 with
      | none => .error .typeError
      | some result => .ok result := by
  have hlast : lastIndex parts.length = parts.length - 1 := by
    obtain ⟨size, hsize⟩ := Nat.exists_eq_add_one_of_ne_zero (Nat.ne_of_gt (Nat.zero_lt_of_lt hi))
    rw [hsize]
    rfl
  -- the number of indices that are left
  induction hleft : parts.length - 1 - i generalizing i current with
  | zero =>
      have hend : i = parts.length - 1 := by omega
      have hpart : parts.getLast? = some parts[i] := by
        rw [List.getLast?_eq_getElem?, ← hend, List.getElem?_eq_getElem hi]
      have hdrop : parts.drop i = [parts[i]] := by
        rw [List.drop_eq_getElem_cons hi, List.drop_of_length_le (by omega)]
      rw [assignFrom, hlast, if_neg (by omega), hpart, hdrop]
  | succ left ih =>
      have hnext : i + 1 < parts.length := by omega
      rw [assignFrom, hlast, if_pos (by omega), List.getElem?_eq_getElem hi,
        List.drop_eq_getElem_cons hi, Tree.assign]
      dsimp only
      cases hmembers : current.children Leaf.isNull with
      | none => rfl
      | some members =>
          rw [Option.bind_some]
          dsimp only
          rw [ih hnext _ (by omega)]
          cases Tree.assign Leaf.isNull ((members.get parts[i]).getD (.node .nil))
            (parts.drop (i + 1)) value.1 with
          | none => rfl
          | some child => rfl

/-- Without parts the first access is outside. -/
theorem assignFrom_nil (value : Json ν) (current : Tree Text (Leaf ν)) :
    assignFrom [] value 0 current = .error .undefined := by
  rw [assignFrom]
  rfl

/-- The loop over the indices does what the one over the parts does. -/
theorem assignFrom_entry (result : Json ν) (entry : Text × Text) :
    assignFrom (getlines '.' entry.1) (valueJson J entry.2) 0 result.1 =
      (unflattenEntry J result entry).map Subtype.val := by
  rw [unflattenEntry]
  cases hparts : getlines '.' entry.1 with
  | nil => exact assignFrom_nil _ _
  | cons part parts =>
      rw [assignFrom_eq (by simp), List.drop_zero]
      dsimp only
      cases hassign : result.assign Leaf.isNull (part :: parts) (valueJson J entry.2) with
      | none =>
          rw [Ordered.assign, Option.pmap_eq_none_iff] at hassign
          rw [hassign]
          rfl
      | some result' =>
          rw [Ordered.assign_eq_some.mp hassign]
          rfl

/-- The two loops over the entries give the same. -/
theorem unflattenIndexed_eq (order : List (Text × Text)) :
    unflattenIndexed J order = (unflattenMap J order).map Subtype.val := by
  have hrun : ∀ result : Json ν,
      order.foldlM (fun result entry =>
        assignFrom (getlines '.' entry.1) (valueJson J entry.2) 0 result) result.1 =
      (order.foldlM (unflattenEntry J) result).map Subtype.val := by
    induction order with
    | nil => exact fun _ => rfl
    | cons entry rest ih =>
        intro result
        rw [List.foldlM_cons, List.foldlM_cons, assignFrom_entry]
        cases unflattenEntry J result entry with
        | error e => rfl
        | ok result' => exact ih result'
  exact hrun Json.null

/-- An entry with a key is in bounds. -/
theorem unflattenEntry_ne_undefined {entry : Text × Text} (hkey : entry.1 ≠ []) (result : Json ν) :
    unflattenEntry J result entry ≠ .error .undefined := by
  obtain ⟨part, parts, hparts⟩ := List.exists_cons_of_ne_nil (getlines_ne_nil '.' hkey)
  rw [unflattenEntry, hparts]
  dsimp only
  split <;> simp

/-- Entries with keys are in bounds. -/
theorem unflattenMap_ne_undefined {order : List (Text × Text)}
    (hkeys : ∀ entry ∈ order, entry.1 ≠ []) : unflattenMap J order ≠ .error .undefined := by
  have hrun : ∀ result : Json ν, order.foldlM (unflattenEntry J) result ≠ .error .undefined := by
    induction order with
    | nil => exact fun _ h => by cases h
    | cons entry rest ih =>
        intro result
        rw [List.forall_mem_cons] at hkeys
        rw [List.foldlM_cons]
        have hentry := unflattenEntry_ne_undefined (J := J) hkeys.1 result
        cases hresult : unflattenEntry J result entry with
        | error e =>
            rw [hresult] at hentry
            exact hentry
        | ok result' => exact ih hkeys.2 result'
  exact hrun Json.null

/-- A map is in bounds when it has no entry under the empty key. -/
theorem staysInBounds_iff : StaysInBounds J cm ↔ cm.config[([] : Text)]? = none := by
  constructor
  · intro hbounds
    by_contra hsome
    obtain ⟨value, hvalue⟩ := Option.ne_none_iff_exists'.mp hsome
    -- the order that begins with the empty key
    have hfirst : (([], value) :: cm.config.toList.erase ([], value)).Perm cm.config.toList :=
      (List.perm_cons_erase (mem_toList_iff.mpr hvalue)).symm
    refine hbounds _ hfirst ?_
    rw [unflattenIndexed, List.foldlM_cons]
    show assignFrom [] _ 0 _ >>= _ = _
    rw [assignFrom_nil]
    rfl
  · intro hnone order horder hundefined
    rw [unflattenIndexed_eq] at hundefined
    have hkeys : ∀ entry ∈ order, entry.1 ≠ [] := by
      rintro ⟨key, value⟩ hmem rfl
      rw [horder.mem_iff, mem_toList_iff, hnone] at hmem
      cases hmem
    have hbuilt := unflattenMap_ne_undefined (J := J) hkeys
    cases hresult : unflattenMap J order with
    | ok j =>
        rw [hresult] at hundefined
        cases hundefined
    | error e =>
        rw [hresult] at hundefined hbuilt
        cases hundefined
        exact hbuilt rfl

/-! ## The keys that are stored -/

/-- A path gives the empty key when all its keys are empty. -/
theorem joinKeys_eq_nil_iff {path : List Text} :
    joinKeys [] path = [] ↔ ∀ key ∈ path, key = [] := by
  induction path with
  | nil => simp [joinKeys]
  | cons key path ih =>
      rw [List.forall_mem_cons]
      show joinKeys key path = [] ↔ _
      by_cases hkey : key = []
      · subst hkey
        simp [ih]
      · have hlen := length_joinKeys hkey path
        refine ⟨fun hnil => ?_, fun h => absurd h.1 hkey⟩
        rw [hnil, List.length_nil] at hlen
        have := List.length_pos_iff.mpr hkey
        omega

/-- Flattening a document stores something under the empty key when the document has a value there:
that is the first one. -/
theorem getElem?_enteredPairs_ne_none (j : Json ν) :
    (insertAll (enteredPairs J [] j.1.leaves) ∅)[([] : Text)]? ≠ none ↔ Unkeyed J j := by
  constructor
  · intro hsome
    obtain ⟨value, hvalue⟩ := Option.ne_none_iff_exists'.mp hsome
    rcases of_getElem?_insertAll hvalue with hmem | hempty
    · rw [Unkeyed]
      revert hmem
      generalize j.1.leaves = leaves
      intro hmem
      induction leaves with
      | nil => cases hmem
      | cons leaf rest ih =>
          rw [enteredPairs] at hmem
          split at hmem
          · next text htext =>
              rw [List.mem_cons] at hmem
              rcases hmem with heq | hrest
              · have hkey : joinKeys [] leaf.1 = [] := (congrArg Prod.fst heq).symm
                exact ⟨leaf, List.mem_cons_self, joinKeys_eq_nil_iff.mp hkey, by simp [htext]⟩
              · obtain ⟨leaf', hleaf', hunkeyed⟩ := ih hrest
                exact ⟨leaf', List.mem_cons_of_mem leaf hleaf', hunkeyed⟩
          · cases hmem
    · simp at hempty
  · rintro ⟨⟨path, leaf⟩, hleaf, hpath, htext⟩
    obtain ⟨rest, hleaves⟩ := j.2.leaves_eq_cons (fun key hkey key' => by
      rw [hpath key hkey]
      exact List.not_lt_nil key') hleaf
    obtain ⟨text, htext⟩ := Option.ne_none_iff_exists'.mp htext
    refine getElem?_insertAll_isSome ∅ (Or.inl ?_)
    rw [hleaves, enteredPairs, htext]
    dsimp only
    rw [joinKeys_eq_nil_iff.mpr hpath]
    exact List.mem_cons_self

/-- The map after a document was flattened into an empty one. -/
theorem loadFromJson_outcome (j : Json ν) (cm : ConfigManager) :
    ((loadFromJson J j).outcome cm).2 =
      { cm with config := insertAll (enteredPairs J [] j.1.leaves) ∅ } := by
  have hflatten := onConfig_outcome { cm with config := ∅ } (flattenJson_enters (J := J) j [] ∅)
  rw [loadFromJson, outcome_bind_ok (outcome_modify _ _), hflatten]

/-- `load` of a file with a document does the same, also when it throws in the end. -/
theorem load_outcome {content : Text} {j : Json ν} (hfile : cm.file = some content)
    (hparse : J.parse content = some j) :
    ((load J).outcome cm).2 =
      { cm with config := insertAll (enteredPairs J [] j.1.leaves) ∅ } := by
  obtain ⟨config, file⟩ := cm
  cases hfile
  have hflatten := onConfig_outcome ⟨∅, some content⟩ (flattenJson_enters (J := J) j [] ∅)
  rw [load, outcome_get_bind]
  dsimp only
  rw [hparse]
  dsimp only
  rw [outcome_bind_ok (outcome_modify _ _)]
  cases hresult : flattenResult J j.1.leaves with
  | ok u =>
      rw [hresult] at hflatten
      rw [outcome_tryCatch_ok hflatten]
  | error e =>
      rw [hresult] at hflatten
      rw [outcome_tryCatch_error hflatten]
      rfl

/-- A map in bounds stays in bounds exactly when the call stores nothing under an empty key. -/
theorem staysInBounds_step_iff (hcm : StaysInBounds J cm) (input : Input ν) :
    StaysInBounds J (step J cm input) ↔ input.Keyed J := by
  rw [staysInBounds_iff] at hcm ⊢
  have hdocument : ∀ j : Json ν,
      (insertAll (enteredPairs J [] j.1.leaves) ∅)[([] : Text)]? = none ↔ ¬ Unkeyed J j := by
    intro j
    rw [← getElem?_enteredPairs_ne_none, not_ne_iff]
  cases input with
  | set key value =>
      rw [step, Input.Keyed, set, assignText]
      cases htext : toString J value with
      | none => exact ⟨fun _ _ => rfl, fun _ => hcm⟩
      | some text =>
          show (cm.config.insert key text)[([] : Text)]? = none ↔ _
          rw [getElem?_insert]
          by_cases hkey : key = []
          · simp [hkey]
          · simp [hkey, hcm]
  | loadFromJson j =>
      rw [step, loadFromJson_outcome]
      exact hdocument j
  | load content =>
      cases content with
      | none =>
          have hclear : (step J cm (.load none)).config = ∅ := rfl
          rw [hclear]
          simp [Input.Keyed]
      | some content =>
          cases hparse : J.parse content with
          | none =>
              have hkept : (step J cm (.load (some content))).config = cm.config := by
                rw [step, load, outcome_get_bind]
                dsimp only
                rw [hparse]
                rfl
              rw [hkept]
              simp [Input.Keyed, hparse, hcm]
          | some j =>
              rw [step, load_outcome rfl hparse]
              simp [Input.Keyed, hparse, hdocument]

/-- Whatever is set and loaded, one call after the other, starting from an empty manager:
`unflattenMap` stays in bounds after every call exactly when none stores something under an empty
key. -/
theorem unflattenMap_bounds_iff (J : JsonText ν) (inputs : List (Input ν)) :
    Throughout (step J) (fun cm input => StaysInBounds J (step J cm input)) empty inputs ↔
      ∀ input ∈ inputs, input.Keyed J := by
  have hempty : StaysInBounds J empty := staysInBounds_iff.mpr (by simp [empty])
  rw [throughout_post_iff (C := fun _ input => input.Keyed J) hempty
    (fun _ input hcm => staysInBounds_step_iff hcm input)]
  clear hempty
  generalize empty = cm
  induction inputs generalizing cm with
  | nil => simp [Throughout]
  | cons input rest ih =>
      rw [List.forall_mem_cons]
      exact and_congr Iff.rfl (ih _)

/-- A file with a value that is no object: its text is stored under the empty key. -/
theorem scalar_document_undefined :
    (step PlainJson.jsonText empty (.load (some "true"))).config.toList =
      ([([], "true")] : List (Text × Text)) ∧
    unflattenIndexed PlainJson.jsonText [([], "true")] = .error .undefined ∧
    ¬ StaysInBounds PlainJson.jsonText (step PlainJson.jsonText empty (.load (some "true"))) := by
  have hconfig : (step PlainJson.jsonText empty (.load (some "true"))).config.toList =
      ([([], "true")] : List (Text × Text)) := by decide +kernel
  have hundefined : unflattenIndexed PlainJson.jsonText [([], "true")] = .error .undefined := by
    rw [unflattenIndexed, List.foldlM_cons]
    show assignFrom [] _ 0 _ >>= _ = _
    rw [assignFrom_nil]
    rfl
  refine ⟨hconfig, hundefined, fun hbounds => hbounds _ ?_ hundefined⟩
  rw [hconfig]

end ConfigManager

end Brazier
