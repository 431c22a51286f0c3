import Brazier.Config.Flattening
import Brazier.ProofLib.PlainJson

/-!
# Replacing and removing a subtree

`setNested` of a `json`, `hasNestedPath` and `removeNested` each test whether a key is a path or
begins with the path and a dot. Flattening a document below a path enters such keys only, so
`setNested` replaces the subtree of the path and leaves every other key.
-/

namespace Brazier

open ProofLib

/-- One more pair. -/
theorem insertAll_concat (pairs : List (Text × Text)) (pair : Text × Text) (map : TextMap) :
    insertAll (pairs ++ [pair]) map = (insertAll pairs map).insert pair.1 pair.2 :=
  List.foldl_concat _ _ _ _

/-- What is found after pairs were entered is what they enter, or was there before. -/
theorem getElem?_insertAll_or (pairs : List (Text × Text)) (map : TextMap) (key : Text) :
    (insertAll pairs map)[key]? = ((insertAll pairs ∅)[key]?).or map[key]? := by
  induction pairs using List.reverseRecOn with
  | nil => simp [insertAll]
  | append_singleton pairs pair ih =>
      rw [insertAll_concat, insertAll_concat, getElem?_insert, getElem?_insert]
      split
      · rfl
      · exact ih

namespace ConfigManager

variable {ν : Type} {J : JsonText ν}

/-- The key begins with the path and a dot. -/
def Below (path key : Text) : Prop := path ++ ['.'] <+: key

instance (path key : Text) : Decidable (Below path key) :=
  inferInstanceAs (Decidable (_ <+: _))

/-- The key is the path, or below it. -/
def InSubtree (path key : Text) : Prop := key = path ∨ Below path key

instance (path key : Text) : Decidable (InSubtree path key) :=
  inferInstanceAs (Decidable (_ ∨ _))

/-- `hasNestedPath`. -/
def hasNestedPath (path : Text) (cm : ConfigManager) : Bool :=
  cm.config.contains path ||
    cm.config.keys.any (fun key => (path ++ ['.']).isPrefixOf key)

/-! ## The keys of a subtree -/

/-- What the loops of `setNested` and `removeNested` collect. -/
theorem mem_toRemove {path key : Text} {config : TextMap} :
    key ∈ toRemove path config ↔ config[key]? ≠ none ∧ InSubtree path key := by
  rw [toRemove, List.mem_filter, Std.ExtTreeMap.mem_keys, Std.ExtTreeMap.mem_iff_isSome_getElem?,
    Option.isSome_iff_ne_none]
  simp [InSubtree, Below]

/-- `hasNestedPath` looks for a key of the subtree. -/
theorem hasNestedPath_iff {path : Text} {cm : ConfigManager} :
    hasNestedPath path cm = true ↔ ∃ key : Text, cm.config[key]? ≠ none ∧ InSubtree path key := by
  rw [hasNestedPath, Bool.or_eq_true, List.any_eq_true]
  constructor
  · rintro (hpath | ⟨key, hkey, hbelow⟩)
    · refine ⟨path, ?_, Or.inl rfl⟩
      rwa [← Std.ExtTreeMap.mem_iff_contains, Std.ExtTreeMap.mem_iff_isSome_getElem?,
        Option.isSome_iff_ne_none] at hpath
    · refine ⟨key, ?_, Or.inr (List.isPrefixOf_iff_prefix.mp hbelow)⟩
      rwa [Std.ExtTreeMap.mem_keys, Std.ExtTreeMap.mem_iff_isSome_getElem?,
        Option.isSome_iff_ne_none] at hkey
  · rintro ⟨key, hkey, hin⟩
    rw [← Option.isSome_iff_ne_none, ← Std.ExtTreeMap.mem_iff_isSome_getElem?] at hkey
    rcases hin with rfl | hbelow
    · exact Or.inl (Std.ExtTreeMap.mem_iff_contains.mp hkey)
    · exact Or.inr ⟨key, Std.ExtTreeMap.mem_keys.mpr hkey, List.isPrefixOf_iff_prefix.mpr hbelow⟩

/-- Erasing keys one after the other. -/
theorem getElem?_eraseAll (keys : List Text) (config : TextMap) (key : Text) :
    (keys.foldl (fun config key => config.erase key) config)[key]? =
      if key ∈ keys then none else config[key]? := by
  induction keys generalizing config with
  | nil => simp
  | cons k keys ih =>
      rw [List.foldl_cons, ih, Std.ExtTreeMap.getElem?_erase]
      by_cases hkey : k = key
      · simp [hkey]
      · have hcmp : ¬ compare k key = .eq := by simpa using hkey
        rw [if_neg hcmp]
        simp [Ne.symm hkey]

/-- Erasing a subtree leaves the other keys. -/
theorem getElem?_eraseNested (path : Text) (config : TextMap) (key : Text) :
    (eraseNested path config)[key]? = if InSubtree path key then none else config[key]? := by
  rw [eraseNested, getElem?_eraseAll, if_congr mem_toRemove rfl rfl]
  by_cases hin : InSubtree path key
  · by_cases hkey : config[key]? = none
    · simp [hin, hkey]
    · simp [hin, hkey]
  · simp [hin]

/-! ## Flattening below a path -/

/-- The pairs that the leaves below a prefix give, up to the first one that has no text. -/
def enteredPairs (J : JsonText ν) (pre : Text) : List (List Text × Leaf ν) → List (Text × Text)
  | [] => []
  | leaf :: rest =>
      match leafText J leaf.2 with
      | some text => (joinKeys pre leaf.1, text) :: enteredPairs J pre rest
      | none => []

/-- What `flattenJson` does with these leaves: it throws at one that has no text. -/
def flattenResult (J : JsonText ν) : List (List Text × Leaf ν) → Except ConfigError Unit
  | [] => .ok ()
  | leaf :: rest =>
      match leafText J leaf.2 with
      | some _ => flattenResult J rest
      | none => .error .typeError

/-- Behind leaves that have all been entered come the others. -/
theorem enteredPairs_append (pre : Text) (first second : List (List Text × Leaf ν)) :
    enteredPairs J pre (first ++ second) = enteredPairs J pre first ++
        (match flattenResult J first with
        | .ok _ => enteredPairs J pre second
        | .error _ => []) ∧
      flattenResult J (first ++ second) =
        match flattenResult J first with
        | .ok _ => flattenResult J second
        | .error e => .error e := by
  induction first with
  | nil => exact ⟨rfl, rfl⟩
  | cons leaf rest ih =>
      rw [List.cons_append, enteredPairs, enteredPairs, flattenResult, flattenResult]
      cases leafText J leaf.2 with
      | none => exact ⟨rfl, rfl⟩
      | some text => exact ⟨by rw [ih.1]; rfl, ih.2⟩

/-- The leaves of a member are below the key of the member. -/
theorem enteredPairs_member (pre key : Text) (leaves : List (List Text × Leaf ν)) :
    enteredPairs J pre (leaves.map (fun leaf => (key :: leaf.1, leaf.2))) =
        enteredPairs J (newPrefix pre key) leaves ∧
      flattenResult J (leaves.map (fun leaf => (key :: leaf.1, leaf.2))) =
        flattenResult J leaves := by
  induction leaves with
  | nil => exact ⟨rfl, rfl⟩
  | cons leaf rest ih =>
      rw [List.map_cons, enteredPairs, enteredPairs, flattenResult, flattenResult]
      dsimp only
      cases leafText J leaf.2 with
      | none => exact ⟨rfl, rfl⟩
      | some text => exact ⟨by rw [ih.1]; rfl, ih.2⟩

/-- The loop over members enters their leaves, up to the first one that has no text. -/
theorem flattenMembers_enters (members : Forest Text (Leaf ν)) (pre : Text) (output : TextMap) :
    (flattenMembers J pre members).outcome output =
      (flattenResult J members.leaves, insertAll (enteredPairs J pre members.leaves) output) := by
  induction members generalizing pre output with
  | nil => rfl
  | leaf key leaf rest ih =>
      rw [Forest.leaves, flattenMembers, enteredPairs, flattenResult]
      dsimp only
      cases htext : leafText J leaf with
      | none =>
          have hthrow : (writeLeaf J (newPrefix pre key) leaf).outcome output =
              (.error .typeError, output) := by
            rw [writeLeaf, htext]
            rfl
          rw [outcome_bind_error hthrow]
          rfl
      | some text =>
          rw [outcome_bind_ok (writeLeaf_outcome htext _ _), ih]
          rfl
  | node key sub rest ihsub ih =>
      have hsub := ihsub (newPrefix pre key) output
      obtain ⟨hmember, hresult⟩ := enteredPairs_member (J := J) pre key sub.leaves
      obtain ⟨hpairs, hend⟩ := enteredPairs_append (J := J) pre
        (sub.leaves.map (fun leaf => (key :: leaf.1, leaf.2))) rest.leaves
      rw [Forest.leaves, flattenMembers, hpairs, hend, hmember, hresult]
      cases hres : flattenResult J sub.leaves with
      | error e =>
          rw [hres] at hsub
          rw [outcome_bind_error hsub, List.append_nil]
      | ok u =>
          rw [hres] at hsub
          rw [outcome_bind_ok hsub, ih]
          simp [insertAll, List.foldl_append]

/-- `flattenJson` enters the leaves of a document, up to the first one that has no text. -/
theorem flattenJson_enters (j : Json ν) (pre : Text) (output : TextMap) :
    (flattenJson J pre j).outcome output =
      (flattenResult J j.1.leaves, insertAll (enteredPairs J pre j.1.leaves) output) := by
  obtain ⟨t, ht⟩ := j
  cases t with
  | leaf leaf =>
      rw [flattenJson, Tree.leaves, enteredPairs, flattenResult]
      dsimp only
      cases htext : leafText J leaf with
      | none =>
          rw [writeLeaf, htext]
          rfl
      | some text =>
          rw [writeLeaf_outcome htext]
          rfl
  | node members => exact flattenMembers_enters members pre output

/-- The key of a path below a prefix that is not empty is in the subtree of the prefix. -/
theorem inSubtree_joinKeys {pre : Text} (hpre : pre ≠ []) (path : List Text) :
    InSubtree pre (joinKeys pre path) := by
  cases path with
  | nil => exact Or.inl rfl
  | cons key path =>
      right
      show pre ++ ['.'] <+: joinKeys (newPrefix pre key) path
      have hne : pre ++ '.' :: key ≠ [] := by simp
      rw [newPrefix_of_ne_nil hpre, joinKeys_eq_joinWith hne]
      have hfirst : pre ++ ['.'] <+: pre ++ '.' :: key := ⟨key, by simp⟩
      cases path with
      | nil => exact hfirst
      | cons next path =>
          refine hfirst.trans ?_
          rw [joinWith, List.append_assoc]
          · exact List.prefix_append _ _
          · simp

/-- Flattening enters keys of the subtree only. -/
theorem inSubtree_of_enteredPairs {pre : Text} (hpre : pre ≠ [])
    {leaves : List (List Text × Leaf ν)} {pair : Text × Text}
    (hpair : pair ∈ enteredPairs J pre leaves) : InSubtree pre pair.1 := by
  induction leaves with
  | nil => cases hpair
  | cons leaf rest ih =>
      rw [enteredPairs] at hpair
      split at hpair
      · rw [List.mem_cons] at hpair
        rcases hpair with rfl | hrest
        · exact inSubtree_joinKeys hpre leaf.1
        · exact ih hrest
      · cases hpair

/-- The entries that `flattenJson` produces below a path. -/
def flattened (J : JsonText ν) (path : Text) (j : Json ν) : TextMap :=
  ((flattenJson J path j).outcome ∅).2

theorem flattened_eq (path : Text) (j : Json ν) :
    flattened J path j = insertAll (enteredPairs J path j.1.leaves) ∅ := by
  rw [flattened, flattenJson_enters]

/-- They are in the subtree of the path. -/
theorem inSubtree_of_flattened {path : Text} (hpath : path ≠ []) {j : Json ν} {key : Text}
    (hkey : (flattened J path j)[key]? ≠ none) : InSubtree path key := by
  obtain ⟨value, hvalue⟩ := Option.ne_none_iff_exists'.mp hkey
  rw [flattened_eq] at hvalue
  rcases of_getElem?_insertAll hvalue with hmem | hempty
  · exact inSubtree_of_enteredPairs hpath hmem
  · simp at hempty

/-! ## The three operations -/

/-- The manager after `setNested` of a `json`, whether it returned or threw. -/
theorem setNested_json_outcome (cm : ConfigManager) (path : Text) (j : Json ν) :
    ((setNested J path (.json j)).outcome cm).2 =
      { cm with config :=
          insertAll (enteredPairs J path j.1.leaves) (eraseNested path cm.config) } := by
  have hflatten := onConfig_outcome { cm with config := eraseNested path cm.config }
    (flattenJson_enters (J := J) j path (eraseNested path cm.config))
  rw [setNested, outcome_bind_ok (outcome_modify _ _), hflatten]

/-- `setNested` of a `json` replaces the subtree. -/
theorem getElem?_setNested_json (cm : ConfigManager) {path : Text} (hpath : path ≠ [])
    (j : Json ν) (key : Text) :
    ((setNested J path (.json j)).outcome cm).2.config[key]? =
      if InSubtree path key then (flattened J path j)[key]? else cm.config[key]? := by
  rw [setNested_json_outcome]
  dsimp only
  rw [getElem?_insertAll_or, getElem?_eraseNested, flattened_eq]
  split
  · exact Option.or_none
  · next hout =>
      have hnone : (insertAll (enteredPairs J path j.1.leaves) ∅)[key]? = none := by
        by_contra hkey
        rw [← flattened_eq] at hkey
        exact hout (inSubtree_of_flattened hpath hkey)
      rw [hnone, Option.none_or]

/-- `removeNested` says whether there was a key of the subtree, and erases the subtree. -/
theorem removeNested_outcome (path : Text) (cm : ConfigManager) :
    (removeNested path).outcome cm =
      (.ok (hasNestedPath path cm), { cm with config := eraseNested path cm.config }) := by
  have hempty : (toRemove path cm.config).isEmpty = !hasNestedPath path cm := by
    rw [Bool.eq_iff_iff, List.isEmpty_iff, List.eq_nil_iff_forall_not_mem, Bool.not_eq_true',
      ← Bool.not_eq_true, hasNestedPath_iff, not_exists]
    exact forall_congr' fun key => not_congr mem_toRemove
  rw [removeNested, outcome_get_bind, hempty]
  cases hhas : hasNestedPath path cm with
  | true => rfl
  | false =>
      have hnil : toRemove path cm.config = [] := by
        rw [hhas] at hempty
        exact List.isEmpty_iff.mp hempty
      rw [eraseNested, hnil]
      rfl

/-- After `setNested` of a `json` at a path that is not empty the map has the entries that
`flattenJson` produces, all in the subtree of the path, and the old entries outside of it. Then
`hasNestedPath` says whether anything was produced, and `removeNested` says the same and leaves the
entries outside. -/
theorem setNested_replaces_subtree (J : JsonText ν) (cm : ConfigManager) (path : Text)
    (hpath : path ≠ []) (j : Json ν) :
    (∀ key, (flattened J path j)[key]? ≠ none → InSubtree path key) ∧
    (∀ key, ((setNested J path (.json j)).outcome cm).2.config[key]? =
      if InSubtree path key then (flattened J path j)[key]? else cm.config[key]?) ∧
    (hasNestedPath path ((setNested J path (.json j)).outcome cm).2 = true ↔
      ∃ key : Text, (flattened J path j)[key]? ≠ none) ∧
    ((removeNested path).outcome ((setNested J path (.json j)).outcome cm).2).1 =
      .ok (hasNestedPath path ((setNested J path (.json j)).outcome cm).2) ∧
    ∀ key, ((removeNested path).outcome ((setNested J path (.json j)).outcome cm).2).2.config[key]? =
      if InSubtree path key then none else cm.config[key]? := by
  refine ⟨fun key => inSubtree_of_flattened hpath, getElem?_setNested_json cm hpath j, ?_, ?_, ?_⟩
  · rw [hasNestedPath_iff]
    refine exists_congr fun key => ?_
    rw [getElem?_setNested_json cm hpath]
    constructor
    · rintro ⟨hkey, hin⟩
      rwa [if_pos hin] at hkey
    · intro hkey
      have hin := inSubtree_of_flattened hpath hkey
      exact ⟨by rwa [if_pos hin], hin⟩
  · rw [removeNested_outcome]
  · intro key
    rw [removeNested_outcome]
    dsimp only
    rw [getElem?_eraseNested, getElem?_setNested_json cm hpath]
    split <;> rfl

/-- A manager with a key that shares its beginning with the path `db`. -/
def siblingManager : ConfigManager :=
  ⟨insertAll [("db.host", "localhost"), ("dbx", "kept")] ∅, none⟩

theorem setNested_keeps_sibling :
    ((setNested PlainJson.jsonText ("db" : Text) (.json (Ordered.leaf (.other true)))).outcome
      siblingManager).2.config[("dbx" : Text)]? = some ("kept" : Text) := by
  have hreplaced := (setNested_replaces_subtree PlainJson.jsonText siblingManager "db" (by decide)
    (Ordered.leaf (.other true))).2.1 "dbx"
  have hkept : siblingManager.config[("dbx" : Text)]? = some ("kept" : Text) := by decide +kernel
  rw [hreplaced, if_neg (by decide), hkept]

end ConfigManager

end Brazier
