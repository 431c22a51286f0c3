import Brazier.Config.DottedKeys

/-!
# What flattening enters and unflattening assigns

`flattenJson` enters one text for each leaf of a document, under its dotted path.
`unflattenMap` assigns the values of the entries at their paths, in the order of the enumeration,
and fails when a key is empty.
-/

namespace Brazier

open ProofLib

/-- Enter pairs one after the other. -/
def insertAll (pairs : List (Text × Text)) (map : TextMap) : TextMap :=
  pairs.foldl (fun map pair => map.insert pair.1 pair.2) map

/-- What is found after the entries is one of them, or was there before. -/
theorem of_getElem?_insertAll {pairs : List (Text × Text)} {map : TextMap} {key value : Text}
    (hfound : (insertAll pairs map)[key]? = some value) :
    (key, value) ∈ pairs ∨ map[key]? = some value := by
  induction pairs generalizing map with
  | nil => exact Or.inr hfound
  | cons pair rest ih =>
      rcases ih hfound with hrest | hmap
      · exact Or.inl (List.mem_cons_of_mem pair hrest)
      · rw [getElem?_insert] at hmap
        split at hmap
        · next heq =>
            cases hmap
            exact Or.inl (heq ▸ List.mem_cons_self)
        · exact Or.inr hmap

/-- A key that is entered is found. -/
theorem getElem?_insertAll_isSome {pairs : List (Text × Text)} (map : TextMap) {key : Text}
    (hkey : key ∈ pairs.map Prod.fst ∨ map[key]? ≠ none) : (insertAll pairs map)[key]? ≠ none := by
  induction pairs generalizing map with
  | nil =>
      rcases hkey with hnil | hmap
      · simp at hnil
      · exact hmap
  | cons pair rest ih =>
      apply ih
      rw [List.map_cons, List.mem_cons, or_assoc] at hkey
      rw [getElem?_insert]
      rcases hkey with rfl | hrest | hmap
      · exact Or.inr (by simp)
      · exact Or.inl hrest
      · right
        split
        · simp
        · exact hmap

/-- When the pairs of one key agree, every pair is found. -/
theorem getElem?_insertAll {pairs : List (Text × Text)} {key value : Text}
    (hpair : (key, value) ∈ pairs) (hagree : ∀ v, (key, v) ∈ pairs → v = value) :
    (insertAll pairs ∅)[key]? = some value := by
  have hsome := getElem?_insertAll_isSome ∅
    (Or.inl (List.mem_map_of_mem (f := Prod.fst) hpair))
  obtain ⟨v, hv⟩ := Option.ne_none_iff_exists'.mp hsome
  rcases of_getElem?_insertAll hv with hmem | hempty
  · rw [hv, hagree v hmem]
  · simp at hempty

namespace ConfigManager

variable {ν : Type} {J : JsonText ν}

/-! ## What `flattenJson` enters -/

/-- The pairs that the leaves below a prefix give. -/
def leafPairs (J : JsonText ν) (pre : Text) (leaves : List (List Text × Leaf ν)) :
    List (Text × Text) :=
  leaves.map (fun leaf => (joinKeys pre leaf.1, (leafText J leaf.2).getD []))

/-- The pairs of a document are its leaves. -/
theorem mem_leafPairs {j : Json ν} (htexts : ∀ leaf ∈ j.1.leaves, leafText J leaf.2 ≠ none)
    {key value : Text} : (key, value) ∈ leafPairs J [] j.1.leaves ↔
      ∃ path leaf, j.1.getAt path = some (.leaf leaf) ∧ key = joinKeys [] path ∧
        leafText J leaf = some value := by
  rw [leafPairs, List.mem_map]
  constructor
  · rintro ⟨⟨path, leaf⟩, hmem, heq⟩
    obtain ⟨text, htext⟩ := Option.ne_none_iff_exists'.mp (htexts _ hmem)
    rw [htext] at heq
    cases heq
    exact ⟨path, leaf, j.2.mem_leaves.mp hmem, rfl, htext⟩
  · rintro ⟨path, leaf, hleaf, rfl, htext⟩
    exact ⟨(path, leaf), j.2.mem_leaves.mpr hleaf, by rw [htext]; rfl⟩

/-- A leaf with a text is entered. -/
theorem writeLeaf_outcome {leaf : Leaf ν} {text : Text} (htext : leafText J leaf = some text)
    (pre : Text) (output : TextMap) :
    (writeLeaf J pre leaf).outcome output = (.ok (), output.insert pre text) := by
  rw [writeLeaf, htext]
  rfl

/-- The loop over members enters their leaves. -/
theorem flattenMembers_outcome (members : Forest Text (Leaf ν)) (pre : Text) (output : TextMap)
    (htexts : ∀ leaf ∈ members.leaves, leafText J leaf.2 ≠ none) :
    (flattenMembers J pre members).outcome output =
      (.ok (), insertAll (leafPairs J pre members.leaves) output) := by
  induction members generalizing pre output with
  | nil => rfl
  | leaf key leaf rest ih =>
      rw [Forest.leaves] at htexts ⊢
      obtain ⟨text, htext⟩ := Option.ne_none_iff_exists'.mp (htexts ([key], leaf) (by simp))
      have hrest := ih pre (output.insert (newPrefix pre key) text)
        (fun l hl => htexts l (List.mem_cons_of_mem _ hl))
      rw [flattenMembers, outcome_bind_ok (writeLeaf_outcome htext _ _), hrest]
      simp [leafPairs, insertAll, joinKeys, htext]
  | node key sub rest ihsub ih =>
      rw [Forest.leaves] at htexts ⊢
      have hsub := ihsub (newPrefix pre key) output
        (fun l hl => htexts (key :: l.1, l.2) (by simp [hl]))
      have hrest := ih pre (insertAll (leafPairs J (newPrefix pre key) sub.leaves) output)
        (fun l hl => htexts l (List.mem_append_right _ hl))
      rw [flattenMembers, outcome_bind_ok hsub, hrest]
      simp [leafPairs, insertAll, joinKeys, List.foldl_append, List.foldl_map]

/-- `flattenJson` enters the leaves of a document. -/
theorem flattenJson_outcome (j : Json ν) (pre : Text) (output : TextMap)
    (htexts : ∀ leaf ∈ j.1.leaves, leafText J leaf.2 ≠ none) :
    (flattenJson J pre j).outcome output =
      (.ok (), insertAll (leafPairs J pre j.1.leaves) output) := by
  obtain ⟨t, ht⟩ := j
  cases t with
  | leaf leaf =>
      obtain ⟨text, htext⟩ := Option.ne_none_iff_exists'.mp
        (htexts ([], leaf) (by simp [Tree.leaves]))
      rw [flattenJson, writeLeaf_outcome htext]
      simp [Tree.leaves, leafPairs, insertAll, joinKeys, htext]
  | node members => exact flattenMembers_outcome members pre output htexts

/-- An operation on `config_` leaves the rest of the manager. -/
theorem onConfig_outcome {x : Throwing TextMap ConfigError Unit} (cm : ConfigManager)
    {result : Except ConfigError Unit} {config : TextMap}
    (hx : x.outcome cm.config = (result, config)) :
    (onConfig x).outcome cm = (result, { cm with config }) := by
  show ((x.outcome cm.config).1, { cm with config := (x.outcome cm.config).2 }) = _
  rw [hx]

/-! ## What `unflattenMap` assigns -/

/-- The path and the value of an entry. -/
def pathEntry (J : JsonText ν) (entry : Text × Text) : Entry Text (Leaf ν) :=
  (getlines '.' entry.1, valueJson J entry.2)

/-- The body of the loop is an assignment, unless the key is empty. -/
theorem unflattenEntry_eq_ok {result result' : Json ν} {entry : Text × Text} :
    unflattenEntry J result entry = .ok result' ↔ entry.1 ≠ [] ∧
      result.assign Leaf.isNull (pathEntry J entry).1 (pathEntry J entry).2 = some result' := by
  have hnil : getlines '.' entry.1 = [] ↔ entry.1 = [] := by
    constructor
    · intro h
      by_contra hne
      exact getlines_ne_nil '.' hne h
    · intro h
      rw [h]
      rfl
  rw [unflattenEntry, pathEntry]
  cases hparts : getlines '.' entry.1 with
  | nil => simp [hnil.mp hparts]
  | cons part parts =>
      have hne : entry.1 ≠ [] := fun h => by
        rw [hnil.mpr h] at hparts
        cases hparts
      cases hassign : result.assign Leaf.isNull (part :: parts) (valueJson J entry.2) with
      | none => simp [hne, hassign]
      | some r => simp [hne, hassign]

/-- The loop makes the assignments of the entries, unless a key is empty. -/
theorem foldlM_unflattenEntry_eq_ok {order : List (Text × Text)} {result result' : Json ν} :
    order.foldlM (unflattenEntry J) result = .ok result' ↔ (∀ entry ∈ order, entry.1 ≠ []) ∧
      assignAll Leaf.isNull (order.map (pathEntry J)) result = some result' := by
  induction order generalizing result with
  | nil =>
      show Except.ok result = .ok result' ↔ _
      simp [assignAll]
  | cons entry rest ih =>
      rw [List.foldlM_cons, List.map_cons, assignAll, List.foldlM_cons]
      cases hentry : unflattenEntry J result entry with
      | error e =>
          have hno : ∀ r, unflattenEntry J result entry ≠ .ok r := fun r h => by
            rw [hentry] at h
            cases h
          constructor
          · intro h
            cases h
          · rintro ⟨hkeys, h⟩
            obtain ⟨r, hr, _⟩ := Option.bind_eq_some_iff.mp h
            exact absurd (unflattenEntry_eq_ok.mpr ⟨hkeys entry List.mem_cons_self, hr⟩) (hno r)
      | ok r =>
          obtain ⟨hne, hassign⟩ := unflattenEntry_eq_ok.mp hentry
          show rest.foldlM (unflattenEntry J) r = .ok result' ↔ _
          rw [ih, hassign]
          simp [assignAll, hne]

/-- `unflattenMap` makes the assignments of the entries, unless a key is empty. -/
theorem unflattenMap_eq_ok {order : List (Text × Text)} {j : Json ν} :
    unflattenMap J order = .ok j ↔ (∀ entry ∈ order, entry.1 ≠ []) ∧
      assignAll Leaf.isNull (order.map (pathEntry J)) Json.null = some j :=
  foldlM_unflattenEntry_eq_ok

end ConfigManager

end Brazier
