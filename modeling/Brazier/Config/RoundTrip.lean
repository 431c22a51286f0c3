import Brazier.Config.Flattening
import Brazier.ProofLib.PlainJson

/-!
# Documents that come back

A document whose keys are not empty and have no dot, whose objects are not empty, and whose strings
are not JSON texts, is built again from its flattened map, in whatever order the map is enumerated:
its leaves are consistent entries, and it is the tree that grows from them.
-/

namespace Brazier

open ProofLib

namespace ConfigManager

variable {ν : Type} {J : JsonText ν}

/-- A non-empty object whose keys are not empty and have no dot, whose nested objects are not
empty, whose strings are not JSON texts, and whose other leaves are read back as they are
printed. -/
structure Flattenable (J : JsonText ν) (j : Json ν) : Prop where
  object : ∃ members, j.1 = .node members
  nonempty : ∀ path members, j.1.getAt path = some (.node members) → members ≠ .nil
  keys : ∀ path t, j.1.getAt path = some t → ∀ key ∈ path, key ≠ [] ∧ '.' ∉ key
  strings : ∀ path text, j.1.getAt path = some (.leaf (.string text)) → J.parse text = none
  others : ∀ path leaf, j.1.getAt path = some (.leaf leaf) → (∀ text, leaf ≠ .string text) →
    (J.dump none (Ordered.leaf leaf)).bind J.parse = some (Ordered.leaf leaf)

namespace Flattenable

variable {j : Json ν}

/-- Every leaf has a text, and the text stands for the leaf. -/
theorem leafText (h : Flattenable J j) {path : List Text} {leaf : Leaf ν}
    (hleaf : j.1.getAt path = some (.leaf leaf)) :
    ∃ text, ConfigManager.leafText J leaf = some text ∧ valueJson J text = Ordered.leaf leaf := by
  cases leaf with
  | string text => exact ⟨text, rfl, by rw [valueJson, h.strings path text hleaf]; rfl⟩
  | null =>
      obtain ⟨text, htext, hparse⟩ := Option.bind_eq_some_iff.mp
        (h.others path .null hleaf (by simp))
      exact ⟨text, htext, by rw [valueJson, hparse]⟩
  | other value =>
      obtain ⟨text, htext, hparse⟩ := Option.bind_eq_some_iff.mp
        (h.others path (.other value) hleaf (by simp))
      exact ⟨text, htext, by rw [valueJson, hparse]⟩

/-- The path of a leaf has keys. -/
theorem path_ne_nil (h : Flattenable J j) {path : List Text} {leaf : Leaf ν}
    (hleaf : j.1.getAt path = some (.leaf leaf)) : path ≠ [] := by
  rintro rfl
  obtain ⟨members, hmembers⟩ := h.object
  rw [hmembers] at hleaf
  cases hleaf

/-- The path of a leaf is cut from its dotted key. -/
theorem getlines_joinKeys (h : Flattenable J j) {path : List Text} {leaf : Leaf ν}
    (hleaf : j.1.getAt path = some (.leaf leaf)) : getlines '.' (joinKeys [] path) = path :=
  ConfigManager.getlines_joinKeys (h.path_ne_nil hleaf) (h.keys path _ hleaf)

/-- Below every place there is a leaf. -/
theorem exists_leaf (h : Flattenable J j) {path : List Text} {t : Tree Text (Leaf ν)}
    (ht : j.1.getAt path = some t) : ∃ rest leaf, j.1.getAt (path ++ rest) = some (.leaf leaf) := by
  have hbelow : ∃ rest leaf, t.getAt rest = some (.leaf leaf) := by
    apply Tree.exists_leaf
    intro rest members hrest
    apply h.nonempty (path ++ rest)
    rw [Tree.getAt_append, ht]
    exact hrest
  obtain ⟨rest, leaf, hleaf⟩ := hbelow
  refine ⟨rest, leaf, ?_⟩
  rw [Tree.getAt_append, ht]
  exact hleaf

/-- All leaves have texts. -/
theorem leafText_ne_none (h : Flattenable J j) :
    ∀ leaf ∈ j.1.leaves, ConfigManager.leafText J leaf.2 ≠ none := by
  intro ⟨path, leaf⟩ hmem
  obtain ⟨text, htext, _⟩ := h.leafText (j.2.mem_leaves.mp hmem)
  simp [htext]

/-- The entries of the map are the leaves. -/
theorem getElem?_flattened (h : Flattenable J j) {key value : Text} :
    (insertAll (leafPairs J [] j.1.leaves) ∅)[key]? = some value ↔
      ∃ path leaf, j.1.getAt path = some (.leaf leaf) ∧ key = joinKeys [] path ∧
        ConfigManager.leafText J leaf = some value := by
  rw [← mem_leafPairs h.leafText_ne_none]
  constructor
  · intro hfound
    rcases of_getElem?_insertAll hfound with hmem | hempty
    · exact hmem
    · simp at hempty
  · intro hmem
    refine getElem?_insertAll hmem fun v hv => ?_
    -- the path is cut from the key, so one key has one leaf
    obtain ⟨path, leaf, hget, hkey, htext⟩ := (mem_leafPairs h.leafText_ne_none).mp hmem
    obtain ⟨path', leaf', hget', hkey', htext'⟩ := (mem_leafPairs h.leafText_ne_none).mp hv
    have hpath : path = path' := by
      rw [← h.getlines_joinKeys hget, ← h.getlines_joinKeys hget', ← hkey, ← hkey']
    subst hpath
    rw [hget] at hget'
    cases hget'
    rw [htext] at htext'
    exact (Option.some.inj htext').symm

/-- The assignments of the entries are the leaves at their paths. -/
theorem mem_pathEntries (h : Flattenable J j) {order : List (Text × Text)}
    (horder : order.Perm (insertAll (leafPairs J [] j.1.leaves) ∅).toList)
    {e : Entry Text (Leaf ν)} : e ∈ order.map (pathEntry J) ↔
      ∃ leaf, e.2 = Ordered.leaf leaf ∧ j.1.getAt e.1 = some (.leaf leaf) := by
  rw [List.mem_map]
  constructor
  · rintro ⟨⟨key, value⟩, hmem, rfl⟩
    rw [horder.mem_iff, mem_toList_iff, h.getElem?_flattened] at hmem
    obtain ⟨path, leaf, hleaf, rfl, htext⟩ := hmem
    obtain ⟨text, htext', hvalue⟩ := h.leafText hleaf
    obtain rfl : text = value := Option.some.inj (htext'.symm.trans htext)
    refine ⟨leaf, hvalue, ?_⟩
    show j.1.getAt (getlines '.' (joinKeys [] path)) = _
    rw [h.getlines_joinKeys hleaf]
    exact hleaf
  · obtain ⟨path, v⟩ := e
    rintro ⟨leaf, rfl, hleaf⟩
    obtain ⟨text, htext, hvalue⟩ := h.leafText hleaf
    refine ⟨(joinKeys [] path, text), ?_, ?_⟩
    · rw [horder.mem_iff, mem_toList_iff, h.getElem?_flattened]
      exact ⟨path, leaf, hleaf, rfl, htext⟩
    · rw [pathEntry, h.getlines_joinKeys hleaf, hvalue]

/-- The document has grown from its leaves. -/
theorem grown (h : Flattenable J j) {entries : List (Entry Text (Leaf ν))}
    (hentries : ∀ e, e ∈ entries ↔
      ∃ leaf, e.2 = Ordered.leaf leaf ∧ j.1.getAt e.1 = some (.leaf leaf)) :
    entries ≠ [] ∧ Grown Leaf.isNull entries j := by
  have hne : entries ≠ [] := by
    obtain ⟨path, leaf, hleaf⟩ := h.exists_leaf (Tree.getAt_nil j.1)
    exact List.ne_nil_of_mem ((hentries (path, Ordered.leaf leaf)).mpr ⟨leaf, rfl, hleaf⟩)
  refine ⟨hne, ?_, ?_, fun hnil => absurd hnil hne⟩
  · intro ⟨path, v⟩ he
    obtain ⟨leaf, rfl, hleaf⟩ := (hentries _).mp he
    exact hleaf
  · intro path hview _
    have hsome : j.1.getAt path ≠ none := fun hnone => hview (by rw [Tree.view, hnone]; rfl)
    obtain ⟨t, ht⟩ := Option.ne_none_iff_exists'.mp hsome
    obtain ⟨rest, leaf, hleaf⟩ := h.exists_leaf ht
    exact ⟨(path ++ rest, Ordered.leaf leaf), (hentries _).mpr ⟨leaf, rfl, hleaf⟩,
      Or.inr (List.prefix_append path rest)⟩

/-- Leaves of one document are consistent entries. -/
theorem consistent {entries : List (Entry Text (Leaf ν))}
    (hentries : ∀ e, e ∈ entries ↔
      ∃ leaf, e.2 = Ordered.leaf leaf ∧ j.1.getAt e.1 = some (.leaf leaf)) :
    Consistent entries := by
  intro ⟨path, v⟩ he ⟨path', v'⟩ he' rest hpath
  obtain ⟨leaf, rfl, hleaf⟩ := (hentries _).mp he
  obtain ⟨leaf', rfl, hleaf'⟩ := (hentries _).mp he'
  replace hpath : path' = path ++ rest := hpath
  subst hpath
  by_cases hrest : rest = []
  · subst hrest
    rw [List.append_nil, hleaf] at hleaf'
    exact hleaf'
  · rw [Tree.getAt_through_leaf hleaf hrest] at hleaf'
    cases hleaf'

/-- `unflattenMap` builds the document again, whatever the order of the entries. -/
theorem unflattenMap_eq (h : Flattenable J j) {order : List (Text × Text)}
    (horder : order.Perm (insertAll (leafPairs J [] j.1.leaves) ∅).toList) :
    unflattenMap J order = .ok j := by
  have hentries := fun e => h.mem_pathEntries horder (e := e)
  obtain ⟨u, hassign, hgrown⟩ := assignAll_consistent Leaf.isNull Leaf.null
    (consistent hentries) rfl
  obtain ⟨hne, hgrown'⟩ := h.grown hentries
  rw [hgrown.unique hne hgrown'] at hassign
  refine unflattenMap_eq_ok.mpr ⟨?_, hassign⟩
  rintro ⟨key, value⟩ hmem rfl
  rw [horder.mem_iff, mem_toList_iff, h.getElem?_flattened] at hmem
  obtain ⟨path, leaf, hleaf, hkey, _⟩ := hmem
  have hcut := h.getlines_joinKeys hleaf
  rw [← hkey] at hcut
  exact h.path_ne_nil hleaf hcut.symm

end Flattenable

/-- A document of this kind survives flattening: `flattenJson` returns, `unflattenMap` gives the
document for every order of the entries, and so does `getAllAsJson` after `loadFromJson`. -/
theorem flatten_unflatten (J : JsonText ν) (j : Json ν) (h : Flattenable J j) :
    ∃ map, (flattenJson J [] j).outcome ∅ = (.ok (), map) ∧
      (∀ order, order.Perm map.toList → unflattenMap J order = .ok j) ∧
      ∀ cm, (loadFromJson J j).outcome cm = (.ok (), { cm with config := map }) ∧
        ∀ order, order.Perm map.toList → getAllAsJson J order = .ok j := by
  have hflatten := flattenJson_outcome j [] ∅ h.leafText_ne_none
  refine ⟨_, hflatten, fun order horder => h.unflattenMap_eq horder, fun cm => ⟨?_, ?_⟩⟩
  · exact onConfig_outcome { cm with config := ∅ } hflatten
  · exact fun order horder => h.unflattenMap_eq horder

/-- The members of a nested object. -/
def databaseMembers : Forest Text (Leaf Bool) :=
  .leaf "host" (.string "localhost") (.leaf "ssl" (.other true) .nil)

/-- A document with a nested object. -/
def databaseTree : Tree Text (Leaf Bool) := .node (.node "db" databaseMembers .nil)

theorem databaseTree_sorted : databaseTree.Sorted := by
  simp [databaseTree, databaseMembers, Forest.Sorted, Forest.keys]
  decide

/-- The places of the document. -/
theorem databaseTree_getAt {path : List Text} {t : Tree Text (Leaf Bool)}
    (hget : databaseTree.getAt path = some t) :
    path = [] ∧ t = databaseTree ∨ path = [("db" : Text)] ∧ t = .node databaseMembers ∨
      path = [("db" : Text), ("host" : Text)] ∧ t = .leaf (.string "localhost") ∨
      path = [("db" : Text), ("ssl" : Text)] ∧ t = .leaf (.other true) := by
  cases path with
  | nil => exact Or.inl ⟨rfl, (Option.some.inj hget).symm⟩
  | cons k path =>
      rw [databaseTree, Tree.getAt_node_cons, Forest.get] at hget
      split at hget
      · next hk =>
          subst hk
          cases path with
          | nil => exact Or.inr (Or.inl ⟨rfl, (Option.some.inj hget).symm⟩)
          | cons k' path =>
              rw [Option.bind_some, databaseMembers, Tree.getAt_node_cons, Forest.get, Forest.get]
                at hget
              split at hget
              · next hk' =>
                  subst hk'
                  cases path with
                  | nil => exact Or.inr (Or.inr (Or.inl ⟨rfl, (Option.some.inj hget).symm⟩))
                  | cons k'' path => cases hget
              · split at hget
                · next hk' =>
                    subst hk'
                    cases path with
                    | nil => exact Or.inr (Or.inr (Or.inr ⟨rfl, (Option.some.inj hget).symm⟩))
                    | cons k'' path => cases hget
                · cases hget
      · cases hget

theorem databaseTree_flattenable :
    Flattenable PlainJson.jsonText ⟨databaseTree, databaseTree_sorted⟩ where
  object := ⟨_, rfl⟩
  nonempty path members hget := by
    rcases databaseTree_getAt hget with ⟨_, h⟩ | ⟨_, h⟩ | ⟨_, h⟩ | ⟨_, h⟩ <;> cases h <;>
      simp [databaseMembers]
  keys path t hget := by
    rcases databaseTree_getAt hget with ⟨rfl, _⟩ | ⟨rfl, _⟩ | ⟨rfl, _⟩ | ⟨rfl, _⟩ <;> simp
  strings path text hget := by
    rcases databaseTree_getAt hget with ⟨_, h⟩ | ⟨_, h⟩ | ⟨_, h⟩ | ⟨_, h⟩ <;> cases h
    decide +kernel
  others path leaf hget hleaf := by
    rcases databaseTree_getAt hget with ⟨_, h⟩ | ⟨_, h⟩ | ⟨_, h⟩ | ⟨_, h⟩ <;> cases h
    · exact absurd rfl (hleaf "localhost")
    · decide +kernel

theorem flatten_unflatten_database :
    ∃ map, (flattenJson PlainJson.jsonText [] ⟨databaseTree, databaseTree_sorted⟩).outcome ∅ =
        (.ok (), map) ∧
      (∀ order, order.Perm map.toList →
        unflattenMap PlainJson.jsonText order = .ok ⟨databaseTree, databaseTree_sorted⟩) ∧
      ∀ cm, (loadFromJson PlainJson.jsonText ⟨databaseTree, databaseTree_sorted⟩).outcome cm =
          (.ok (), { cm with config := map }) ∧
        ∀ order, order.Perm map.toList →
          getAllAsJson PlainJson.jsonText order = .ok ⟨databaseTree, databaseTree_sorted⟩ :=
  flatten_unflatten PlainJson.jsonText ⟨databaseTree, databaseTree_sorted⟩ databaseTree_flattenable

end ConfigManager

end Brazier
