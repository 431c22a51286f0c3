import Brazier.Config.HashOrder
import Mathlib.Data.Finset.Max

/-!
# Saving and reading back

`save` reads every stored text as JSON and prints the document, `reload` flattens what it reads.
A text that is the JSON text of a string loses its quotes, one of an object is spread over several
keys, and one of a number, a boolean or an array comes back as `dump` prints it; a dot at the
beginning or the end of a key is lost, and so is one of two keys when the other is below it. That is
all: whatever else is stored comes back.
-/

namespace Brazier

open ProofLib

/-- When everything of a kind in a list has something longer of the kind in the list, there is
nothing of the kind. -/
theorem forall_not_of_longer (items : List Text) (P : Text → Prop)
    (hlonger : ∀ x ∈ items, P x → ∃ y ∈ items, P y ∧ x.length < y.length) :
    ∀ x ∈ items, ¬ P x := by
  classical
  intro x hx hP
  obtain ⟨y, hy, hmax⟩ := Finset.exists_max_image (items.toFinset.filter P) List.length
    ⟨x, by simp [hx, hP]⟩
  rw [Finset.mem_filter, List.mem_toFinset] at hy
  obtain ⟨z, hz, hPz, hlt⟩ := hlonger y hy.1 hy.2
  have hle := hmax z (by simp [hz, hPz])
  omega

namespace ConfigManager

variable {ν : Type} {J : JsonText ν} {map : TextMap}

/-- The text is not JSON and well encoded, or it is what `dump` prints of a value that has no
members and is no string. -/
def Plain (J : JsonText ν) (value : Text) : Prop :=
  (J.parse value = none ∧ J.printable (.string value)) ∨
    ∃ leaf, (∀ text, leaf ≠ .string text) ∧ J.parse value = some (Ordered.leaf leaf) ∧
      J.dump none (Ordered.leaf leaf) = some value

/-- There is an entry, the keys are clean and well encoded, none is below another one, and the
values are plain. -/
structure Savable (J : JsonText ν) (map : TextMap) : Prop where
  nonempty : ∃ key : Text, map[key]? ≠ none
  clean : ∀ key : Text, map[key]? ≠ none → Clean key
  apart : ∀ key key' : Text, map[key]? ≠ none → map[key']? ≠ none →
    getlines '.' key <+: getlines '.' key' → key = key'
  encoded : ∀ key : Text, map[key]? ≠ none → ∀ part ∈ getlines '.' key, J.printable (.string part)
  plain : ∀ key value : Text, map[key]? = some value → Plain J value

/-- What a plain text stands for has no members, and is stored as that text. -/
theorem Plain.valueJson {value : Text} (h : Plain J value) :
    ∃ leaf, ConfigManager.valueJson J value = Ordered.leaf leaf ∧ J.printable leaf ∧
      leafText J leaf = some value := by
  rcases h with ⟨hparse, hprint⟩ | ⟨leaf, hleaf, hparse, hdump⟩
  · exact ⟨.string value, by rw [ConfigManager.valueJson, hparse]; rfl, hprint, rfl⟩
  · refine ⟨leaf, by rw [ConfigManager.valueJson, hparse], ?_, ?_⟩
    · have hsome := (J.dump_isSome none (Ordered.leaf leaf)).mp (by rw [hdump]; rfl)
      exact (hsome [] (.leaf leaf) (Tree.getAt_nil _)).2 leaf rfl
    · cases leaf with
      | null => exact hdump
      | string text => exact absurd rfl (hleaf text)
      | other value => exact hdump

/-- A leaf of a document that can be printed has a text. -/
theorem leafText_ne_none_of_dump {indent : Option Nat} {j : Json ν}
    (hdump : (J.dump indent j).isSome = true) : ∀ leaf ∈ j.1.leaves, leafText J leaf.2 ≠ none := by
  intro ⟨path, leaf⟩ hmem
  have hprint := ((J.dump_isSome indent j).mp hdump path _ (j.2.mem_leaves.mp hmem)).2 leaf rfl
  have hleaf : (J.dump none (Ordered.leaf leaf)).isSome = true := by
    refine (J.dump_isSome none (Ordered.leaf leaf)).mpr fun path t hget => ?_
    cases path with
    | nil =>
        refine ⟨by simp, fun leaf' hleaf' => ?_⟩
        subst hleaf'
        cases hget
        exact hprint
    | cons k path => cases hget
  cases leaf with
  | null => exact Option.isSome_iff_ne_none.mp hleaf
  | string text => simp [leafText]
  | other value => exact Option.isSome_iff_ne_none.mp hleaf

/-- `reload` of a document whose leaves have texts. -/
theorem reload_outcome {cm : ConfigManager} {content : Text} {j : Json ν}
    (hfile : cm.file = some content) (hparse : J.parse content = some j)
    (htexts : ∀ leaf ∈ j.1.leaves, leafText J leaf.2 ≠ none) :
    (reload J).outcome cm =
      (.ok (), { cm with config := insertAll (leafPairs J [] j.1.leaves) ∅ }) := by
  obtain ⟨config, file⟩ := cm
  cases hfile
  have hflatten := onConfig_outcome ⟨∅, some content⟩ (flattenJson_outcome j [] ∅ htexts)
  rw [reload, load, outcome_get_bind]
  dsimp only
  rw [hparse]
  dsimp only
  rw [outcome_bind_ok (outcome_modify _ _)]
  exact outcome_tryCatch_ok hflatten _

/-- Saving and reading back succeeds and gives back the map exactly when the entries give a
document that can be printed and whose leaves are the entries. -/
theorem save_reload_outcome (cm : ConfigManager) (order : List (Text × Text)) :
    (((save J order >>= fun _ => reload J).outcome cm).1 = .ok () ∧
        getRawData ((save J order >>= fun _ => reload J).outcome cm).2 = getRawData cm) ↔
      ∃ j, unflattenMap J order = .ok j ∧ (J.dump (some 4) j).isSome = true ∧
        insertAll (leafPairs J [] j.1.leaves) ∅ = getRawData cm := by
  cases hmap : unflattenMap J order with
  | error e =>
      have hsave : (save J order).outcome cm = (.error e, cm) := by
        rw [save, hmap]
        rfl
      rw [outcome_bind_error hsave]
      simp
  | ok j =>
      cases hdump : J.dump (some 4) j with
      | none =>
          have hsave : (save J order).outcome cm = (.error .typeError, cm) := by
            rw [save, hmap]
            dsimp only
            rw [hdump]
            rfl
          rw [outcome_bind_error hsave]
          constructor
          · intro ⟨h, _⟩
            cases h
          · intro ⟨j', hj', hsome, _⟩
            cases hj'
            rw [hdump] at hsome
            cases hsome
      | some content =>
          have hsave : (save J order).outcome cm = (.ok (), { cm with file := some content }) := by
            rw [save, hmap]
            dsimp only
            rw [hdump]
            rfl
          have hsome : (J.dump (some 4) j).isSome = true := by rw [hdump]; rfl
          rw [outcome_bind_ok hsave, reload_outcome rfl (J.parse_dump _ _ _ hdump)
            (leafText_ne_none_of_dump hsome)]
          constructor
          · intro ⟨_, h⟩
            exact ⟨j, rfl, hsome, h⟩
          · intro ⟨j', hj', _, h⟩
            cases hj'
            exact ⟨rfl, h⟩

/-! ## What is kept by saving and reading back -/

section Kept

variable {order : List (Text × Text)} {j : Json ν}

/-- What a map is when its entries give a document, the document can be printed, and its leaves
are the entries. -/
structure Kept (J : JsonText ν) (map : TextMap) (order : List (Text × Text)) (j : Json ν) :
    Prop where
  perm : order.Perm map.toList
  built : unflattenMap J order = .ok j
  printed : (J.dump (some 4) j).isSome = true
  same : insertAll (leafPairs J [] j.1.leaves) ∅ = map

namespace Kept

/-- Every entry of the map is a leaf of the document, and the leaf comes from an entry. -/
theorem origin (h : Kept J map order j) {key value : Text} (hget : map[key]? = some value) :
    ∃ (key' value' : Text) (rest : List Text) (leaf : Leaf ν), map[key']? = some value' ∧
      j.1.getAt (getlines '.' key' ++ rest) = some (.leaf leaf) ∧
      key = joinKeys [] (getlines '.' key' ++ rest) ∧ leafText J leaf = some value ∧
      (valueJson J value').1.getAt rest = some (.leaf leaf) := by
  obtain ⟨hkeys, hassign⟩ := unflattenMap_eq_ok.mp h.built
  have hfound := hget
  rw [← h.same] at hfound
  rcases of_getElem?_insertAll hfound with hmem | hempty
  · obtain ⟨path, leaf, hleaf, rfl, htext⟩ :=
      (mem_leafPairs (leafText_ne_none_of_dump h.printed)).mp hmem
    rcases leaf_of_assignAll hassign hleaf with ⟨e, he, rest, rfl, hrest⟩ | hstart
    · obtain ⟨⟨key', value'⟩, hmem', rfl⟩ := List.mem_map.mp he
      rw [h.perm.mem_iff, mem_toList_iff] at hmem'
      exact ⟨key', value', rest, leaf, hmem', hleaf, rfl, htext, hrest⟩
    · -- a document that is a leaf would be stored under the empty key
      cases path with
      | nil => exact absurd rfl (hkeys _ (h.perm.mem_iff.mpr (mem_toList_iff.mpr hget)))
      | cons k path => cases hstart
  · simp at hempty

/-- A JSON text of a string or of an object. -/
def HasMembers (J : JsonText ν) (value : Text) : Prop :=
  ∃ j, J.parse value = some j ∧ ∀ leaf, j = Ordered.leaf leaf → ∃ text, leaf = .string text

/-- A text that a leaf without quotes is stored as is not the text of a string or an object. -/
theorem not_hasMembers_of_dump {leaf : Leaf ν} {value : Text} (hleaf : ∀ text, leaf ≠ .string text)
    (htext : leafText J leaf = some value) :
    J.parse value = some (Ordered.leaf leaf) ∧ J.dump none (Ordered.leaf leaf) = some value := by
  have hdump : J.dump none (Ordered.leaf leaf) = some value := by
    cases leaf with
    | null => exact htext
    | string text => exact absurd rfl (hleaf text)
    | other v => exact htext
  exact ⟨J.parse_dump _ _ _ hdump, hdump⟩

/-- No value is the text of a string or of an object: a longer one would have to be there. -/
theorem not_hasMembers (h : Kept J map order j) {key value : Text}
    (hget : map[key]? = some value) : ¬ HasMembers J value := by
  refine forall_not_of_longer (order.map Prod.snd) (HasMembers J) ?_ value
    (List.mem_map_of_mem (f := Prod.snd) (h.perm.mem_iff.mpr (mem_toList_iff.mpr hget)))
  intro v hv ⟨j₁, hparse, hj₁⟩
  obtain ⟨⟨k, v⟩, hmem, rfl⟩ := List.mem_map.mp hv
  rw [h.perm.mem_iff, mem_toList_iff] at hmem
  obtain ⟨k', v', rest, leaf, hget', _, _, htext, hvalue⟩ := h.origin hmem
  replace hparse : J.parse v = some j₁ := hparse
  by_cases hstring : ∃ text, leaf = .string text
  · obtain ⟨text, rfl⟩ := hstring
    obtain rfl : text = v := Option.some.inj htext
    cases hparse' : J.parse v' with
    | none =>
        -- a text that is no JSON text stands for itself
        rw [valueJson, hparse'] at hvalue
        cases rest with
        | nil =>
            cases hvalue
            rw [hparse'] at hparse
            cases hparse
        | cons k rest => cases hvalue
    | some j' =>
        rw [valueJson, hparse'] at hvalue
        refine ⟨v', List.mem_map_of_mem (f := Prod.snd)
          (h.perm.mem_iff.mpr (mem_toList_iff.mpr hget')), ⟨j', hparse', ?_⟩,
          J.string_lt v' j' rest text hparse' hvalue⟩
        rintro leaf rfl
        cases rest with
        | nil =>
            cases hvalue
            exact ⟨text, rfl⟩
        | cons k rest => cases hvalue
  · have hnot : ∀ text, leaf ≠ .string text := fun text heq => hstring ⟨text, heq⟩
    rw [(not_hasMembers_of_dump hnot htext).1] at hparse
    exact absurd (hj₁ leaf (Option.some.inj hparse).symm) hstring

/-- The values stand for values without members. -/
theorem valueJson_leaf (h : Kept J map order j) {key value : Text}
    (hget : map[key]? = some value) : ∃ leaf, valueJson J value = Ordered.leaf leaf ∧
      ∀ text, leaf = .string text → J.parse value = none ∧ text = value := by
  cases hparse : J.parse value with
  | none => exact ⟨.string value, by rw [valueJson, hparse]; rfl, fun text h => by cases h; simp⟩
  | some j' =>
      have hnot := h.not_hasMembers hget
      obtain ⟨leaf, rfl, hleaf⟩ :
          ∃ leaf, j' = Ordered.leaf leaf ∧ ¬ ∃ text, leaf = .string text := by
        by_contra hno
        refine hnot ⟨j', hparse, fun leaf hj' => ?_⟩
        by_contra hstring
        exact hno ⟨leaf, hj', hstring⟩
      exact ⟨leaf, by rw [valueJson, hparse], fun text h => absurd ⟨text, h⟩ hleaf⟩

/-- Every entry is a leaf at the path of an entry. -/
theorem origin_leaf (h : Kept J map order j) {key value : Text} (hget : map[key]? = some value) :
    ∃ (key' value' : Text) (leaf : Leaf ν), map[key']? = some value' ∧
      j.1.getAt (getlines '.' key') = some (.leaf leaf) ∧
      key = joinKeys [] (getlines '.' key') ∧ leafText J leaf = some value ∧
      valueJson J value' = Ordered.leaf leaf := by
  obtain ⟨key', value', rest, leaf, hget', hleaf, hkey, htext, hvalue⟩ := h.origin hget
  obtain ⟨leaf', hleaf', _⟩ := h.valueJson_leaf hget'
  rw [hleaf'] at hvalue
  cases rest with
  | nil =>
      cases hvalue
      rw [List.append_nil] at hleaf hkey
      exact ⟨key', value', leaf, hget', hleaf, hkey, htext, hleaf'⟩
  | cons k rest => cases hvalue

/-- The keys are clean: the key that another one comes from would be longer. -/
theorem clean (h : Kept J map order j) {key value : Text} (hget : map[key]? = some value) :
    Clean key := by
  by_contra hunclean
  refine forall_not_of_longer (order.map Prod.fst) (fun k => ¬ Clean k) ?_ key
    (List.mem_map_of_mem (f := Prod.fst) (h.perm.mem_iff.mpr (mem_toList_iff.mpr hget))) hunclean
  intro k hk hdirty
  obtain ⟨⟨k, v⟩, hmem, rfl⟩ := List.mem_map.mp hk
  rw [h.perm.mem_iff, mem_toList_iff] at hmem
  obtain ⟨k', v', leaf, hget', _, hkey, _, _⟩ := h.origin_leaf hmem
  replace hkey : k = joinKeys [] (getlines '.' k') := hkey
  have hmem' : (k', v') ∈ order := h.perm.mem_iff.mpr (mem_toList_iff.mpr hget')
  have hdirty' : ¬ Clean k' := by
    intro hclean
    rw [hclean.joinKeys_getlines] at hkey
    exact hdirty (hkey ▸ hclean)
  refine ⟨k', List.mem_map_of_mem (f := Prod.fst) hmem', hdirty', ?_⟩
  show k.length < k'.length
  rw [hkey]
  exact length_joinKeys_getlines_lt ((unflattenMap_eq_ok.mp h.built).1 _ hmem') hdirty'

/-- At the path of an entry the document has the leaf that the value of the entry stands for. -/
theorem leaf_at (h : Kept J map order j) {key value : Text} (hget : map[key]? = some value) :
    ∃ leaf, j.1.getAt (getlines '.' key) = some (.leaf leaf) ∧ leafText J leaf = some value ∧
      valueJson J value = Ordered.leaf leaf := by
  obtain ⟨key', value', leaf, hget', hleaf, hkey, htext, hvalue⟩ := h.origin_leaf hget
  rw [(h.clean hget').joinKeys_getlines] at hkey
  subst hkey
  rw [hget] at hget'
  cases hget'
  exact ⟨leaf, hleaf, htext, hvalue⟩

/-- A map that is kept has an entry: an empty one is saved as `null`. -/
theorem nonempty (h : Kept J map order j) : ∃ key : Text, map[key]? ≠ none := by
  by_contra hnone
  rw [not_exists] at hnone
  have hnil : order = [] := by
    refine List.eq_nil_iff_forall_not_mem.mpr ?_
    intro ⟨key, value⟩ hmem
    rw [h.perm.mem_iff, mem_toList_iff] at hmem
    exact hnone key (by simp [hmem])
  obtain ⟨_, hassign⟩ := unflattenMap_eq_ok.mp h.built
  rw [hnil] at hassign
  obtain rfl : Json.null = j := Option.some.inj hassign
  refine hnone [] ?_
  rw [← h.same]
  exact getElem?_insertAll_isSome ∅
    (Or.inl (by simp [leafPairs, Json.null, Ordered.leaf, Tree.leaves, joinKeys]))

/-- A map that is kept is savable. -/
theorem savable (h : Kept J map order j) : Savable J map where
  nonempty := h.nonempty
  clean key hkey := by
    obtain ⟨value, hvalue⟩ := Option.ne_none_iff_exists'.mp hkey
    exact h.clean hvalue
  apart key key' hkey hkey' hbelow := by
    obtain ⟨value, hvalue⟩ := Option.ne_none_iff_exists'.mp hkey
    obtain ⟨value', hvalue'⟩ := Option.ne_none_iff_exists'.mp hkey'
    obtain ⟨leaf, hleaf, _, _⟩ := h.leaf_at hvalue
    obtain ⟨leaf', hleaf', _, _⟩ := h.leaf_at hvalue'
    obtain ⟨rest, hrest⟩ := hbelow
    have hnil : rest = [] := by
      by_contra hne
      rw [← hrest, Tree.getAt_through_leaf hleaf hne] at hleaf'
      cases hleaf'
    rw [hnil, List.append_nil] at hrest
    exact (h.clean hvalue).eq_of_getlines (h.clean hvalue') hrest
  encoded key hkey := by
    obtain ⟨value, hvalue⟩ := Option.ne_none_iff_exists'.mp hkey
    obtain ⟨leaf, hleaf, _, _⟩ := h.leaf_at hvalue
    exact ((J.dump_isSome _ j).mp h.printed _ _ hleaf).1
  plain key value hvalue := by
    obtain ⟨leaf, hleaf, htext, hstands⟩ := h.leaf_at hvalue
    by_cases hstring : ∃ text, leaf = .string text
    · obtain ⟨text, rfl⟩ := hstring
      obtain rfl : text = value := Option.some.inj htext
      obtain ⟨leaf', hleaf', hnone⟩ := h.valueJson_leaf hvalue
      rw [hstands] at hleaf'
      cases hleaf'
      exact Or.inl ⟨(hnone text rfl).1, ((J.dump_isSome _ j).mp h.printed _ _ hleaf).2 _ rfl⟩
    · have hnot : ∀ text, leaf ≠ .string text := fun text heq => hstring ⟨text, heq⟩
      obtain ⟨hparse, hdump⟩ := not_hasMembers_of_dump hnot htext
      exact Or.inr ⟨leaf, hnot, hparse, hdump⟩

end Kept

end Kept

/-! ## Savable maps are kept -/

namespace Savable

/-- A savable map is compatible. -/
theorem compatible (h : Savable J map) : Compatible J map where
  key_ne_nil key hkey := (h.clean key hkey).ne_nil
  below key value key' value' rest hget hget' hrest := by
    obtain rfl : key = key' :=
      h.apart key key' (by simp [hget]) (by simp [hget']) ⟨rest, hrest.symm⟩
    have hnil : rest = [] := by simpa using hrest
    rw [hget] at hget'
    cases hget'
    rw [hnil, Tree.getAt_nil]

/-- The leaves of the document are the entries. -/
theorem getAt_iff (h : Savable J map) {order : List (Text × Text)} (horder : order.Perm map.toList)
    {j : Json ν} (hmap : unflattenMap J order = .ok j)
    (hgrown : Grown Leaf.isNull (order.map (pathEntry J)) j) (path : List Text) (leaf : Leaf ν) :
    j.1.getAt path = some (.leaf leaf) ↔ ∃ key value, map[key]? = some value ∧
      path = getlines '.' key ∧ valueJson J value = Ordered.leaf leaf := by
  have hentry : ∀ {key value}, map[key]? = some value → j.1.getAt (getlines '.' key) =
      some (valueJson J value).1 := by
    intro key value hget
    exact hgrown.at_entry (pathEntry J (key, value))
      (List.mem_map_of_mem (horder.mem_iff.mpr (mem_toList_iff.mpr hget)))
  constructor
  · intro hleaf
    rcases leaf_of_assignAll (unflattenMap_eq_ok.mp hmap).2 hleaf with
      ⟨e, he, rest, rfl, hrest⟩ | hstart
    · obtain ⟨⟨key, value⟩, hmem, rfl⟩ := List.mem_map.mp he
      rw [horder.mem_iff, mem_toList_iff] at hmem
      obtain ⟨leaf', hvalue, _⟩ := (h.plain key value hmem).valueJson
      replace hrest : (valueJson J value).1.getAt rest = some (.leaf leaf) := hrest
      rw [hvalue] at hrest
      cases rest with
      | nil =>
          cases hrest
          exact ⟨key, value, hmem, List.append_nil _, hvalue⟩
      | cons k rest => cases hrest
    · -- the document is no leaf, since it has a leaf below a path
      obtain ⟨key, hkey⟩ := h.nonempty
      obtain ⟨value, hget⟩ := Option.ne_none_iff_exists'.mp hkey
      cases path with
      | nil =>
          have hthrough := Tree.getAt_through_leaf hleaf
            (getlines_ne_nil '.' (h.clean key hkey).ne_nil)
          rw [List.nil_append, hentry hget] at hthrough
          cases hthrough
      | cons k path => cases hstart
  · rintro ⟨key, value, hget, rfl, hvalue⟩
    rw [hentry hget, hvalue]
    rfl

/-- The document of a savable map can be printed. -/
theorem printed (h : Savable J map) {order : List (Text × Text)} (horder : order.Perm map.toList)
    {j : Json ν} (hmap : unflattenMap J order = .ok j)
    (hgrown : Grown Leaf.isNull (order.map (pathEntry J)) j) :
    (J.dump (some 4) j).isSome = true := by
  have hiff := h.getAt_iff horder hmap hgrown
  refine (J.dump_isSome _ j).mpr fun path t hget => ⟨?_, ?_⟩
  · by_cases hpath : path = []
    · simp [hpath]
    · obtain ⟨e, he, hrel⟩ := hgrown.covered path (by rw [Tree.view, hget]; simp) hpath
      obtain ⟨⟨key, value⟩, hmem, rfl⟩ := List.mem_map.mp he
      rw [horder.mem_iff, mem_toList_iff] at hmem
      have hencoded := h.encoded key (by simp [hmem])
      obtain ⟨leaf, hvalue, _⟩ := (h.plain key value hmem).valueJson
      have hleaf := (hiff (getlines '.' key) leaf).mpr ⟨key, value, hmem, rfl, hvalue⟩
      rcases hrel with ⟨rest, hrest⟩ | hway
      · have hnil : rest = [] := by
          by_contra hne
          rw [← hrest] at hget
          rw [pathEntry, Tree.getAt_through_leaf hleaf hne] at hget
          cases hget
        rw [hnil, List.append_nil] at hrest
        rw [← hrest]
        exact hencoded
      · exact fun part hpart => hencoded part (hway.subset hpart)
  · rintro leaf rfl
    obtain ⟨key, value, hkey, _, hvalue⟩ := (hiff path leaf).mp hget
    obtain ⟨leaf', hvalue', hprint, _⟩ := (h.plain key value hkey).valueJson
    rw [hvalue] at hvalue'
    cases hvalue'
    exact hprint

/-- The leaves of the document, written out, are the entries of the map. -/
theorem mem_leafPairs_iff (h : Savable J map) {order : List (Text × Text)}
    (horder : order.Perm map.toList) {j : Json ν} (hmap : unflattenMap J order = .ok j)
    (hgrown : Grown Leaf.isNull (order.map (pathEntry J)) j) (key value : Text) :
    (key, value) ∈ leafPairs J [] j.1.leaves ↔ map[key]? = some value := by
  have hiff := h.getAt_iff horder hmap hgrown
  rw [mem_leafPairs (leafText_ne_none_of_dump (h.printed horder hmap hgrown))]
  constructor
  · rintro ⟨path, leaf, hleaf, rfl, htext⟩
    obtain ⟨key, value', hget, rfl, hvalue⟩ := (hiff path leaf).mp hleaf
    obtain ⟨leaf', hvalue', _, htext'⟩ := (h.plain key value' hget).valueJson
    rw [hvalue] at hvalue'
    cases hvalue'
    rw [htext] at htext'
    cases htext'
    rw [(h.clean key (by simp [hget])).joinKeys_getlines]
    exact hget
  · intro hget
    obtain ⟨leaf, hvalue, _, htext⟩ := (h.plain key value hget).valueJson
    exact ⟨getlines '.' key, leaf, (hiff _ leaf).mpr ⟨key, value, hget, rfl, hvalue⟩,
      ((h.clean key (by simp [hget])).joinKeys_getlines).symm, htext⟩

/-- A savable map is kept. -/
theorem kept (h : Savable J map) {order : List (Text × Text)} (horder : order.Perm map.toList) :
    ∃ j, Kept J map order j := by
  obtain ⟨j, hmap, hgrown⟩ := h.compatible.unflattenMap_ok horder
  have hpairs := h.mem_leafPairs_iff horder hmap hgrown
  refine ⟨j, horder, hmap, h.printed horder hmap hgrown, ?_⟩
  refine Std.ExtTreeMap.ext_getElem? fun key => Option.ext fun value => ?_
  constructor
  · intro hfound
    rcases of_getElem?_insertAll hfound with hmem | hempty
    · exact (hpairs key value).mp hmem
    · simp at hempty
  · intro hget
    refine getElem?_insertAll ((hpairs key value).mpr hget) fun v hv => ?_
    have hv' := (hpairs key v).mp hv
    rw [hget] at hv'
    exact (Option.some.inj hv').symm

end Savable

/-- After any sequence of calls, and in whatever order the entries are enumerated, `save` followed
by `reload` returns and leaves the map exactly when the map is savable. -/
theorem save_reload_iff (J : JsonText ν) (calls : List (Call ν)) (order : List (Text × Text))
    (horder : order.Perm (getRawData (runFrom (call J) empty calls)).toList) :
    (((save J order >>= fun _ => reload J).outcome (runFrom (call J) empty calls)).1 = .ok () ∧
        getRawData ((save J order >>= fun _ => reload J).outcome
          (runFrom (call J) empty calls)).2 = getRawData (runFrom (call J) empty calls)) ↔
      Savable J (getRawData (runFrom (call J) empty calls)) := by
  rw [save_reload_outcome]
  constructor
  · intro ⟨j, hbuilt, hprinted, hsame⟩
    exact Kept.savable ⟨horder, hbuilt, hprinted, hsame⟩
  · intro h
    obtain ⟨j, hkept⟩ := h.kept horder
    exact ⟨j, hkept.built, hkept.printed, hkept.same⟩

/-- A string and a boolean under one prefix. -/
def databaseCalls : List (Call Bool) :=
  [.set "db.host" (.string "localhost"), .set "db.ssl" (.scalar true)]

/-- Their entries. -/
def databaseOrder : List (Text × Text) := [("db.ssl", "true"), ("db.host", "localhost")]

theorem databaseOrder_perm : databaseOrder.Perm
    (getRawData (runFrom (call PlainJson.jsonText) empty databaseCalls)).toList := by
  decide

theorem save_reload_iff_database :
    (((save PlainJson.jsonText databaseOrder >>= fun _ => reload PlainJson.jsonText).outcome
        (runFrom (call PlainJson.jsonText) empty databaseCalls)).1 = .ok () ∧
      getRawData ((save PlainJson.jsonText databaseOrder >>= fun _ =>
        reload PlainJson.jsonText).outcome
          (runFrom (call PlainJson.jsonText) empty databaseCalls)).2 =
        getRawData (runFrom (call PlainJson.jsonText) empty databaseCalls)) ↔
      Savable PlainJson.jsonText
        (getRawData (runFrom (call PlainJson.jsonText) empty databaseCalls)) :=
  save_reload_iff PlainJson.jsonText databaseCalls databaseOrder databaseOrder_perm

/-- A text in quotes is stored. -/
def quotedCalls : List (Call Bool) := [.set "motto" (.string "\"carpe diem\"")]

/-- Its entry. -/
def quotedOrder : List (Text × Text) := [("motto", "\"carpe diem\"")]

/-- The quotes are lost. -/
theorem quotes_lost :
    ¬ ∀ order : List (Text × Text),
      order.Perm (getRawData (runFrom (call PlainJson.jsonText) empty quotedCalls)).toList →
      ((save PlainJson.jsonText order >>= fun _ => reload PlainJson.jsonText).outcome
          (runFrom (call PlainJson.jsonText) empty quotedCalls)).1 = .ok () ∧
        getRawData ((save PlainJson.jsonText order >>= fun _ =>
          reload PlainJson.jsonText).outcome
            (runFrom (call PlainJson.jsonText) empty quotedCalls)).2 =
          getRawData (runFrom (call PlainJson.jsonText) empty quotedCalls) := by
  intro h
  have hperm : quotedOrder.Perm
      (getRawData (runFrom (call PlainJson.jsonText) empty quotedCalls)).toList := by
    decide
  have hbefore : (getRawData (runFrom (call PlainJson.jsonText) empty quotedCalls))[("motto" :
      Text)]? = some ("\"carpe diem\"" : Text) := by
    decide
  have hafter : (getRawData ((save PlainJson.jsonText quotedOrder >>= fun _ =>
      reload PlainJson.jsonText).outcome
        (runFrom (call PlainJson.jsonText) empty quotedCalls)).2)[("motto" : Text)]? =
      some ("carpe diem" : Text) := by
    decide +kernel
  rw [(h quotedOrder hperm).2, hbefore] at hafter
  cases hafter

end ConfigManager

end Brazier
