import Brazier.Config.Flattening
import Brazier.ProofLib.PlainJson
import Brazier.ProofLib.Runs

/-!
# The order of the hash table

`set` and the overloads of `setNested` that do not take a `json` leave the keys above and below
the one they set, so `config_` can hold a key and one below it. The document that `unflattenMap`
builds, or whether it throws, then depends on which of the two is enumerated first, unless the
upper one holds the text of an object that has the value of the lower one at its place.
-/

namespace Brazier

open ProofLib

namespace ConfigManager

variable {ν : Type} {J : JsonText ν} {map : TextMap}

/-- No key is empty, and a value at or below another key is part of the value of that key. -/
structure Compatible (J : JsonText ν) (map : TextMap) : Prop where
  key_ne_nil : ∀ key : Text, map[key]? ≠ none → key ≠ []
  below : ∀ (key value key' value' : Text) (rest : List Text),
    map[key]? = some value → map[key']? = some value' →
    getlines '.' key' = getlines '.' key ++ rest →
    (valueJson J value).1.getAt rest = some (valueJson J value').1

/-- The entries of a compatible map are consistent. -/
theorem Compatible.consistent (h : Compatible J map) {order : List (Text × Text)}
    (horder : order.Perm map.toList) : Consistent (order.map (pathEntry J)) := by
  intro e he e' he' rest hrest
  obtain ⟨⟨key, value⟩, hmem, rfl⟩ := List.mem_map.mp he
  obtain ⟨⟨key', value'⟩, hmem', rfl⟩ := List.mem_map.mp he'
  rw [horder.mem_iff, mem_toList_iff] at hmem hmem'
  exact h.below key value key' value' rest hmem hmem' hrest

/-- A compatible map gives a document in every order. -/
theorem Compatible.unflattenMap_ok (h : Compatible J map) {order : List (Text × Text)}
    (horder : order.Perm map.toList) :
    ∃ j, unflattenMap J order = .ok j ∧ Grown Leaf.isNull (order.map (pathEntry J)) j := by
  obtain ⟨j, hassign, hgrown⟩ := assignAll_consistent Leaf.isNull Leaf.null
    (h.consistent horder) rfl
  refine ⟨j, unflattenMap_eq_ok.mpr ⟨?_, hassign⟩, hgrown⟩
  intro ⟨key, value⟩ hmem
  rw [horder.mem_iff, mem_toList_iff] at hmem
  exact h.key_ne_nil key (by simp [hmem])

/-- Two orders give one document. -/
theorem Compatible.unflattenMap_eq (h : Compatible J map) {order order' : List (Text × Text)}
    (horder : order.Perm map.toList) (horder' : order'.Perm map.toList) :
    ∃ j, unflattenMap J order = .ok j ∧ unflattenMap J order' = .ok j := by
  obtain ⟨j, hj, hgrown⟩ := h.unflattenMap_ok horder
  obtain ⟨j', hj', hgrown'⟩ := h.unflattenMap_ok horder'
  have hperm : order.Perm order' := horder.trans horder'.symm
  by_cases hnil : order = []
  · subst hnil
    rw [hperm.nil_eq]
    rw [hperm.nil_eq] at hj
    exact ⟨j, hj, hj⟩
  · have heq : j = j' := by
      refine hgrown.unique (by simpa using hnil) (hgrown'.congr fun e => ?_)
      exact (hperm.map (pathEntry J)).mem_iff.symm
    exact ⟨j, hj, heq ▸ hj'⟩

/-- An order that ends with a given entry. -/
theorem exists_order_last {key value : Text} (hget : map[key]? = some value) :
    ∃ before, (before ++ [(key, value)]).Perm map.toList :=
  ⟨map.toList.erase (key, value), (List.perm_append_singleton _ _).trans
    (List.perm_cons_erase (mem_toList_iff.mpr hget)).symm⟩

/-- The entry that is enumerated last is in the document. -/
theorem getAt_of_last {before : List (Text × Text)} {key value : Text} {j : Json ν}
    (h : unflattenMap J (before ++ [(key, value)]) = .ok j) :
    j.1.getAt (getlines '.' key) = some (valueJson J value).1 := by
  obtain ⟨_, hassign⟩ := unflattenMap_eq_ok.mp h
  rw [List.map_append] at hassign
  exact getAt_assignAll_last hassign

/-- In whatever order the entries of a map that a sequence of calls has left are enumerated, they
give one and the same document, exactly when the map is compatible. -/
theorem unflattenMap_order_iff (J : JsonText ν) (calls : List (Call ν)) :
    (∀ order order', order.Perm (getRawData (runFrom (call J) empty calls)).toList →
      order'.Perm (getRawData (runFrom (call J) empty calls)).toList →
      ∃ j, unflattenMap J order = .ok j ∧ unflattenMap J order' = .ok j) ↔
    Compatible J (getRawData (runFrom (call J) empty calls)) := by
  generalize getRawData (runFrom (call J) empty calls) = map
  constructor
  · intro h
    constructor
    · intro key hkey hnil
      obtain ⟨value, hvalue⟩ := Option.ne_none_iff_exists'.mp hkey
      obtain ⟨j, hj, _⟩ := h map.toList map.toList (List.Perm.refl _) (List.Perm.refl _)
      exact (unflattenMap_eq_ok.mp hj).1 (key, value) (mem_toList_iff.mpr hvalue) hnil
    · intro key value key' value' rest hget hget' hbelow
      -- one order ends with the upper key, the other one with the lower key
      obtain ⟨before, hbefore⟩ := exists_order_last hget
      obtain ⟨before', hbefore'⟩ := exists_order_last hget'
      obtain ⟨j, hj, hj'⟩ := h _ _ hbefore hbefore'
      have hupper := getAt_of_last hj
      have hlower := getAt_of_last hj'
      rw [hbelow, Tree.getAt_append, hupper] at hlower
      exact hlower
  · intro h order order' horder horder'
    exact h.unflattenMap_eq horder horder'

/-- Two calls that leave a key and one below it. -/
def clashingCalls : List (Call Bool) :=
  [.set "a" (.string "x"), .set "a.b" (.string "y")]

/-- Their entries, the upper key first. -/
def clashingOrder : List (Text × Text) := [("a", "x"), ("a.b", "y")]

/-- The upper key first: its string is in the way of the lower key, and `unflattenMap` throws. -/
theorem clashing_orders :
    ¬ ∀ order order',
      order.Perm (getRawData (runFrom (call PlainJson.jsonText) empty clashingCalls)).toList →
      order'.Perm (getRawData (runFrom (call PlainJson.jsonText) empty clashingCalls)).toList →
      ∃ j, unflattenMap PlainJson.jsonText order = .ok j ∧
        unflattenMap PlainJson.jsonText order' = .ok j := by
  intro h
  have hentries : (getRawData (runFrom (call PlainJson.jsonText) empty clashingCalls)).toList =
      clashingOrder := by decide +kernel
  have hthrows : (unflattenMap PlainJson.jsonText clashingOrder).toBool = false := by
    decide +kernel
  obtain ⟨j, hj, _⟩ := h _ _ (List.Perm.refl _) (List.Perm.refl _)
  rw [hentries] at hj
  rw [hj] at hthrows
  cases hthrows

end ConfigManager

end Brazier
