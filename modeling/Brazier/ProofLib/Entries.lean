import Mathlib.Data.List.Induction
import Mathlib.Data.List.Lex

/-!
# Maps that are filled entry by entry

`ofEntries` fills an ordered map with a list of entries, and a later entry replaces an earlier one
of the same key. `toList_ofEntries_iff` says which lists come out of the map as they went in, and
`ofEntries_toList` that the entries of a map fill it again.
-/

namespace ProofLib

variable {κ ν ω : Type*} {cmp : κ → κ → Ordering} [Std.TransCmp cmp]

/-- The map that a list of entries fills. -/
def ofEntries (cmp : κ → κ → Ordering) [Std.TransCmp cmp] (entries : List (κ × ν)) :
    Std.ExtTreeMap κ ν cmp :=
  entries.foldl (fun map entry => map.insert entry.1 entry.2) ∅

/-- The keys of the entries ascend. -/
def Ascending (cmp : κ → κ → Ordering) (entries : List (κ × ν)) : Prop :=
  entries.Pairwise fun entry entry' => cmp entry.1 entry'.1 = .lt

/-- One more entry. -/
theorem ofEntries_concat (entries : List (κ × ν)) (entry : κ × ν) :
    ofEntries cmp (entries ++ [entry]) = (ofEntries cmp entries).insert entry.1 entry.2 :=
  List.foldl_concat _ _ _ _

/-- The entries of a map ascend. -/
theorem ascending_toList (map : Std.ExtTreeMap κ ν cmp) : Ascending cmp map.toList :=
  Std.ExtTreeMap.ordered_keys_toList

/-- Ascending entries have no key twice. -/
theorem Ascending.nodup {entries : List (κ × ν)} (h : Ascending cmp entries) : entries.Nodup := by
  refine h.imp fun {entry entry'} hlt heq => ?_
  have hself : cmp entry'.1 entry'.1 = .eq := Std.ReflCmp.compare_self
  rw [heq, hself] at hlt
  cases hlt

/-- Ascending lists with the same entries are equal. -/
theorem Ascending.eq_of_mem_iff {entries entries' : List (κ × ν)} (h : Ascending cmp entries)
    (h' : Ascending cmp entries') (hmem : ∀ entry, entry ∈ entries ↔ entry ∈ entries') :
    entries = entries' := by
  refine List.Perm.eq_of_pairwise (fun entry entry' _ _ hlt hgt => ?_) h h'
    ((List.perm_ext_iff_of_nodup h.nodup h'.nodup).mpr hmem)
  exact absurd hgt (Std.OrientedCmp.not_lt_of_lt hlt)

variable [Std.LawfulEqCmp cmp]

/-- In ascending entries every entry is the last of its key. -/
theorem getElem?_ofEntries {entries : List (κ × ν)} (h : Ascending cmp entries) (key : κ)
    (value : ν) : (ofEntries cmp entries)[key]? = some value ↔ (key, value) ∈ entries := by
  induction entries using List.reverseRecOn with
  | nil => simp [ofEntries]
  | append_singleton entries entry ih =>
      have hsplit := List.pairwise_append.mp h
      rw [ofEntries_concat, Std.ExtTreeMap.getElem?_insert, List.mem_append, List.mem_singleton,
        ← ih hsplit.1]
      by_cases hkey : cmp entry.1 key = .eq
      · rw [if_pos hkey]
        obtain rfl : entry.1 = key := Std.LawfulEqCmp.eq_of_compare hkey
        constructor
        · intro heq
          exact Or.inr (Prod.ext rfl (Option.some.inj heq).symm)
        · intro hor
          rcases hor with hmem | heq
          · have hlt := hsplit.2.2 _ ((ih hsplit.1).mp hmem) entry (List.mem_singleton.mpr rfl)
            rw [hkey] at hlt
            cases hlt
          · rw [← heq]
      · rw [if_neg hkey]
        refine ⟨Or.inl, fun hor => hor.resolve_right fun heq => hkey ?_⟩
        rw [← heq]
        exact Std.ReflCmp.compare_self

/-- A list comes out of the map as it went in exactly when its keys ascend. -/
theorem toList_ofEntries_iff (entries : List (κ × ν)) :
    (ofEntries cmp entries).toList = entries ↔ Ascending cmp entries := by
  constructor
  · intro h
    rw [← h]
    exact ascending_toList _
  · intro h
    refine (ascending_toList _).eq_of_mem_iff h fun entry => ?_
    rw [← getElem?_ofEntries h]
    exact Std.ExtTreeMap.mem_toList_iff_getElem?_eq_some

/-- The entries of a map fill it again. -/
theorem ofEntries_toList (map : Std.ExtTreeMap κ ν cmp) : ofEntries cmp map.toList = map := by
  refine Std.ExtTreeMap.ext_getElem? fun key => Option.ext fun value => ?_
  rw [getElem?_ofEntries (ascending_toList map)]
  exact Std.ExtTreeMap.mem_toList_iff_getElem?_eq_some

/-- What holds of the entries of a list holds of those in the map. -/
theorem forall_getElem?_ofEntries {p : κ → ν → Prop} {entries : List (κ × ν)}
    (h : ∀ entry ∈ entries, p entry.1 entry.2) {key : κ} {value : ν}
    (hvalue : (ofEntries cmp entries)[key]? = some value) : p key value := by
  induction entries using List.reverseRecOn with
  | nil => simp [ofEntries] at hvalue
  | append_singleton entries entry ih =>
      rw [ofEntries_concat, Std.ExtTreeMap.getElem?_insert] at hvalue
      split at hvalue
      · next hkey =>
          obtain rfl : entry.1 = key := Std.LawfulEqCmp.eq_of_compare hkey
          rw [← Option.some.inj hvalue]
          exact h entry (List.mem_append_right entries (List.mem_singleton.mpr rfl))
      · exact ih (fun e he => h e (List.mem_append_left [entry] he)) hvalue

/-- A map that is filled with a value for each key. -/
theorem getElem?_ofEntries_map [BEq κ] [LawfulBEq κ] (value : κ → ν) (keys : List κ) (key : κ) :
    (ofEntries cmp (keys.map fun key => (key, value key)))[key]? =
      if key ∈ keys then some (value key) else none := by
  induction keys using List.reverseRecOn with
  | nil => simp [ofEntries]
  | append_singleton keys last ih =>
      rw [List.map_append, List.map_singleton, ofEntries_concat, Std.ExtTreeMap.getElem?_insert, ih]
      by_cases hlast : last = key
      · subst hlast
        rw [if_pos Std.ReflCmp.compare_self, if_pos (by simp)]
      · rw [if_neg fun heq => hlast (Std.LawfulEqCmp.eq_of_compare heq)]
        simp [Ne.symm hlast]

/-- Values that are changed before or after the map is filled. -/
theorem ofEntries_map (f : ν → ω) (entries : List (κ × ν)) :
    ofEntries cmp (entries.map fun entry => (entry.1, f entry.2)) =
      (ofEntries cmp entries).map fun _ value => f value := by
  induction entries using List.reverseRecOn with
  | nil => simp [ofEntries]
  | append_singleton entries entry ih =>
      rw [List.map_append, List.map_singleton, ofEntries_concat, ofEntries_concat, ih]
      refine Std.ExtTreeMap.ext_getElem? fun key => ?_
      simp only [Std.ExtTreeMap.getElem?_insert, Std.ExtTreeMap.getElem?_map]
      split <;> rfl

end ProofLib
