import Brazier.Database.Models.ModelObject
import Brazier.ProofLib.Runs

/-!
# Mass assignment

A model made by `create` without fields is changed by `fill`, by `setAttribute` and by what `save`
writes back. Its attributes are fields or the primary key, and those that are not fillable were
named one by one or come from the database.
-/

namespace Brazier

open ProofLib

namespace Model

/-- A call on a model. The reply of `save` is whatever the database answers. -/
inductive ModelCall where
  | fill (data : TextMap)
  | setAttribute (key value : Text)
  | save (reply : Except Text TextMap)

/-- A model with its history: the keys that `setAttribute` has been called with, and the primary key
that the database has returned last. -/
structure Assigned where
  attributes : TextMap
  named : List Text
  returned : Option Text

namespace Assigned

/-- A model that `create` has made of some data. -/
def created (cls : FillableClass) (data : TextMap) : Assigned := ⟨create cls data false, [], none⟩

/-- The primary key that a `save` writes back. -/
def keyOf (cls : FillableClass) (s : Assigned) (reply : Except Text TextMap) : Option Text :=
  if (savedValues cls.toModelClass s.attributes).isEmpty ∨
      isPresent s.attributes cls.primaryKey = true then none
  else
    match reply with
    | .error _ => none
    | .ok row => row[cls.primaryKey]?

/-- One call. -/
def step (cls : FillableClass) (s : Assigned) : ModelCall → Assigned
  | .fill data => { s with attributes := fill cls s.attributes data }
  | .setAttribute key value =>
      { s with
        attributes := setAttribute cls.toModelClass s.attributes key value
        named := key :: s.named }
  | .save reply =>
      { s with
        attributes := (saved cls.toModelClass s.attributes reply).2
        returned := (s.keyOf cls reply).or s.returned }

/-- Every attribute is a field or the primary key. One that is not fillable was named, or is the
primary key that the database has returned. -/
structure Guarded (cls : FillableClass) (s : Assigned) : Prop where
  known : ∀ key value : Text, s.attributes[key]? = some value →
    key ∈ cls.fields ∨ key = cls.primaryKey
  accounted : ∀ key value : Text, s.attributes[key]? = some value →
    key ∉ cls.fillable → key ∈ s.named ∨ key = cls.primaryKey ∧ s.returned = some value

variable {cls : FillableClass} {s : Assigned}

/-- An attribute that is a fillable field may be set to anything. -/
theorem Guarded.set (h : Guarded cls s) {key : Text} (hfillable : key ∈ cls.fillable)
    (value : Text) :
    Guarded cls { s with attributes := setAttribute cls.toModelClass s.attributes key value } := by
  constructor
  · intro k v hk
    dsimp only at hk
    rw [getElem?_setAttribute] at hk
    split at hk
    · next hset => exact Or.inl (hset.2 ▸ hset.1)
    · exact h.known k v hk
  · intro k v hk hnot
    dsimp only at hk
    rw [getElem?_setAttribute] at hk
    split at hk
    · next hset => exact absurd (hset.2 ▸ hfillable) hnot
    · exact h.accounted k v hk hnot

/-- `fill` sets fillable attributes. -/
theorem Guarded.fill (h : Guarded cls s) (data : TextMap) :
    Guarded cls { s with attributes := Model.fill cls s.attributes data } := by
  unfold Model.fill
  rw [Std.ExtTreeMap.foldl_eq_foldl_toList]
  generalize data.toList = entries
  induction entries generalizing s with
  | nil => exact h
  | cons entry entries ih =>
      have hentry : Guarded cls
          { s with attributes := fillField cls s.attributes entry.1 entry.2 } := by
        unfold fillField
        split
        · next hfillable => exact h.set (List.contains_iff_mem.mp hfillable) entry.2
        · exact h
      exact ih hentry

/-- Without fields `create` does what `fill` does. -/
theorem create_eq_fill (cls : FillableClass) (data : TextMap) :
    create cls data false = Model.fill cls ∅ data := by
  have hfield : createField cls false = fillField cls := by
    funext attributes key value
    unfold createField fillField setAttribute
    by_cases hfield : isField cls.toModelClass key = true
    · simp [hfield]
    · simp [hfield]
  rw [create, Model.fill, hfield]

/-- The attributes that `save` leaves. -/
theorem getElem?_saved (cls : FillableClass) (s : Assigned) (reply : Except Text TextMap)
    (k : Text) :
    (saved cls.toModelClass s.attributes reply).2[k]? =
      if cls.primaryKey = k ∧ s.keyOf cls reply ≠ none then s.keyOf cls reply
      else s.attributes[k]? := by
  unfold saved keyOf
  by_cases hempty : (savedValues cls.toModelClass s.attributes).isEmpty = true
  · simp [hempty]
  · by_cases hpresent : isPresent s.attributes cls.primaryKey = true
    · cases reply with
      | error e => simp [hempty, hpresent]
      | ok row => simp [hempty, hpresent]
    · cases reply with
      | error e => simp [hempty, hpresent]
      | ok row =>
          simp only [hempty, hpresent, Bool.false_eq_true, if_false, or_self]
          rw [getElem?_writeBack]
          by_cases hk : cls.primaryKey = k
          · subst hk
            rfl
          · rw [if_neg fun h => hk h.1, if_neg fun h => hk h.1]

/-- Every call keeps the attributes guarded. -/
theorem Guarded.step (h : Guarded cls s) (call : ModelCall) : Guarded cls (s.step cls call) := by
  cases call with
  | fill data => exact h.fill data
  | setAttribute key value =>
      constructor
      · intro k v hk
        dsimp only [Assigned.step] at hk
        rw [getElem?_setAttribute] at hk
        split at hk
        · next hset => exact Or.inl (hset.2 ▸ hset.1)
        · exact h.known k v hk
      · intro k v hk hnot
        dsimp only [Assigned.step] at hk ⊢
        rw [getElem?_setAttribute] at hk
        split at hk
        · next hset => exact Or.inl (hset.2 ▸ List.mem_cons_self)
        · rcases h.accounted k v hk hnot with hnamed | hreturned
          · exact Or.inl (List.mem_cons_of_mem key hnamed)
          · exact Or.inr hreturned
  | save reply =>
      constructor
      · intro k v hk
        dsimp only [Assigned.step] at hk
        rw [getElem?_saved] at hk
        split at hk
        · next hwritten => exact Or.inr hwritten.1.symm
        · exact h.known k v hk
      · intro k v hk hnot
        dsimp only [Assigned.step] at hk ⊢
        rw [getElem?_saved] at hk
        split at hk
        · next hwritten =>
            rw [hk]
            exact Or.inr ⟨hwritten.1.symm, rfl⟩
        · next hnotWritten =>
            rcases h.accounted k v hk hnot with hnamed | ⟨hkey, hreturned⟩
            · exact Or.inl hnamed
            · have hnone : s.keyOf cls reply = none := by
                by_contra hsome
                exact hnotWritten ⟨hkey.symm, hsome⟩
              rw [hnone]
              exact Or.inr ⟨hkey, hreturned⟩

/-- Whatever the maps and the answers of the database are, the attributes stay guarded. -/
theorem mass_assignment_guarded (cls : FillableClass) (data : TextMap) (calls : List ModelCall) :
    Guarded cls (runFrom (step cls) (created cls data) calls) := by
  refine runFrom_invariant (Guarded cls) ?_ fun call _ s h => h.step call
  have hempty : Guarded cls ⟨∅, [], none⟩ := by
    constructor
    · intro key value h
      simp at h
    · intro key value h
      simp at h
  unfold created
  rw [create_eq_fill]
  exact hempty.fill data

end Assigned

end Model

end Brazier
