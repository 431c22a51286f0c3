import Brazier.Database.Models.Rows
import Brazier.ProofLib.Runs

/-!
# A model is inserted at most once

A model that is made without a primary key is changed and saved, and the database accepts or
refuses each statement. The first accepted `INSERT` writes the key of its row back, from then on
`save` sends an `UPDATE` of that row.
-/

namespace Brazier

open ProofLib

namespace Model

/-- An object and the table of its class. The keys are those of the rows that were inserted for the
object. -/
structure Stored where
  attributes : TextMap
  rows : Rows
  inserted : List Nat

/-- A call on the object: of `setAttribute` with another key than the primary key, or of `save`, for
which the database accepts its statement, with the key for a new row, or refuses it. -/
inductive StoredCall (cls : ModelClass) where
  | setAttribute (key : { key : Text // key ≠ cls.primaryKey }) (value : Text)
  | save (answer : Option Nat)

namespace Stored

/-- An object without a primary key. -/
def withoutKey (cls : ModelClass) (attributes : TextMap) (rows : Rows) : Stored :=
  ⟨attributes.erase cls.primaryKey, rows, []⟩

variable (cls : ModelClass) (s : Stored)

/-- The answer of the database to the statement of `save`, and its rows afterwards. -/
def exchange (answer : Option Nat) : Except Text TextMap × Rows :=
  match saveRequest cls s.attributes with
  | some request => request.answer cls answer s.rows
  | none => (.ok ∅, s.rows)

/-- The key of the row that `save` inserts. -/
def insertedBy (answer : Option Nat) : List Nat :=
  match saveRequest cls s.attributes, s.exchange cls answer, answer with
  | some (.insert _), (.ok _, _), some key => [key]
  | _, _, _ => []

/-- `save`: what it returns, and what is stored afterwards. -/
def save (answer : Option Nat) : Bool × Stored :=
  let result := saved cls s.attributes (s.exchange cls answer).1
  (result.1, ⟨result.2, (s.exchange cls answer).2, s.inserted ++ s.insertedBy cls answer⟩)

/-- One call. -/
def step : StoredCall cls → Stored
  | .setAttribute key value =>
      { s with attributes := setAttribute cls s.attributes key.1 value }
  | .save answer => (s.save cls answer).2

/-- Exactly one row was inserted, and it holds the attributes of the object. -/
def Current : Prop :=
  ∃ key, s.inserted = [key] ∧ Holds cls s.attributes s.rows key

/-- No row was inserted and the object has no key, or one was and the object has its key. -/
def Keyed : Prop :=
  (s.inserted = [] ∧ isPresent s.attributes cls.primaryKey = false) ∨
    ∃ key, s.inserted = [key] ∧ (s.rows key).isSome ∧
      s.attributes[cls.primaryKey]? = some (natText key)

variable {cls s}

/-- Whether a key is present is seen from what is found under it. -/
theorem isPresent_congr {a b : TextMap} {key : Text} (h : a[key]? = b[key]?) :
    isPresent a key = isPresent b key := by
  unfold isPresent getAttribute
  rw [h]

/-- A key that was written back is present. -/
theorem isPresent_of_key {attributes : TextMap} {key : Nat}
    (h : attributes[cls.primaryKey]? = some (natText key)) :
    isPresent attributes cls.primaryKey = true :=
  (isPresent_iff _ _).mpr ⟨natText key, h, natText_ne_nil key⟩

/-- A row that the values were written over holds the attributes. -/
theorem holds_of_overwrite {attributes : TextMap} {rows : Rows} {key : Nat} (values : TextMap)
    (row : Row) (hrow : rows key = some (overwrite values row))
    (hkey : attributes[cls.primaryKey]? = some (natText key))
    (hvalues : ∀ column : Text, column ≠ cls.primaryKey → values[column]? = attributes[column]?) :
    Holds cls attributes rows key := by
  refine ⟨_, hrow, fun column value hvalue => ?_⟩
  unfold cell
  by_cases hcolumn : column = cls.primaryKey
  · subst hcolumn
    rw [if_pos rfl, ← hkey, hvalue]
  · rw [if_neg hcolumn, overwrite, hvalues column hcolumn, hvalue, Option.some_or]

/-- The rows after an accepted `UPDATE` of the object. -/
def updatedRows (cls : ModelClass) (s : Stored) : Rows := fun k =>
  if natText k = s.attributes.getD cls.primaryKey [] then
    (s.rows k).map (overwrite (savedValues cls s.attributes))
  else s.rows k

/-- The object after an accepted `INSERT`. -/
def insertedAt (cls : ModelClass) (s : Stored) (key : Nat) : Stored where
  attributes := s.attributes.insert cls.primaryKey (natText key)
  rows := Function.update s.rows key
    (some (overwrite (savedValues cls s.attributes) fun _ => none))
  inserted := s.inserted ++ [key]

/-- What `save` can do: nothing, or an update of an object with a key, or an insertion of one
without. -/
theorem save_cases (cls : ModelClass) (s : Stored) (answer : Option Nat) :
    s.save cls answer = (false, s) ∨
      (isPresent s.attributes cls.primaryKey = true ∧
        s.save cls answer = (true, { s with rows := s.updatedRows cls })) ∨
      (isPresent s.attributes cls.primaryKey = false ∧
        ∃ key, answer = some key ∧ s.save cls answer = (true, s.insertedAt cls key)) := by
  unfold save insertedBy exchange saveRequest
  by_cases hempty : (savedValues cls s.attributes).isEmpty = true
  · refine Or.inl ?_
    simp [hempty, saved]
  · by_cases hpresent : isPresent s.attributes cls.primaryKey = true
    · cases answer with
      | none =>
          refine Or.inl ?_
          simp [hempty, hpresent, saved, RowRequest.answer]
      | some key =>
          refine Or.inr (Or.inl ⟨hpresent, ?_⟩)
          simp [hempty, hpresent, saved, RowRequest.answer, RowRequest.perform]
          rfl
    · rw [Bool.not_eq_true] at hpresent
      cases answer with
      | none =>
          refine Or.inl ?_
          simp [hempty, hpresent, saved, RowRequest.answer]
      | some key =>
          by_cases hkey : key = 0 ∨ (s.rows key).isSome = true
          · refine Or.inl ?_
            simp [hempty, hpresent, saved, RowRequest.answer, RowRequest.perform, hkey]
          · refine Or.inr (Or.inr ⟨hpresent, key, ?_⟩)
            simp [hempty, hpresent, saved, RowRequest.answer, RowRequest.perform, hkey,
              writeBack, insertedAt]

/-- `setAttribute` of another key keeps the key. -/
theorem Keyed.setAttribute (h : s.Keyed cls) (key : { key : Text // key ≠ cls.primaryKey })
    (value : Text) : (s.step cls (.setAttribute key value)).Keyed cls := by
  have hkey : (Model.setAttribute cls s.attributes key.1 value)[cls.primaryKey]? =
      s.attributes[cls.primaryKey]? := by
    rw [getElem?_setAttribute, if_neg fun hset => key.2 hset.2]
  rcases h with ⟨hnone, habsent⟩ | ⟨k, hone, hrow, hk⟩
  · exact Or.inl ⟨hnone, (isPresent_congr hkey).trans habsent⟩
  · exact Or.inr ⟨k, hone, hrow, hkey.trans hk⟩

/-- An object with a key that is saved holds its row. -/
theorem Keyed.current_update (h : s.Keyed cls)
    (hpresent : isPresent s.attributes cls.primaryKey = true) :
    Current cls { s with rows := s.updatedRows cls } := by
  rcases h with ⟨-, habsent⟩ | ⟨key, hone, hrow, hkey⟩
  · rw [habsent] at hpresent
    cases hpresent
  · obtain ⟨row, hrow⟩ := Option.isSome_iff_exists.mp hrow
    refine ⟨key, hone, ?_⟩
    refine holds_of_overwrite (savedValues cls s.attributes) row ?_ hkey ?_
    · change (if natText key = s.attributes.getD cls.primaryKey [] then _ else _) = _
      rw [Std.ExtTreeMap.getD_eq_getD_getElem?, hkey, Option.getD_some, if_pos rfl, hrow]
      rfl
    · intro column hcolumn
      rw [getElem?_savedValues, if_neg hcolumn]

/-- So does one that is inserted. -/
theorem Keyed.current_insert (h : s.Keyed cls)
    (habsent : isPresent s.attributes cls.primaryKey = false) (key : Nat) :
    Current cls (s.insertedAt cls key) := by
  rcases h with ⟨hnone, -⟩ | ⟨key', -, -, hkey⟩
  · refine ⟨key, by rw [insertedAt, hnone]; rfl, ?_⟩
    refine holds_of_overwrite (savedValues cls s.attributes) (fun _ => none) ?_ ?_ ?_
    · exact Function.update_self key _ s.rows
    · change (s.attributes.insert cls.primaryKey (natText key))[cls.primaryKey]? = _
      rw [getElem?_insert, if_pos rfl]
    · intro column hcolumn
      change _ = (s.attributes.insert cls.primaryKey (natText key))[column]?
      rw [getElem?_savedValues, if_neg hcolumn, getElem?_insert, if_neg fun h => hcolumn h.symm]
  · rw [isPresent_of_key hkey] at habsent
    cases habsent

/-- An object that holds its row and has its key. -/
theorem Current.keyed (h : s.Current cls) {key : Nat} (hone : s.inserted = [key])
    (hkey : s.attributes[cls.primaryKey]? = some (natText key)) : s.Keyed cls := by
  obtain ⟨key', hone', row, hrow, -⟩ := h
  rw [hone] at hone'
  obtain rfl : key = key' := List.head_eq_of_cons_eq hone'
  exact Or.inr ⟨key, hone, by rw [hrow]; rfl, hkey⟩

/-- `save` keeps the key, and when it returns `true` the row is current. -/
theorem Keyed.save (h : s.Keyed cls) (answer : Option Nat) :
    (s.save cls answer).2.Keyed cls ∧
      ((s.save cls answer).1 = true → (s.save cls answer).2.Current cls) := by
  rcases save_cases cls s answer with hsave | ⟨hpresent, hsave⟩ | ⟨habsent, key, -, hsave⟩
  · rw [hsave]
    exact ⟨h, fun htrue => nomatch htrue⟩
  · rw [hsave]
    have hcurrent := h.current_update hpresent
    refine ⟨?_, fun _ => hcurrent⟩
    rcases h with ⟨-, habsent⟩ | ⟨key, hone, -, hkey⟩
    · rw [habsent] at hpresent
      cases hpresent
    · exact hcurrent.keyed hone hkey
  · rw [hsave]
    have hcurrent := h.current_insert habsent key
    refine ⟨?_, fun _ => hcurrent⟩
    rcases h with ⟨hnone, -⟩ | ⟨key', -, -, hkey⟩
    · have hone : (s.insertedAt cls key).inserted = [key] := by rw [insertedAt, hnone]; rfl
      refine hcurrent.keyed hone ?_
      change (s.attributes.insert cls.primaryKey (natText key))[cls.primaryKey]? = _
      rw [getElem?_insert, if_pos rfl]
    · rw [isPresent_of_key hkey] at habsent
      cases habsent

/-- At most one row was inserted. -/
theorem Keyed.inserted_le_one (h : s.Keyed cls) : s.inserted.length ≤ 1 := by
  rcases h with ⟨hnone, -⟩ | ⟨key, hone, -⟩
  · rw [hnone]
    exact Nat.zero_le 1
  · rw [hone]
    exact Nat.le_refl 1

theorem Keyed.step (h : s.Keyed cls) (call : StoredCall cls) : (s.step cls call).Keyed cls := by
  cases call with
  | setAttribute key value => exact h.setAttribute key value
  | save answer => exact (h.save answer).1

/-- For an object without a primary key at most one row is ever inserted, and whenever `save` has
returned `true` there is one and it holds the attributes of the object. -/
theorem inserted_at_most_once (cls : ModelClass) (attributes : TextMap) (rows : Rows)
    (calls : List (StoredCall cls)) :
    Throughout (step cls)
      (fun s call => (s.step cls call).inserted.length ≤ 1 ∧
        ∀ answer, call = .save answer → (s.save cls answer).1 = true →
          (s.step cls call).Current cls)
      (withoutKey cls attributes rows) calls := by
  have hstart : (withoutKey cls attributes rows).Keyed cls := by
    refine Or.inl ⟨rfl, ?_⟩
    unfold withoutKey isPresent getAttribute
    simp
  refine throughout_of_invariant (Keyed cls) hstart (fun s call h => h.step call) ?_ calls
  intro s call h
  refine ⟨(h.step call).inserted_le_one, fun answer hcall htrue => ?_⟩
  subst hcall
  exact (h.save answer).2 htrue

end Stored

end Model

end Brazier
