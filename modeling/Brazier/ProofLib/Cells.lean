import Mathlib.Data.List.Basic

/-!
# Cells

An array has a fixed number of cells, and a cell is unset until something is stored in it. A store
or a load beyond the end of an array is a fault, and so is a load of an unset cell. `storeAll_eq`
says what stores one behind the other leave, and when one of them is a fault.
-/

namespace ProofLib

variable {ι α : Type*}

/-- An access that is not defined, with the name of the array and the index. -/
inductive Fault (ι : Type*) where
  | outside (array : ι) (index : Nat)
  | unset (array : ι) (index : Nat)
  deriving DecidableEq

/-- The cells of an array, `none` where nothing was stored. -/
abbrev Cells (α : Type*) := List (Option α)

namespace Cells

/-- An array in which nothing was stored. -/
def blank (α : Type*) (size : Nat) : Cells α := List.replicate size none

def store (array : ι) (cells : Cells α) (index : Nat) (a : α) : Except (Fault ι) (Cells α) :=
  if index < cells.length then .ok (cells.set index (some a)) else .error (.outside array index)

def load (array : ι) (cells : Cells α) (index : Nat) : Except (Fault ι) α :=
  match cells[index]? with
  | none => .error (.outside array index)
  | some none => .error (.unset array index)
  | some (some a) => .ok a

/-- Stores one behind the other. -/
def storeAll (array : ι) (cells : Cells α) (index : Nat) : List α → Except (Fault ι) (Cells α)
  | [] => .ok cells
  | a :: rest => do
      let cells ← store array cells index a
      storeAll array cells (index + 1) rest

/-- What is read up to a mark, if that is there. -/
def readUntil [DecidableEq α] (mark : α) : Cells α → Option (List α)
  | some a :: rest => if a = mark then some [] else (readUntil mark rest).map (a :: ·)
  | _ => none

@[simp] theorem length_blank (size : Nat) : (blank α size).length = size := List.length_replicate

/-- A load where values were stored from the first cell on. -/
theorem load_stored (array : ι) {as : List α} (rest : Cells α) {index : Nat} {a : α}
    (h : as[index]? = some a) : load array (as.map some ++ rest) index = .ok a := by
  have hlt : index < (as.map some).length := by
    rw [List.length_map]
    exact (List.getElem?_eq_some_iff.mp h).1
  have hcell : (as.map some ++ rest)[index]? = some (some a) := by
    rw [List.getElem?_append_left hlt, List.getElem?_map, h]
    rfl
  rw [load, hcell]

theorem storeAll_singleton (array : ι) (cells : Cells α) (index : Nat) (a : α) :
    storeAll array cells index [a] = store array cells index a := by
  show (store array cells index a).bind Except.ok = store array cells index a
  cases store array cells index a <;> rfl

/-- The cells up to the one that was set last. -/
theorem take_succ_set {cells : Cells α} {index : Nat} (h : index < cells.length)
    (cell : Option α) : (cells.set index cell).take (index + 1) = cells.take index ++ [cell] := by
  have hlength : (cells.take index ++ [cell]).length = index + 1 := by
    rw [List.length_append, List.length_take, List.length_singleton]
    omega
  rw [List.set_eq_take_append_cons_drop, if_pos h, List.append_cons, ← hlength,
    List.take_left]

/-- Stores are made in order. -/
theorem storeAll_append (array : ι) (cells : Cells α) (index : Nat) (front back : List α) :
    storeAll array cells index (front ++ back) =
      (storeAll array cells index front).bind fun cells =>
        storeAll array cells (index + front.length) back := by
  induction front generalizing cells index with
  | nil => rfl
  | cons a rest ih =>
      show (store array cells index a).bind _ = ((store array cells index a).bind _).bind _
      cases store array cells index a with
      | error fault => rfl
      | ok stored =>
          show storeAll array stored (index + 1) (rest ++ back) = _
          have hindex : index + 1 + rest.length = index + (rest.length + 1) := by omega
          rw [ih, List.length_cons, hindex]
          rfl

/-- Stores one behind the other replace as many cells, and the others stay. When there is no room
for all of them the first one beyond the end is a fault. -/
theorem storeAll_eq (array : ι) {cells : Cells α} {index : Nat} (h : index ≤ cells.length)
    (as : List α) :
    storeAll array cells index as =
      if index + as.length ≤ cells.length then
        .ok (cells.take index ++ as.map some ++ cells.drop (index + as.length))
      else .error (.outside array cells.length) := by
  induction as generalizing cells index with
  | nil =>
      rw [List.length_nil, Nat.add_zero, if_pos h, List.map_nil, List.append_nil,
        List.take_append_drop]
      rfl
  | cons a rest ih =>
      show (store array cells index a).bind _ = _
      rcases Nat.lt_or_ge index cells.length with hlt | hge
      · rw [store, if_pos hlt]
        show storeAll array (cells.set index (some a)) (index + 1) rest = _
        rw [ih (by rw [List.length_set]; omega), List.length_set, List.length_cons,
          show index + 1 + rest.length = index + (rest.length + 1) by omega,
          take_succ_set hlt, List.drop_set_of_lt (by omega), List.append_assoc (cells.take index)]
        rfl
      · obtain rfl : index = cells.length := by omega
        rw [store, if_neg (by omega), if_neg (by rw [List.length_cons]; omega)]
        rfl

/-- What stands in front of a mark is read. -/
theorem readUntil_stored [DecidableEq α] {mark : α} {as : List α} (h : mark ∉ as)
    (rest : Cells α) : readUntil mark (as.map some ++ some mark :: rest) = some as := by
  induction as with
  | nil => exact if_pos rfl
  | cons a as ih =>
      rw [List.mem_cons, not_or] at h
      show (if a = mark then some [] else
        (readUntil mark (as.map some ++ some mark :: rest)).map (a :: ·)) = _
      rw [if_neg (Ne.symm h.1), ih h.2]
      rfl

end Cells

end ProofLib
