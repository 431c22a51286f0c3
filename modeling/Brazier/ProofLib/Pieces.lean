import Mathlib.Data.List.Basic

/-!
# A stream delivered in pieces

A stream arrives as a list of pieces. `cutAt n` takes pieces until they hold `n` elements: it
gives what the last piece taken holds beyond them, and the pieces that are left. The place `n` is
a boundary of the pieces when nothing is held beyond it.
-/

namespace ProofLib

variable {α : Type*}

/-- Take pieces until they hold `n` elements: the elements beyond, and the pieces left. -/
def cutAt : Nat → List (List α) → List α × List (List α)
  | 0, pieces => ([], pieces)
  | _ + 1, [] => ([], [])
  | n + 1, piece :: rest =>
      if n + 1 ≤ piece.length then (piece.drop (n + 1), rest)
      else cutAt (n + 1 - piece.length) rest

@[simp] theorem cutAt_zero (pieces : List (List α)) : cutAt 0 pieces = ([], pieces) := by
  cases pieces <;> rfl

/-- A piece that holds all the elements is the last one taken. -/
theorem cutAt_cons_of_le {n : Nat} (hpos : 0 < n) {piece : List α} (hle : n ≤ piece.length)
    (rest : List (List α)) : cutAt n (piece :: rest) = (piece.drop n, rest) := by
  cases n with
  | zero => omega
  | succ n => rw [cutAt, if_pos hle]

/-- A piece that holds no more than the elements is taken, and the cut goes on behind it. -/
theorem cutAt_cons_of_ge {n : Nat} (hpos : 0 < n) {piece : List α} (hle : piece.length ≤ n)
    (rest : List (List α)) : cutAt n (piece :: rest) = cutAt (n - piece.length) rest := by
  cases n with
  | zero => omega
  | succ n =>
      by_cases heq : n + 1 ≤ piece.length
      · have hlen : piece.length = n + 1 := by omega
        rw [cutAt, if_pos heq, ← hlen, List.drop_length, Nat.sub_self, cutAt_zero]
      · rw [cutAt, if_neg heq]

/-- Behind the first `n` elements comes what the cut leaves. -/
theorem drop_flatten_eq_cutAt (pieces : List (List α)) (n : Nat) :
    pieces.flatten.drop n = (cutAt n pieces).1 ++ (cutAt n pieces).2.flatten := by
  induction pieces generalizing n with
  | nil => cases n <;> simp [cutAt]
  | cons piece rest ih =>
      cases n with
      | zero => simp
      | succ n =>
          by_cases hle : n + 1 ≤ piece.length
          · rw [cutAt_cons_of_le n.succ_pos hle, List.flatten_cons,
              List.drop_append_of_le_length hle]
          · rw [cutAt_cons_of_ge n.succ_pos (by omega), ← ih, List.flatten_cons, List.drop_append,
              List.drop_eq_nil_of_le (by omega), List.nil_append]

end ProofLib
