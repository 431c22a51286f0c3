import Mathlib.Algebra.Group.Int.Defs
import Mathlib.Order.Lattice

/-!
# Checked arithmetic of 64 bits

Products and truncated quotients of signed integers, where a result that does not fit in 64 bits,
and a division by zero, is an error.
-/

namespace ProofLib

/-- The integer fits in 64 bits. -/
def IsInt64 (x : Int) : Prop := -2 ^ 63 ≤ x ∧ x < 2 ^ 63

instance (x : Int) : Decidable (IsInt64 x) := inferInstanceAs (Decidable (_ ∧ _))

/-- A product. -/
def mul64 (x y : Int) : Option Int := if IsInt64 (x * y) then some (x * y) else none

/-- A quotient, truncated towards zero. -/
def div64 (x y : Int) : Option Int :=
  if y ≠ 0 ∧ IsInt64 (x.tdiv y) then some (x.tdiv y) else none

variable {x y : Int}

/-- A product that fits. -/
theorem mul64_of_isInt64 (h : IsInt64 (x * y)) : mul64 x y = some (x * y) := if_pos h

/-- Dividing by a positive number does not move away from zero. -/
theorem IsInt64.tdiv (hx : IsInt64 x) (hy : 0 < y) : IsInt64 (x.tdiv y) := by
  obtain ⟨hlow, hhigh⟩ := hx
  rcases Int.le_total 0 x with hpos | hneg
  · have hnonneg := Int.tdiv_nonneg hpos hy.le
    have hle := Int.tdiv_le_self y hpos
    exact ⟨by omega, by omega⟩
  · have hopposite : 0 ≤ -x := by omega
    have hnonneg := Int.tdiv_nonneg hopposite hy.le
    have hle := Int.tdiv_le_self y hopposite
    rw [Int.neg_tdiv] at hnonneg hle
    exact ⟨by omega, by omega⟩

/-- A quotient by a positive number. -/
theorem div64_of_pos (hx : IsInt64 x) (hy : 0 < y) : div64 x y = some (x.tdiv y) :=
  if_pos ⟨hy.ne', hx.tdiv hy⟩

end ProofLib
