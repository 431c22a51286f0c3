import Brazier.ProofLib.Runs

/-!
# Parties that do not see each other

Parties take steps on one state, in any order. `Sees i s s'` says that the party `i` cannot tell the
two states apart. When each party's step depends on what it sees, and no step of another party
changes that, then `Separated.run` says that after any schedule a party sees what it would see after
its own steps alone.
-/

namespace ProofLib

variable {σ ι : Type*}

/-- A party's step depends on what it sees, and the steps of others do not change that. -/
structure Separated (step : σ → ι → σ) (Inv : σ → Prop) (Sees : ι → σ → σ → Prop) : Prop where
  keep : ∀ s i, Inv s → Inv (step s i)
  own : ∀ i s s', Inv s → Inv s' → Sees i s s' → Sees i (step s i) (step s' i)
  other : ∀ i j s s', j ≠ i → Inv s → Inv s' → Sees i s s' → Sees i (step s j) s'

variable {step : σ → ι → σ} {Inv : σ → Prop} {Sees : ι → σ → σ → Prop}

/-- The steps of others may be left out. -/
theorem Separated.run [DecidableEq ι] (h : Separated step Inv Sees) {s s' : σ} {i : ι}
    (hs : Inv s) (hs' : Inv s') (hsees : Sees i s s') (schedule : List ι) :
    Sees i (runFrom step s schedule)
      (runFrom step s' (List.replicate (schedule.count i) i)) := by
  induction schedule generalizing s s' with
  | nil => exact hsees
  | cons j rest ih =>
      rw [runFrom_cons]
      by_cases hj : j = i
      · rw [hj, List.count_cons_self, List.replicate_succ, runFrom_cons]
        exact ih (h.keep s i hs) (h.keep s' i hs') (h.own i s s' hs hs' hsees)
      · rw [List.count_cons_of_ne (by simpa using hj)]
        exact ih (h.keep s j hs) hs' (h.other i j s s' hj hs hs' hsees)

end ProofLib
