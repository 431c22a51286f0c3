import Mathlib.Data.List.Basic

/-!
# Runs of a deterministic machine

A machine is a step function `step : σ → α → σ`. `runFrom` feeds it a list of inputs, and
`Throughout step P s inputs` says that `P` holds of every input of the run together with the
state that receives it. `Throughout.invariant` is the invariant rule. `throughout_iff` is the
rule for a property of steps that is, under an invariant, a condition which keeps the invariant.
-/

namespace ProofLib

variable {σ α : Type*} {step : σ → α → σ}

/-- The state reached from `s` by feeding the inputs in order. -/
def runFrom (step : σ → α → σ) (s : σ) (inputs : List α) : σ :=
  inputs.foldl step s

@[simp] theorem runFrom_nil (s : σ) : runFrom step s [] = s := rfl

@[simp] theorem runFrom_cons (s : σ) (a : α) (rest : List α) :
    runFrom step s (a :: rest) = runFrom step (step s a) rest := rfl

/-- Running a concatenation is running the second part after the first. -/
theorem runFrom_append (s : σ) (first second : List α) :
    runFrom step s (first ++ second) = runFrom step (runFrom step s first) second :=
  List.foldl_append

/-- `P` holds of every input of the run, taken with the state that receives it. -/
def Throughout (step : σ → α → σ) (P : σ → α → Prop) : σ → List α → Prop
  | _, [] => True
  | s, a :: rest => P s a ∧ Throughout step P (step s a) rest

/-- A property of inputs and states is decidable along a run when it is at each step. -/
instance Throughout.decidable (step : σ → α → σ) (P : σ → α → Prop) [∀ s a, Decidable (P s a)] :
    ∀ (s : σ) (inputs : List α), Decidable (Throughout step P s inputs)
  | _, [] => isTrue trivial
  | s, a :: rest =>
      have := Throughout.decidable step P (step s a) rest
      inferInstanceAs (Decidable (P s a ∧ Throughout step P (step s a) rest))

/-- `Throughout` speaks about every way of cutting the run before an input. -/
theorem throughout_iff_split {P : σ → α → Prop} {s : σ} {inputs : List α} :
    Throughout step P s inputs ↔
      ∀ before a after, inputs = before ++ a :: after → P (runFrom step s before) a := by
  induction inputs generalizing s with
  | nil => simp [Throughout]
  | cons b rest ih =>
      constructor
      · intro ⟨hb, hrest⟩ before a after heq
        cases before with
        | nil =>
            obtain ⟨rfl, -⟩ := List.cons.inj heq
            exact hb
        | cons c before =>
            obtain ⟨rfl, htail⟩ := List.cons.inj heq
            exact ih.mp hrest before a after htail
      · intro h
        refine ⟨h [] b rest rfl, ih.mpr ?_⟩
        intro before a after heq
        exact h (b :: before) a after (by rw [heq]; rfl)

/-- What holds throughout a concatenation. -/
theorem throughout_append {P : σ → α → Prop} {s : σ} {first second : List α} :
    Throughout step P s (first ++ second) ↔
      Throughout step P s first ∧ Throughout step P (runFrom step s first) second := by
  induction first generalizing s with
  | nil => exact ⟨fun h => ⟨trivial, h⟩, fun h => h.2⟩
  | cons a rest ih =>
      have hcons : ∀ inputs, Throughout step P s (a :: inputs) ↔
          P s a ∧ Throughout step P (step s a) inputs := fun _ => Iff.rfl
      rw [List.cons_append, runFrom_cons, hcons, hcons, ih, and_assoc]

/-- An invariant of the start that is kept by every step meeting `C` holds at the end of a run
that meets `C` throughout. -/
theorem Throughout.invariant {Inv : σ → Prop} {C : σ → α → Prop} {s : σ} {inputs : List α}
    (hrun : Throughout step C s inputs) (hstart : Inv s)
    (hstep : ∀ s a, Inv s → C s a → Inv (step s a)) : Inv (runFrom step s inputs) := by
  induction inputs generalizing s with
  | nil => exact hstart
  | cons a rest ih => exact ih hrun.2 (hstep s a hstart hrun.1)

/-- `P` holds after some further inputs. -/
def CanReach (step : σ → α → σ) (P : σ → Prop) (s : σ) : Prop :=
  ∃ inputs, P (runFrom step s inputs)

theorem CanReach.of_holds {P : σ → Prop} {s : σ} (h : P s) : CanReach step P s := ⟨[], h⟩

theorem CanReach.of_step {P : σ → Prop} {s : σ} (a : α) (h : CanReach step P (step s a)) :
    CanReach step P s := by
  obtain ⟨inputs, hend⟩ := h
  exact ⟨a :: inputs, hend⟩

/-- An invariant that the steps of a run keep holds at its end. -/
theorem runFrom_invariant (Inv : σ → Prop) {s : σ} {inputs : List α} (hstart : Inv s)
    (hstep : ∀ a ∈ inputs, ∀ s, Inv s → Inv (step s a)) : Inv (runFrom step s inputs) := by
  induction inputs generalizing s with
  | nil => exact hstart
  | cons a rest ih =>
      rw [List.forall_mem_cons] at hstep
      exact ih (hstep.1 s hstart) hstep.2

/-- What follows from an invariant that every step keeps holds throughout a run. -/
theorem throughout_of_invariant (Inv : σ → Prop) {P : σ → α → Prop} {s : σ} (hstart : Inv s)
    (hkeep : ∀ s a, Inv s → Inv (step s a)) (hP : ∀ s a, Inv s → P s a) (inputs : List α) :
    Throughout step P s inputs := by
  induction inputs generalizing s with
  | nil => trivial
  | cons a rest ih => exact ⟨hP s a hstart, ih (hkeep s a hstart)⟩

/-- Under an invariant that the steps meeting `C` keep, a property of steps that is `C` there holds
throughout a run exactly when `C` does. -/
theorem throughout_iff (Inv : σ → Prop) {D C : σ → α → Prop} {s : σ} (hstart : Inv s)
    (hstep : ∀ s a, Inv s → C s a → Inv (step s a)) (hiff : ∀ s a, Inv s → (D s a ↔ C s a))
    (inputs : List α) : Throughout step D s inputs ↔ Throughout step C s inputs := by
  induction inputs generalizing s with
  | nil => exact Iff.rfl
  | cons a rest ih =>
      constructor
      · intro ⟨hprop, hrest⟩
        have hcond := (hiff s a hstart).mp hprop
        exact ⟨hcond, (ih (hstep s a hstart hcond)).mp hrest⟩
      · intro ⟨hcond, hrest⟩
        exact ⟨(hiff s a hstart).mpr hcond, (ih (hstep s a hstart hcond)).mpr hrest⟩

/-- A property that each step keeps exactly when `C` holds of the step holds after every step of
a run exactly when `C` holds throughout it. -/
theorem throughout_post_iff {P : σ → Prop} {C : σ → α → Prop} {s : σ} (hstart : P s)
    (hstep : ∀ s a, P s → (P (step s a) ↔ C s a)) (inputs : List α) :
    Throughout step (fun s a => P (step s a)) s inputs ↔ Throughout step C s inputs :=
  throughout_iff P hstart (fun s a hs => (hstep s a hs).mpr) hstep inputs

/-- `P` and `Safe` together are kept by every step, a step of a certain kind gives them when `Safe`
holds before it, and when it does not, `P` can be broken after the step. Then `P` holds for good
after every such step of a run exactly when `Safe` holds before each. -/
theorem throughout_final_iff {kind : σ → α → Prop} (P Safe : σ → Prop)
    (hset : ∀ s a, kind s a → Safe s → P (step s a) ∧ Safe (step s a))
    (hkeep : ∀ s a, P s ∧ Safe s → P (step s a) ∧ Safe (step s a))
    (hbreak : ∀ s a, kind s a → ¬ Safe s → CanReach step (fun s => ¬ P s) (step s a))
    (s : σ) (inputs : List α) :
    Throughout step (fun s a => kind s a → ∀ rest, P (runFrom step (step s a) rest)) s inputs ↔
      Throughout step (fun s a => kind s a → Safe s) s inputs := by
  refine throughout_iff (fun _ => True) trivial (fun _ _ _ _ => trivial) ?_ inputs
  refine fun s a _ => ⟨fun hfinal hkind => ?_, fun hsafe hkind rest => ?_⟩
  · by_contra hunsafe
    obtain ⟨rest, hbroken⟩ := hbreak s a hkind hunsafe
    exact hbroken (hfinal hkind rest)
  · have hend : P (runFrom step (step s a) rest) ∧ Safe (runFrom step (step s a) rest) :=
      runFrom_invariant (fun s => P s ∧ Safe s) (hset s a hkind (hsafe hkind))
        fun b _ s hs => hkeep s b hs
    exact hend.1

/-! ## History variables

`step'` runs the machine `step` together with a history variable that the machine does not see. -/

variable {τ : Type*} {step' : σ × τ → α → σ × τ}

/-- A history variable does not change the run. -/
theorem runFrom_fst (hfst : ∀ s a, (step' s a).1 = step s.1 a) (s : σ × τ) (inputs : List α) :
    (runFrom step' s inputs).1 = runFrom step s.1 inputs := by
  induction inputs generalizing s with
  | nil => rfl
  | cons a rest ih => rw [runFrom_cons, runFrom_cons, ih, hfst]

/-- What holds throughout the run of the machine holds throughout the run with history. -/
theorem throughout_fst (hfst : ∀ s a, (step' s a).1 = step s.1 a) {P : σ → α → Prop} {s : σ × τ}
    {inputs : List α} (hrun : Throughout step P s.1 inputs) :
    Throughout step' (fun s a => P s.1 a) s inputs := by
  induction inputs generalizing s with
  | nil => trivial
  | cons a rest ih =>
      refine ⟨hrun.1, ih ?_⟩
      rw [hfst]
      exact hrun.2

end ProofLib
