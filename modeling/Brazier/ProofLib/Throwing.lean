import Mathlib.Data.List.Basic

/-!
# Operations that throw and keep their state

A `Throwing` operation changes a state and returns or throws; what it did to the state before it
threw stays done. `Ends x s Q` says that `Q` holds of the result and the state at the end. There
is one rule for each way to build such an operation: sequence, exception handler, loop.
-/

namespace ProofLib

universe u

/-- An operation on a state `σ` that returns an `α` or throws an `ε`. -/
abbrev Throwing (σ ε α : Type u) := ExceptT ε (StateM σ) α

variable {σ ε α β : Type u}

/-- The result of an operation and the state it leaves. -/
def Throwing.outcome (x : Throwing σ ε α) (s : σ) : Except ε α × σ :=
  x.run.run s

/-! Where each way to build an operation ends. -/

@[simp] theorem outcome_pure (a : α) (s : σ) :
    Throwing.outcome (pure a : Throwing σ ε α) s = (.ok a, s) := rfl

@[simp] theorem outcome_throw (e : ε) (s : σ) :
    Throwing.outcome (throw e : Throwing σ ε α) s = (.error e, s) := rfl

@[simp] theorem outcome_modify (f : σ → σ) (s : σ) :
    Throwing.outcome (modify f : Throwing σ ε PUnit) s = (.ok ⟨⟩, f s) := rfl

@[simp] theorem outcome_get_bind (f : σ → Throwing σ ε α) (s : σ) :
    Throwing.outcome (get >>= f) s = (f s).outcome s := rfl

/-- After an operation that returned the next one starts where it ended. -/
theorem outcome_bind_ok {x : Throwing σ ε β} {s s' : σ} {b : β} (hx : x.outcome s = (.ok b, s'))
    (f : β → Throwing σ ε α) : Throwing.outcome (x >>= f) s = (f b).outcome s' := by
  unfold Throwing.outcome at hx
  unfold Throwing.outcome
  simp only [ExceptT.run_bind, StateT.run_bind, hx]
  rfl

/-- After an operation that threw there is no next one. -/
theorem outcome_bind_error {x : Throwing σ ε β} {s s' : σ} {e : ε}
    (hx : x.outcome s = (.error e, s')) (f : β → Throwing σ ε α) :
    Throwing.outcome (x >>= f) s = (.error e, s') := by
  unfold Throwing.outcome at hx
  unfold Throwing.outcome
  simp only [ExceptT.run_bind, StateT.run_bind, hx]
  rfl

/-- A sequence returns when both of its operations do. -/
theorem outcome_bind_eq_ok {x : Throwing σ ε β} {f : β → Throwing σ ε α} {s s' : σ} {a : α} :
    Throwing.outcome (x >>= f) s = (.ok a, s') ↔
      ∃ b mid, x.outcome s = (.ok b, mid) ∧ (f b).outcome mid = (.ok a, s') := by
  constructor
  · intro h
    cases hrun : x.outcome s with
    | mk r mid =>
        cases r with
        | ok b =>
            rw [outcome_bind_ok hrun] at h
            exact ⟨b, mid, rfl, h⟩
        | error e =>
            rw [outcome_bind_error hrun] at h
            cases h
  · rintro ⟨b, mid, hx, hf⟩
    rw [outcome_bind_ok hx]
    exact hf

/-- What is returned may be wrapped at the end. -/
theorem outcome_bind_pure (x : Throwing σ ε β) (f : β → α) (s : σ) :
    Throwing.outcome (x >>= fun b => pure (f b)) s =
      ((x.outcome s).1.map f, (x.outcome s).2) := by
  cases hrun : x.outcome s with
  | mk r s' =>
      cases r with
      | ok b =>
          rw [outcome_bind_ok hrun, outcome_pure]
          rfl
      | error e =>
          rw [outcome_bind_error hrun]
          rfl

/-- A handler of an operation that returned does nothing. -/
theorem outcome_tryCatch_ok {x : Throwing σ ε α} {s s' : σ} {a : α} (hx : x.outcome s = (.ok a, s'))
    (handler : ε → Throwing σ ε α) :
    Throwing.outcome (tryCatch x handler) s = (.ok a, s') := by
  unfold Throwing.outcome at hx
  unfold Throwing.outcome
  simp only [ExceptT.run_tryCatch, StateT.run_bind, hx]
  rfl

/-- A handler starts where the operation threw. -/
theorem outcome_tryCatch_error {x : Throwing σ ε α} {s s' : σ} {e : ε}
    (hx : x.outcome s = (.error e, s')) (handler : ε → Throwing σ ε α) :
    Throwing.outcome (tryCatch x handler) s = (handler e).outcome s' := by
  unfold Throwing.outcome at hx
  unfold Throwing.outcome
  simp only [ExceptT.run_tryCatch, StateT.run_bind, hx]
  rfl

/-- The operation, started in `s`, ends with a result and a state of which `Q` holds. -/
def Ends (x : Throwing σ ε α) (s : σ) (Q : Except ε α → σ → Prop) : Prop :=
  Q (x.outcome s).1 (x.outcome s).2

/-- A handler that leaves the state changes nothing of what the operation did to it. -/
theorem outcome_tryCatch_snd (x : Throwing σ ε α) {handler : ε → Throwing σ ε α}
    (hhandler : ∀ e s, ((handler e).outcome s).2 = s) (s : σ) :
    (Throwing.outcome (tryCatch x handler) s).2 = (x.outcome s).2 := by
  cases hrun : x.outcome s with
  | mk r s' =>
      cases r with
      | ok a => rw [outcome_tryCatch_ok hrun]
      | error e =>
          rw [outcome_tryCatch_error hrun]
          exact hhandler e s'

variable {s : σ} {P Q : Except ε α → σ → Prop}

/-- The postcondition may be weakened. -/
theorem Ends.imp {x : Throwing σ ε α} (hx : Ends x s P) (himp : ∀ r s', P r s' → Q r s') :
    Ends x s Q :=
  himp _ _ hx

/-- Returning a value leaves the state. -/
theorem ends_pure {a : α} (h : Q (.ok a) s) : Ends (pure a) s Q := h

/-- Throwing leaves the state. -/
theorem ends_throw {e : ε} (h : Q (.error e) s) : Ends (throw e) s Q := h

/-- Reading the state before going on. -/
theorem ends_get_bind {f : σ → Throwing σ ε α} (h : Ends (f s) s Q) : Ends (get >>= f) s Q := h

/-- Changing the state. -/
theorem ends_modify {Q : Except ε PUnit → σ → Prop} {f : σ → σ} (h : Q (.ok ⟨⟩) (f s)) :
    Ends (modify f : Throwing σ ε PUnit) s Q := h

/-- Changing the state before going on. -/
theorem ends_modify_bind {f : σ → σ} {g : PUnit → Throwing σ ε α} (h : Ends (g ⟨⟩) (f s) Q) :
    Ends (modify f >>= g) s Q := h

/-- Sequence: the second operation starts where the first one ended, unless that threw. -/
theorem Ends.bind {x : Throwing σ ε β} {f : β → Throwing σ ε α} {P : Except ε β → σ → Prop}
    (hx : Ends x s P) (hok : ∀ b s', P (.ok b) s' → Ends (f b) s' Q)
    (herror : ∀ e s', P (.error e) s' → Q (.error e) s') : Ends (x >>= f) s Q := by
  unfold Ends at hx ⊢
  cases hrun : x.outcome s with
  | mk r s' =>
      rw [hrun] at hx
      cases r with
      | ok b =>
          rw [outcome_bind_ok hrun]
          exact hok b s' hx
      | error e =>
          rw [outcome_bind_error hrun]
          exact herror e s' hx

/-- Handler: it starts where the operation threw. -/
theorem Ends.handle {x : Throwing σ ε α} {handler : ε → Throwing σ ε α} (hx : Ends x s P)
    (hok : ∀ a s', P (.ok a) s' → Q (.ok a) s')
    (herror : ∀ e s', P (.error e) s' → Ends (handler e) s' Q) :
    Ends (tryCatch x handler) s Q := by
  unfold Ends at hx ⊢
  cases hrun : x.outcome s with
  | mk r s' =>
      rw [hrun] at hx
      cases r with
      | ok a =>
          rw [outcome_tryCatch_ok hrun]
          exact hok a s' hx
      | error e =>
          rw [outcome_tryCatch_error hrun]
          exact herror e s' hx

/-- Loop: an invariant that speaks about the items still to come. -/
theorem ends_forM (Inv : List β → σ → Prop) {Q : Except ε PUnit → σ → Prop}
    {body : β → Throwing σ ε PUnit}
    (hbody : ∀ item rest s, Inv (item :: rest) s → Ends (body item) s (fun r s' =>
      match r with
      | .ok _ => Inv rest s'
      | .error e => Q (.error e) s'))
    (hend : ∀ s, Inv [] s → Q (.ok ⟨⟩) s) (items : List β) (hstart : Inv items s) :
    Ends (items.forM body) s Q := by
  induction items generalizing s with
  | nil => exact ends_pure (hend s hstart)
  | cons item rest ih =>
      have hcons : (item :: rest).forM body = body item >>= fun _ => rest.forM body := rfl
      rw [hcons]
      exact (hbody item rest s hstart).bind (fun _ _ hrest => ih hrest)
        (fun _ _ hthrown => hthrown)

end ProofLib
