import Mathlib.Data.List.Perm.Basic

/-!
# Handles that have to be given back

A C library hands out handles. Each one has to be given back once, or handed over to another owner,
and must not be used afterwards. `Owning` is a program that calls such a library: it returns or
throws, or comes to a misuse of a handle, which is `none`. `Owns own x Q` says that `x`, which has
the handles `own`, misuses none, leaves those of others, and ends with a result, handles of its own
and handles that it handed over of which `Q` holds.
-/

namespace ProofLib

/-- A handle: its kind, and the number of handles that were made before it. -/
structure Handle (κ : Type) where
  kind : κ
  number : Nat
  deriving DecidableEq

/-- The handles in use, and those that were handed over. No handle is there twice. -/
structure Handles (κ : Type) where
  live : List (Handle κ)
  handed : List (Handle κ)
  made : Nat
  distinct : (live ++ handed).Nodup
  fresh : ∀ h ∈ live ++ handed, h.number < made

variable {κ ω ε α β : Type}

namespace Handles

/-- No handle was made yet. -/
def initial : Handles κ where
  live := []
  handed := []
  made := 0
  distinct := List.nodup_nil
  fresh := fun _ h => absurd h List.not_mem_nil

/-- The handle that is made next. -/
def next (s : Handles κ) (kind : κ) : Handle κ := ⟨kind, s.made⟩

theorem next_notMem (s : Handles κ) (kind : κ) : s.next kind ∉ s.live ++ s.handed := by
  intro h
  have hlt : s.made < s.made := s.fresh _ h
  exact Nat.lt_irrefl _ hlt

/-- A handle is made. -/
def make (s : Handles κ) (kind : κ) : Handles κ where
  live := s.next kind :: s.live
  handed := s.handed
  made := s.made + 1
  distinct := List.nodup_cons.mpr ⟨s.next_notMem kind, s.distinct⟩
  fresh := by
    intro h hmem
    rcases List.mem_cons.mp hmem with rfl | hmem
    · exact Nat.lt_succ_self s.made
    · exact Nat.lt_succ_of_lt (s.fresh h hmem)

variable [DecidableEq κ]

/-- A handle is given back. -/
def free (s : Handles κ) (h : Handle κ) : Handles κ where
  live := s.live.erase h
  handed := s.handed
  made := s.made
  distinct := s.distinct.sublist (List.erase_sublist.append_right _)
  fresh := fun x hx => s.fresh x ((List.erase_sublist.append_right s.handed).subset hx)

/-- A handle is given to another owner, who gives it back some day. -/
def handOver (s : Handles κ) (h : Handle κ) (hmem : h ∈ s.live) : Handles κ where
  live := s.live.erase h
  handed := h :: s.handed
  made := s.made
  distinct := by
    have hperm : (s.live.erase h ++ h :: s.handed).Perm (s.live ++ s.handed) :=
      List.perm_middle.trans ((List.perm_cons_erase hmem).symm.append_right s.handed)
    exact hperm.nodup_iff.mpr s.distinct
  fresh := by
    have hperm : (s.live.erase h ++ h :: s.handed).Perm (s.live ++ s.handed) :=
      List.perm_middle.trans ((List.perm_cons_erase hmem).symm.append_right s.handed)
    intro x hx
    exact s.fresh x (hperm.subset hx)

end Handles

/-- A program that calls a library in the state `ω`. -/
abbrev Owning (κ ω ε α : Type) := ExceptT ε (StateT (Handles κ × ω) Option) α

/-- The result of a program and the states it leaves, unless it misuses a handle. -/
def Owning.outcome (x : Owning κ ω ε α) (s : Handles κ) (w : ω) :
    Option (Except ε α × Handles κ × ω) :=
  x.run.run (s, w)

section

variable [DecidableEq κ]

/-- A call that is given handles. -/
def useHandles (given : List (Handle κ)) (ask : ω → α × ω) : Owning κ ω ε α :=
  ExceptT.mk fun s =>
    if ∀ h ∈ given, h ∈ s.1.live then some (.ok (ask s.2).1, s.1, (ask s.2).2) else none

/-- A call that is given handles and makes one, or a null pointer. -/
def makeHandle (given : List (Handle κ)) (kind : κ) (ask : ω → Bool × ω) :
    Owning κ ω ε (Option (Handle κ)) :=
  ExceptT.mk fun s =>
    if ∀ h ∈ given, h ∈ s.1.live then
      if (ask s.2).1 then some (.ok (some (s.1.next kind)), s.1.make kind, (ask s.2).2)
      else some (.ok none, s.1, (ask s.2).2)
    else none

/-- The call that gives a handle back. -/
def freeHandle (h : Handle κ) (update : ω → ω) : Owning κ ω ε Unit :=
  ExceptT.mk fun s =>
    if h ∈ s.1.live then some (.ok (), s.1.free h, update s.2) else none

/-- A call took the handle over. -/
def handOver (h : Handle κ) : Owning κ ω ε Unit :=
  ExceptT.mk fun s =>
    if hmem : h ∈ s.1.live then some (.ok (), s.1.handOver h hmem, s.2) else none

end

/-- The program, which has the handles `own`, misuses none, leaves the handles of others, and ends
with a result, handles of its own and handles that it handed over of which `Q` holds. -/
def Owns (own : List (Handle κ)) (x : Owning κ ω ε α)
    (Q : Except ε α → List (Handle κ) → List (Handle κ) → Prop) : Prop :=
  ∀ (s : Handles κ) (w : ω) (others : List (Handle κ)), s.live.Perm (own ++ others) →
    ∃ r s' w' kept handed, x.outcome s w = some (r, s', w') ∧
      s'.live.Perm (kept ++ others) ∧ s'.handed = handed ++ s.handed ∧ Q r kept handed

variable {own : List (Handle κ)} {Q P : Except ε α → List (Handle κ) → List (Handle κ) → Prop}

/-- The postcondition may be weakened. -/
theorem Owns.imp {x : Owning κ ω ε α} (hx : Owns own x P)
    (himp : ∀ r kept handed, P r kept handed → Q r kept handed) : Owns own x Q := by
  intro s w others hlive
  obtain ⟨r, s', w', kept, handed, hrun, hkept, hhanded, hP⟩ := hx s w others hlive
  exact ⟨r, s', w', kept, handed, hrun, hkept, hhanded, himp r kept handed hP⟩

/-- The order of the handles does not matter. -/
theorem Owns.perm {x : Owning κ ω ε α} {same : List (Handle κ)} (hx : Owns own x Q)
    (hperm : same.Perm own) : Owns same x Q := by
  intro s w others hlive
  exact hx s w others (hlive.trans (hperm.append_right others))

/-- What a program does is the same beside other handles of its caller. -/
theorem Owns.frame {x : Owning κ ω ε α} (hx : Owns own x P) (more : List (Handle κ)) :
    Owns (own ++ more) x fun r kept handed => ∃ mine, kept = mine ++ more ∧ P r mine handed := by
  intro s w others hlive
  rw [List.append_assoc] at hlive
  obtain ⟨r, s', w', kept, handed, hrun, hkept, hhanded, hP⟩ := hx s w (more ++ others) hlive
  rw [← List.append_assoc] at hkept
  exact ⟨r, s', w', kept ++ more, handed, hrun, hkept, hhanded, kept, rfl, hP⟩

/-- A caller who catches what is thrown. -/
def attempt (x : Owning κ ω ε α) : Owning κ ω ε (Except ε α) :=
  ExceptT.mk fun s => (x.run.run s).map fun out => (.ok out.1, out.2)

/-- What was thrown is a value for the caller. -/
theorem Owns.attempt {x : Owning κ ω ε α} (hx : Owns own x P) :
    Owns own (attempt x) fun r kept handed => ∃ thrown, r = .ok thrown ∧ P thrown kept handed := by
  intro s w others hlive
  obtain ⟨r, s', w', kept, handed, hrun, hkept, hhanded, hP⟩ := hx s w others hlive
  refine ⟨.ok r, s', w', kept, handed, ?_, hkept, hhanded, r, rfl, hP⟩
  unfold Owning.outcome at hrun
  show (x.run.run (s, w)).map _ = _
  rw [hrun]
  rfl

/-- Returning a value. -/
theorem owns_pure {a : α} (h : Q (.ok a) own []) : Owns own (pure a : Owning κ ω ε α) Q := by
  intro s w others hlive
  exact ⟨.ok a, s, w, own, [], rfl, hlive, rfl, h⟩

/-- Throwing. -/
theorem owns_throw {e : ε} (h : Q (.error e) own []) :
    Owns own (throw e : Owning κ ω ε α) Q := by
  intro s w others hlive
  exact ⟨.error e, s, w, own, [], rfl, hlive, rfl, h⟩

/-- After a program that returned the next one starts where it ended. -/
theorem outcome_owning_bind_ok {x : Owning κ ω ε β} {s s' : Handles κ} {w w' : ω} {b : β}
    (hx : x.outcome s w = some (.ok b, s', w')) (f : β → Owning κ ω ε α) :
    Owning.outcome (x >>= f) s w = (f b).outcome s' w' := by
  unfold Owning.outcome at hx ⊢
  simp only [ExceptT.run_bind, StateT.run_bind, hx]
  rfl

/-- After a program that threw there is no next one. -/
theorem outcome_owning_bind_error {x : Owning κ ω ε β} {s s' : Handles κ} {w w' : ω} {e : ε}
    (hx : x.outcome s w = some (.error e, s', w')) (f : β → Owning κ ω ε α) :
    Owning.outcome (x >>= f) s w = some (.error e, s', w') := by
  unfold Owning.outcome at hx ⊢
  simp only [ExceptT.run_bind, StateT.run_bind, hx]
  rfl

/-- Sequence: the second program has what the first one kept, unless that threw. -/
theorem Owns.bind {x : Owning κ ω ε β} {f : β → Owning κ ω ε α}
    {R : Except ε β → List (Handle κ) → List (Handle κ) → Prop} (hx : Owns own x R)
    (hok : ∀ b kept handed, R (.ok b) kept handed →
      Owns kept (f b) fun r left more => Q r left (more ++ handed))
    (herror : ∀ e kept handed, R (.error e) kept handed → Q (.error e) kept handed) :
    Owns own (x >>= f) Q := by
  intro s w others hlive
  obtain ⟨r, s', w', kept, handed, hrun, hkept, hhanded, hR⟩ := hx s w others hlive
  cases r with
  | ok b =>
      obtain ⟨r, s'', w'', left, more, hrun', hleft, hmore, hQ⟩ :=
        hok b kept handed hR s' w' others hkept
      refine ⟨r, s'', w'', left, more ++ handed, ?_, hleft, ?_, hQ⟩
      · rw [outcome_owning_bind_ok hrun]
        exact hrun'
      · rw [hmore, hhanded, List.append_assoc]
  | error e =>
      refine ⟨.error e, s', w', kept, handed, ?_, hkept, hhanded, herror e kept handed hR⟩
      exact outcome_owning_bind_error hrun f

/-- Sequence behind a program that hands nothing over. -/
theorem Owns.andThen {x : Owning κ ω ε β} {f : β → Owning κ ω ε α}
    (R : Except ε β → List (Handle κ) → Prop)
    (hx : Owns own x fun r kept handed => R r kept ∧ handed = [])
    (hok : ∀ b kept, R (.ok b) kept → Owns kept (f b) Q)
    (herror : ∀ e kept, R (.error e) kept → Q (.error e) kept []) : Owns own (x >>= f) Q := by
  refine hx.bind ?_ ?_
  · rintro b kept handed ⟨hR, rfl⟩
    simpa only [List.append_nil] using hok b kept hR
  · rintro e kept handed ⟨hR, rfl⟩
    exact herror e kept hR

/-- What a program has is in use. -/
theorem mem_live_of_perm {s : Handles κ} {others given : List (Handle κ)}
    (hlive : s.live.Perm (own ++ others)) (hgiven : ∀ h ∈ given, h ∈ own) :
    ∀ h ∈ given, h ∈ s.live :=
  fun h hmem => hlive.symm.subset (List.mem_append_left others (hgiven h hmem))

section

variable [DecidableEq κ]

/-- A call that is given handles of the program. -/
theorem owns_use {given : List (Handle κ)} {ask : ω → α × ω} (hgiven : ∀ h ∈ given, h ∈ own)
    (hQ : ∀ a, Q (.ok a) own []) : Owns own (useHandles given ask : Owning κ ω ε α) Q := by
  intro s w others hlive
  refine ⟨.ok (ask w).1, s, (ask w).2, own, [], ?_, hlive, rfl, hQ _⟩
  exact if_pos (mem_live_of_perm hlive hgiven)

/-- A call that makes a handle: it is a new one of the program. -/
theorem owns_make {given : List (Handle κ)} {kind : κ} {ask : ω → Bool × ω}
    {Q : Except ε (Option (Handle κ)) → List (Handle κ) → List (Handle κ) → Prop}
    (hgiven : ∀ h ∈ given, h ∈ own) (hnull : Q (.ok none) own [])
    (hmade : ∀ h, h.kind = kind → h ∉ own → Q (.ok (some h)) (h :: own) []) :
    Owns own (makeHandle given kind ask) Q := by
  intro s w others hlive
  have hmem := mem_live_of_perm hlive hgiven
  cases hask : (ask w).1 with
  | false =>
      refine ⟨.ok none, s, (ask w).2, own, [], ?_, hlive, rfl, hnull⟩
      show (if _ then if (ask w).1 then _ else _ else none) = _
      rw [if_pos hmem, hask]
      rfl
  | true =>
      refine ⟨.ok (some (s.next kind)), s.make kind, (ask w).2, s.next kind :: own, [], ?_,
        hlive.cons _, rfl, hmade _ rfl ?_⟩
      · show (if _ then if (ask w).1 then _ else _ else none) = _
        rw [if_pos hmem, hask]
        rfl
      · intro hown
        exact s.next_notMem kind (List.mem_append_left _
          (hlive.symm.subset (List.mem_append_left others hown)))

/-- What is left when a handle of the program leaves it. -/
theorem perm_erase {s : Handles κ} {others : List (Handle κ)} {h : Handle κ}
    (hlive : s.live.Perm (own ++ others)) (hown : h ∈ own) :
    (s.live.erase h).Perm (own.erase h ++ others) := by
  have herase := hlive.erase h
  rwa [List.erase_append_left _ hown] at herase

/-- Giving a handle back. -/
theorem owns_free {h : Handle κ} {update : ω → ω}
    {Q : Except ε Unit → List (Handle κ) → List (Handle κ) → Prop} (hown : h ∈ own)
    (hQ : Q (.ok ()) (own.erase h) []) : Owns own (freeHandle h update) Q := by
  intro s w others hlive
  have hmem : h ∈ s.live := hlive.symm.subset (List.mem_append_left others hown)
  exact ⟨.ok (), s.free h, update w, own.erase h, [], if_pos hmem, perm_erase hlive hown, rfl, hQ⟩

/-- Handing a handle over. -/
theorem owns_handOver {h : Handle κ}
    {Q : Except ε Unit → List (Handle κ) → List (Handle κ) → Prop} (hown : h ∈ own)
    (hQ : Q (.ok ()) (own.erase h) [h]) : Owns own (handOver h : Owning κ ω ε Unit) Q := by
  intro s w others hlive
  have hmem : h ∈ s.live := hlive.symm.subset (List.mem_append_left others hown)
  exact ⟨.ok (), s.handOver h hmem, w, own.erase h, [h], dif_pos hmem, perm_erase hlive hown, rfl,
    hQ⟩

/-! ## Steps of a program -/

/-- Going on after a call. -/
theorem owns_use_bind {given : List (Handle κ)} {ask : ω → β × ω} {f : β → Owning κ ω ε α}
    (hgiven : ∀ h ∈ given, h ∈ own) (hf : ∀ b, Owns own (f b) Q) :
    Owns own (useHandles given ask >>= f) Q := by
  refine Owns.andThen (fun r kept => (∃ b, r = .ok b) ∧ kept = own)
    (owns_use hgiven fun b => ⟨⟨⟨b, rfl⟩, rfl⟩, rfl⟩) ?_ ?_
  · rintro b kept ⟨-, rfl⟩
    exact hf b
  · rintro e kept ⟨⟨b, hb⟩, -⟩
    cases hb

/-- Going on after a call that makes a handle. -/
theorem owns_make_bind {given : List (Handle κ)} {kind : κ} {ask : ω → Bool × ω}
    {f : Option (Handle κ) → Owning κ ω ε α} (hgiven : ∀ h ∈ given, h ∈ own)
    (hnull : Owns own (f none) Q)
    (hmade : ∀ h, h.kind = kind → h ∉ own → Owns (h :: own) (f (some h)) Q) :
    Owns own (makeHandle given kind ask >>= f) Q := by
  refine Owns.andThen (fun r kept => r = .ok none ∧ kept = own ∨
    ∃ h, r = .ok (some h) ∧ kept = h :: own ∧ h.kind = kind ∧ h ∉ own)
    (owns_make hgiven ⟨.inl ⟨rfl, rfl⟩, rfl⟩ fun h hkind hnew =>
      ⟨.inr ⟨h, rfl, rfl, hkind, hnew⟩, rfl⟩) ?_ ?_
  · rintro b kept (⟨hb, rfl⟩ | ⟨h, hb, rfl, hkind, hnew⟩)
    · cases hb
      exact hnull
    · cases hb
      exact hmade h hkind hnew
  · rintro e kept (⟨he, -⟩ | ⟨h, he, -⟩) <;> cases he

/-- Going on after a handle was given back. -/
theorem owns_free_bind {h : Handle κ} {update : ω → ω} {f : Unit → Owning κ ω ε α} (hown : h ∈ own)
    (hf : Owns (own.erase h) (f ()) Q) : Owns own (freeHandle h update >>= f) Q := by
  refine Owns.andThen (fun r kept => r = .ok () ∧ kept = own.erase h)
    (owns_free hown ⟨⟨rfl, rfl⟩, rfl⟩) ?_ ?_
  · rintro b kept ⟨-, rfl⟩
    exact hf
  · rintro e kept ⟨he, -⟩
    cases he

end

end ProofLib
