import Mathlib.Data.List.Basic

/-!
# A list of machines

The state of many machines of one kind is a list, and a step of the machine at a place is
`List.modify`. The lemmas say what such a step does to a property of all machines and to the
number of machines that are in some kind of state.
-/

namespace ProofLib

variable {σ : Type*}

/-- What another machine does. -/
theorem getElem?_modify_of_ne {machines : List σ} {i j : Nat} (f : σ → σ) (h : i ≠ j) :
    (machines.modify i f)[j]? = machines[j]? := by
  rw [List.getElem?_modify_ne f machines h]

/-- A property of all machines after a step of one. -/
theorem forall_mem_modify {P : σ → Prop} {machines : List σ} {i : Nat} {f : σ → σ}
    (hall : ∀ m ∈ machines, P m) :
    (∀ m ∈ machines.modify i f, P m) ↔ ∀ m, machines[i]? = some m → P (f m) := by
  constructor
  · intro h m hm
    refine h (f m) (List.mem_iff_getElem?.mpr ⟨i, ?_⟩)
    rw [List.getElem?_modify_eq, hm]
    rfl
  · intro h m hm
    obtain ⟨j, hj⟩ := List.mem_iff_getElem?.mp hm
    by_cases hij : i = j
    · subst hij
      rw [List.getElem?_modify_eq] at hj
      obtain ⟨m', hm', rfl⟩ := Option.map_eq_some_iff.mp hj
      exact h m' hm'
    · rw [getElem?_modify_of_ne f hij] at hj
      exact hall m (List.mem_iff_getElem?.mpr ⟨j, hj⟩)

/-- A property that the step of a machine keeps. -/
theorem forall_mem_modify_of_keeps {P : σ → Prop} {machines : List σ} (i : Nat) {f : σ → σ}
    (hf : ∀ m, P m → P (f m)) (hall : ∀ m ∈ machines, P m) : ∀ m ∈ machines.modify i f, P m :=
  (forall_mem_modify hall).mpr fun m hm => hf m (hall m (List.mem_of_getElem? hm))

/-- A property that the step of a machine neither gives nor takes. -/
theorem forall_mem_modify_iff {P : σ → Prop} {f : σ → σ} (hf : ∀ m, P (f m) ↔ P m)
    (machines : List σ) (i : Nat) :
    (∀ m ∈ machines.modify i f, P m) ↔ ∀ m ∈ machines, P m := by
  induction machines generalizing i with
  | nil => rw [List.modify_nil]
  | cons m rest ih =>
      cases i with
      | zero => simp only [List.modify_zero_cons, List.forall_mem_cons, hf]
      | succ i => simp only [List.modify_succ_cons, List.forall_mem_cons, ih]

/-- The last machine is set to a state. -/
theorem set_length_append (machines : List σ) (m m' : σ) :
    (machines ++ [m]).set machines.length m' = machines ++ [m'] := by
  simp

/-- A step of each of some machines. -/
theorem getElem?_foldl_modify {f : σ → σ} {places : List Nat} (hnodup : places.Nodup)
    (machines : List σ) (j : Nat) :
    (places.foldl (fun machines i => machines.modify i f) machines)[j]? =
      machines[j]?.map (fun m => if j ∈ places then f m else m) := by
  induction places generalizing machines with
  | nil => simp
  | cons i places ih =>
      obtain ⟨hi, hrest⟩ := List.nodup_cons.mp hnodup
      rw [List.foldl_cons, ih hrest, List.getElem?_modify]
      cases machines[j]? with
      | none => rfl
      | some m =>
          by_cases hij : i = j
          · subst hij
            simp [hi]
          · simp [hij, Ne.symm hij]

/-- A count after a step of one machine. -/
theorem countP_modify {p : σ → Bool} {machines : List σ} {i : Nat} {m : σ} (f : σ → σ)
    (hm : machines[i]? = some m) :
    (machines.modify i f).countP p + (p m).toNat = machines.countP p + (p (f m)).toNat := by
  obtain ⟨hi, hget⟩ := List.getElem?_eq_some_iff.mp hm
  obtain ⟨before, m', behind, hsplit, hlength, hmodify⟩ := List.exists_of_modify f hi
  obtain rfl : m' = m := by
    subst hlength
    subst hsplit
    simpa using hget
  have htoNat (b : Bool) : b.toNat = if b then 1 else 0 := by cases b <;> rfl
  rw [hmodify, hsplit, htoNat, htoNat]
  simp only [List.countP_append, List.countP_cons]
  omega

/-- A count that the step does not change. -/
theorem countP_modify_of_keeps {p : σ → Bool} (machines : List σ) (i : Nat) {f : σ → σ}
    (hf : ∀ m, p (f m) = p m) : (machines.modify i f).countP p = machines.countP p := by
  cases hm : machines[i]? with
  | none => rw [List.modify_eq_self (List.getElem?_eq_none_iff.mp hm)]
  | some m =>
      have h := countP_modify (p := p) f hm
      rw [hf] at h
      omega

/-- A count after a machine is set to a state. -/
theorem countP_set {p : σ → Bool} {machines : List σ} {i : Nat} {m : σ} (m' : σ)
    (hm : machines[i]? = some m) :
    (machines.set i m').countP p + (p m).toNat = machines.countP p + (p m').toNat := by
  rw [show machines.set i m' = machines.modify i (fun _ => m') from
    List.set_eq_modify m' i machines]
  exact countP_modify (fun _ => m') hm

end ProofLib
