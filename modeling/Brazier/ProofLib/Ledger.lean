import Mathlib.Data.List.DropRight
import Mathlib.Algebra.Order.Group.Defs
import Mathlib.Algebra.Module.NatInt
import Mathlib.Tactic.Abel

/-!
# Ledgers that are swept from the back

Items enter at the front of a list and are swept from its back once they have expired. A `Ledger`
remembers everything that ever entered and the moment of the last sweep, so that what a store
still holds is a function of its history (`Ledger.kept`). `rdropWhile_kept` says that popping
expired items off the back of what is held is one sweep of the ledger. `length_nsmul_le` bounds
the length of a list whose entries are spaced.
-/

namespace ProofLib

/-! ## Filtering a list whose tail satisfies a predicate -/

/-- Dropping from the back stops at the latest at an entry that does not satisfy the predicate. -/
theorem rdropWhile_cons_of_neg {κ : Type*} {p : κ → Bool} {k : κ} {rest : List κ}
    (h : p k = false) : (k :: rest).rdropWhile p = k :: rest.rdropWhile p := by
  simp only [List.rdropWhile, List.reverse_cons, List.dropWhile_append]
  by_cases hnil : List.dropWhile p rest.reverse = []
  · simp [hnil, h]
  · simp [hnil]

/-- Where the satisfying entries form a suffix, dropping them from the back is filtering. -/
theorem rdropWhile_eq_filter {κ : Type*} {p : κ → Bool} {l : List κ}
    (h : l.Pairwise (fun newer older => p newer = true → p older = true)) :
    l.rdropWhile p = l.filter (fun k => !p k) := by
  induction l with
  | nil => simp
  | cons k rest ih =>
      obtain ⟨hk, hrest⟩ := List.pairwise_cons.mp h
      cases hp : p k with
      | true =>
          have hall : ∀ x ∈ k :: rest, p x = true := by
            intro x hx
            rcases List.mem_cons.mp hx with rfl | hx
            · exact hp
            · exact hk x hx hp
          rw [List.rdropWhile_eq_nil_iff.mpr hall, eq_comm, List.filter_eq_nil_iff]
          intro x hx
          simp [hall x hx]
      | false =>
          rw [rdropWhile_cons_of_neg hp, ih hrest]
          simp [hp]

/-- The first match among the surviving entries is the first match, provided it survives. -/
theorem find_filter_eq {κ : Type*} {p q : κ → Bool} {l : List κ}
    (h : l.Pairwise (fun newer older => p newer = true → p older = true)) :
    (l.filter (fun k => !p k)).find? q = (l.find? q).filter (fun k => !p k) := by
  induction l with
  | nil => rfl
  | cons k rest ih =>
      obtain ⟨hk, hrest⟩ := List.pairwise_cons.mp h
      cases hp : p k with
      | true =>
          have hall : ∀ x ∈ k :: rest, p x = true := by
            intro x hx
            rcases List.mem_cons.mp hx with rfl | hx
            · exact hp
            · exact hk x hx hp
          have hnil : (k :: rest).filter (fun k => !p k) = [] := by
            rw [List.filter_eq_nil_iff]
            intro x hx
            simp [hall x hx]
          rw [hnil, List.find?_nil, eq_comm, Option.filter_eq_none_iff]
          intro x hx
          simp [hall x (List.mem_of_find?_eq_some hx)]
      | false =>
          cases hq : q k with
          | true => simp [hp, hq, Option.filter]
          | false => simpa [hp, hq] using ih hrest

/-! ## Ledgers -/

/-- Everything that ever entered, newest first, and the moment of the last sweep. -/
structure Ledger (κ τ : Type*) where
  entered : List κ
  sweptAt : Option τ

/-- When an item has expired. An expired item stays expired. -/
structure Expiry (κ τ : Type*) [LE τ] where
  expired : τ → κ → Bool
  mono : ∀ {s t : τ} {k : κ}, s ≤ t → expired s k = true → expired t k = true

namespace Ledger

variable {κ τ : Type*}

/-- The ledger of a store into which nothing was put. -/
def empty : Ledger κ τ := ⟨[], none⟩

/-- Put an item in front. -/
def enter (l : Ledger κ τ) (k : κ) : Ledger κ τ := { l with entered := k :: l.entered }

/-- Record a sweep. -/
def sweep (l : Ledger κ τ) (t : τ) : Ledger κ τ := { l with sweptAt := some t }

@[simp] theorem entered_enter (l : Ledger κ τ) (k : κ) :
    (l.enter k).entered = k :: l.entered := rfl

@[simp] theorem entered_sweep (l : Ledger κ τ) (t : τ) : (l.sweep t).entered = l.entered := rfl

@[simp] theorem sweptAt_sweep (l : Ledger κ τ) (t : τ) : (l.sweep t).sweptAt = some t := rfl

variable [LE τ]

/-- The item had expired when the ledger was last swept. -/
def swept (e : Expiry κ τ) (l : Ledger κ τ) (k : κ) : Bool :=
  match l.sweptAt with
  | none => false
  | some t => e.expired t k

/-- What is still held: every entered item that no sweep has removed. -/
def kept (e : Expiry κ τ) (l : Ledger κ τ) : List κ :=
  l.entered.filter (fun k => !l.swept e k)

/-- Newer items expire later. -/
def Ordered (e : Expiry κ τ) (items : List κ) : Prop :=
  items.Pairwise (fun newer older => ∀ t, e.expired t newer = true → e.expired t older = true)

variable {e : Expiry κ τ} {l : Ledger κ τ}

/-- Sweeping respects the order of the items. -/
theorem Ordered.swept {items : List κ} (h : Ordered e items) :
    items.Pairwise (fun newer older => l.swept e newer = true → l.swept e older = true) := by
  refine h.imp ?_
  intro newer older hexp
  unfold Ledger.swept
  cases l.sweptAt with
  | none => exact id
  | some t => exact hexp t

/-- An item is held exactly when it entered and no sweep found it expired. -/
theorem mem_kept {k : κ} : k ∈ l.kept e ↔ k ∈ l.entered ∧ l.swept e k = false := by
  simp [kept]

/-- The first held item of a kind is the newest entered one of that kind, unless it was swept. -/
theorem find_kept (h : Ordered e l.entered) (q : κ → Bool) :
    (l.kept e).find? q = (l.entered.find? q).filter (fun k => !l.swept e k) :=
  find_filter_eq h.swept

/-- Putting an item in front of what is held and popping the expired items off the back is
entering the item and sweeping, provided the clock has not gone back since the last sweep. -/
theorem rdropWhile_kept {k : κ} {t : τ} (h : Ordered e (k :: l.entered))
    (hlast : ∀ s, l.sweptAt = some s → s ≤ t) :
    (k :: l.kept e).rdropWhile (e.expired t) = ((l.enter k).sweep t).kept e := by
  have hsub : (k :: l.kept e).Sublist (k :: l.entered) :=
    List.Sublist.cons_cons k List.filter_sublist
  have hord : (k :: l.kept e).Pairwise
      (fun newer older => e.expired t newer = true → e.expired t older = true) :=
    (h.sublist hsub).imp (fun hexp => hexp t)
  rw [rdropWhile_eq_filter hord]
  have hfilter : (l.kept e).filter (fun k => !e.expired t k) =
      l.entered.filter (fun k => !e.expired t k) := by
    rw [kept, List.filter_filter]
    refine List.filter_congr ?_
    intro x _
    cases ht : e.expired t x with
    | true => rfl
    | false =>
        unfold swept
        cases hs : l.sweptAt with
        | none => rfl
        | some s =>
            cases hx : e.expired s x with
            | false => simp [hx]
            | true => simp [e.mono (hlast s hs) hx] at ht
  calc (k :: l.kept e).filter (fun k => !e.expired t k)
      = (k :: l.entered).filter (fun k => !e.expired t k) := by
        rw [List.filter_cons, List.filter_cons, hfilter]
    _ = ((l.enter k).sweep t).kept e := rfl

end Ledger

/-! ## Spaced entries -/

/-- Entries that lie in an interval and are pairwise at least `gap` apart are few. -/
theorem length_nsmul_le {κ τ : Type*} [AddCommGroup τ] [LinearOrder τ] [IsOrderedAddMonoid τ]
    {f : κ → τ} {gap lo hi : τ} {l : List κ} (hpos : 0 ≤ gap) (hle : lo ≤ hi)
    (hgap : l.Pairwise (fun newer older => f older + gap ≤ f newer))
    (hlo : ∀ k ∈ l, lo ≤ f k) (hhi : ∀ k ∈ l, f k ≤ hi) :
    l.length • gap ≤ hi - lo + gap := by
  induction l generalizing hi with
  | nil =>
      have hspan : 0 ≤ hi - lo := sub_nonneg.mpr hle
      simpa using add_nonneg hspan hpos
  | cons k rest ih =>
      obtain ⟨hk, hrest⟩ := List.pairwise_cons.mp hgap
      have hspan : rest.length • gap ≤ hi - lo := by
        cases rest with
        | nil => simpa using hle
        | cons x rest =>
            -- the rest lies below the newest entry by one gap
            have hbelow : ∀ y ∈ x :: rest, f y ≤ hi - gap := by
              intro y hy
              exact le_sub_iff_add_le.mpr ((hk y hy).trans (hhi k List.mem_cons_self))
            have hroom : lo ≤ hi - gap :=
              (hlo x (by simp)).trans (hbelow x List.mem_cons_self)
            have h := ih hroom hrest (fun y hy => hlo y (List.mem_cons_of_mem k hy)) hbelow
            rwa [show hi - gap - lo + gap = hi - lo by abel] at h
      rw [List.length_cons, succ_nsmul]
      exact add_le_add_left hspan gap

end ProofLib
