import Mathlib.Data.List.DropRight

/-!
# Trimming

What is left of a list when the elements of some kind are dropped at both ends. `trim_padded` finds
the list again that was padded, and `mem_trim` says that no other elements are lost.
-/

namespace ProofLib

universe u

variable {σ : Type u} {p : σ → Bool}

/-- Drop the elements of a kind at the end. -/
abbrev trimEnd (p : σ → Bool) (items : List σ) : List σ := items.rdropWhile p

/-- Drop the elements of a kind at both ends. -/
def trim (p : σ → Bool) (items : List σ) : List σ := trimEnd p (items.dropWhile p)

/-- Nothing behind an element of another kind is dropped in front of it. -/
theorem trimEnd_append_cons {c : σ} (hc : p c = false) (front back : List σ) :
    trimEnd p (front ++ c :: back) = front ++ c :: trimEnd p back := by
  have hsplit : ∀ rest : List σ, (rest ++ c :: front.reverse).dropWhile p =
      rest.dropWhile p ++ c :: front.reverse := by
    intro rest
    induction rest with
    | nil => exact List.dropWhile_cons_of_neg (by simp [hc])
    | cons d rest ih =>
        cases hd : p d with
        | false => simp [hd]
        | true => simpa [hd] using ih
  rw [trimEnd, List.rdropWhile, List.reverse_append, List.reverse_cons, List.append_assoc,
    List.singleton_append, hsplit]
  simp [List.rdropWhile]

/-- Elements of the kind at the end are dropped. -/
theorem trimEnd_append {back : List σ} (hback : ∀ c ∈ back, p c = true) (items : List σ) :
    trimEnd p (items ++ back) = trimEnd p items := by
  induction back using List.reverseRecOn with
  | nil => rw [List.append_nil]
  | append_singleton back c ih =>
      rw [List.forall_mem_append, List.forall_mem_singleton] at hback
      rw [← List.append_assoc, trimEnd, List.rdropWhile_concat_pos _ _ _ hback.2]
      exact ih hback.1

/-- A list that ends with an element of another kind stays as it is. -/
theorem trimEnd_eq_self {items : List σ} (hlast : ∀ c ∈ items.getLast?, p c = false) :
    trimEnd p items = items := by
  refine List.rdropWhile_eq_self_iff.mpr fun hne => ?_
  rw [hlast _ (List.getLast?_eq_some_getLast hne)]
  exact Bool.false_ne_true

/-- A list that begins with an element of another kind stays as it is. -/
theorem dropWhile_eq_self {items : List σ} (hhead : ∀ c ∈ items.head?, p c = false) :
    items.dropWhile p = items := by
  cases items with
  | nil => rfl
  | cons c items => rw [List.dropWhile_cons_of_neg (by rw [hhead c rfl]; exact Bool.false_ne_true)]

/-- The end may be trimmed before. -/
theorem trim_trimEnd (p : σ → Bool) (items : List σ) : trim p (trimEnd p items) = trim p items := by
  have hend : ∀ c ∈ items.rtakeWhile p, p c = true := fun c hc => List.mem_rtakeWhile_imp hc
  have hsplit : trimEnd p items ++ items.rtakeWhile p = items := List.rdropWhile_append_rtakeWhile
  conv => rhs; rw [← hsplit]
  rw [trim, trim, List.dropWhile_append]
  split
  · next hnil =>
      rw [List.isEmpty_iff.mp hnil, List.dropWhile_eq_nil_iff.mpr hend]
  · exact (trimEnd_append hend _).symm

/-- The list that was padded. -/
theorem trim_padded {front items back : List σ} (hfront : ∀ c ∈ front, p c = true)
    (hback : ∀ c ∈ back, p c = true) (hhead : ∀ c ∈ items.head?, p c = false)
    (hlast : ∀ c ∈ items.getLast?, p c = false) : trim p (front ++ (items ++ back)) = items := by
  rw [trim, List.dropWhile_append_of_pos hfront]
  cases items with
  | nil =>
      rw [List.nil_append, List.dropWhile_eq_nil_iff.mpr hback]
      exact List.rdropWhile_nil p
  | cons c items =>
      rw [dropWhile_eq_self (by simpa using hhead c rfl), trimEnd_append hback,
        trimEnd_eq_self hlast]

/-- A list without elements of the kind stays as it is. -/
theorem trim_eq_self {items : List σ} (h : ∀ c ∈ items, p c = false) : trim p items = items := by
  rw [trim, dropWhile_eq_self fun c hc => h c (List.mem_of_mem_head? hc),
    trimEnd_eq_self fun c hc => h c (List.mem_of_mem_getLast? hc)]

/-- An element of another kind is not lost. -/
theorem mem_trim {c : σ} (hc : p c = false) {items : List σ} (h : c ∈ items) :
    c ∈ trim p items := by
  obtain ⟨front, back, rfl⟩ := List.append_of_mem h
  have hdrop : ∃ kept, (front ++ c :: back).dropWhile p = kept ++ c :: back := by
    induction front with
    | nil => exact ⟨[], List.dropWhile_cons_of_neg (by simp [hc])⟩
    | cons d front ih =>
        cases hd : p d with
        | false => exact ⟨d :: front, by simp [hd]⟩
        | true =>
            obtain ⟨kept, hkept⟩ := ih (by simp)
            exact ⟨kept, by simpa [hd] using hkept⟩
  obtain ⟨kept, hkept⟩ := hdrop
  rw [trim, hkept, trimEnd_append_cons hc]
  simp

/-- Nothing is found that was not there. -/
theorem of_mem_trim {c : σ} {items : List σ} (h : c ∈ trim p items) : c ∈ items :=
  (List.dropWhile_sublist p).subset ((List.rdropWhile_prefix p _).subset h)

end ProofLib
