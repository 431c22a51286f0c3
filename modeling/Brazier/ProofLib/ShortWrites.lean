import Mathlib.Data.List.Basic

/-!
# Short writes

A text goes to a device in portions. The device answers for each portion whether it takes all of it
or at most so much of it; after a portion of which something is left nothing more is handed over.
`arrived_eq_flatten_iff` says when the whole text arrives.
-/

namespace ProofLib

variable {α : Type*}

/-- A device that answers so takes all of the portion. -/
def Fits (portion : List α) : Option Nat → Prop
  | none => True
  | some limit => portion.length ≤ limit

instance (portion : List α) : ∀ answer, Decidable (Fits portion answer)
  | none => isTrue trivial
  | some limit => inferInstanceAs (Decidable (portion.length ≤ limit))

/-- Every portion is taken in full. Where the answers end the device takes everything. -/
def Taken : List (List α) → List (Option Nat) → Prop
  | [], _ => True
  | portion :: rest, answers => Fits portion (answers.headD none) ∧ Taken rest answers.tail

/-- What arrives of the portions, and the answers that are left. -/
def arrived : List (List α) → List (Option Nat) → List α × List (Option Nat)
  | [], answers => ([], answers)
  | portion :: rest, answers =>
      match answers.headD none with
      | none =>
          let later := arrived rest answers.tail
          (portion ++ later.1, later.2)
      | some limit =>
          if portion.length ≤ limit then
            let later := arrived rest answers.tail
            (portion ++ later.1, later.2)
          else (portion.take limit, answers.tail)

/-- A portion that is taken in full comes before what arrives of the others. -/
theorem arrived_cons_of_fits {portion : List α} {answers : List (Option Nat)}
    (h : Fits portion (answers.headD none)) (rest : List (List α)) :
    (arrived (portion :: rest) answers).1 = portion ++ (arrived rest answers.tail).1 := by
  rw [arrived]
  cases hanswer : answers.headD none with
  | none => rfl
  | some limit =>
      rw [hanswer] at h
      exact congrArg Prod.fst (if_pos h)

/-- Of the others nothing arrives, and not all of the portion. -/
theorem arrived_cons_of_not_fits {portion : List α} {answers : List (Option Nat)}
    (h : ¬ Fits portion (answers.headD none)) (rest : List (List α)) :
    ∃ limit < portion.length, (arrived (portion :: rest) answers).1 = portion.take limit := by
  rw [arrived]
  cases hanswer : answers.headD none with
  | none =>
      rw [hanswer] at h
      exact absurd trivial h
  | some limit =>
      rw [hanswer] at h
      exact ⟨limit, Nat.lt_of_not_le h, congrArg Prod.fst (if_neg h)⟩

/-- What arrives is the beginning of the text. -/
theorem arrived_prefix (portions : List (List α)) (answers : List (Option Nat)) :
    (arrived portions answers).1 <+: portions.flatten := by
  induction portions generalizing answers with
  | nil => exact List.prefix_rfl
  | cons portion rest ih =>
      rw [List.flatten_cons]
      by_cases h : Fits portion (answers.headD none)
      · rw [arrived_cons_of_fits h]
        exact (List.prefix_append_right_inj portion).mpr (ih answers.tail)
      · obtain ⟨limit, -, htake⟩ := arrived_cons_of_not_fits h rest
        rw [htake]
        exact (List.take_prefix limit portion).trans (List.prefix_append portion _)

/-- The whole text arrives exactly when every portion is taken in full. -/
theorem arrived_eq_flatten_iff (portions : List (List α)) (answers : List (Option Nat)) :
    (arrived portions answers).1 = portions.flatten ↔ Taken portions answers := by
  induction portions generalizing answers with
  | nil => exact iff_of_true rfl trivial
  | cons portion rest ih =>
      rw [List.flatten_cons, Taken]
      by_cases h : Fits portion (answers.headD none)
      · rw [arrived_cons_of_fits h, List.append_cancel_left_eq, ih, and_iff_right h]
      · obtain ⟨limit, hlt, htake⟩ := arrived_cons_of_not_fits h rest
        refine iff_of_false (fun heq => ?_) (fun htaken => h htaken.1)
        have hlength := congrArg List.length (htake.symm.trans heq)
        rw [List.length_take, List.length_append] at hlength
        omega

end ProofLib
