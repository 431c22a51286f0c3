import Mathlib.Data.List.Basic

/-!
# Filling the placeholders of a template

A template is a list in which one element, the hole, marks the places to fill. `fillPositional`
puts the i-th block in the i-th hole. `fillInTurn` replaces, for one block after the other, the
first hole of the text as it then is, so that it also looks into the blocks it has already put
there. `fill_in_turn_eq_iff` says exactly when both give the same text.
-/

namespace ProofLib

variable {α : Type*} [DecidableEq α]

/-- Replace the first hole, if there is one. -/
def replaceFirst (hole : α) (block : List α) : List α → List α
  | [] => []
  | a :: rest => if a = hole then block ++ rest else a :: replaceFirst hole block rest

/-- Replace the first hole of the text once for each block in turn. -/
def fillInTurn (hole : α) (text : List α) (blocks : List (List α)) : List α :=
  blocks.foldl (fun text block => replaceFirst hole block text) text

/-- Put the i-th block in the i-th hole of the template. -/
def fillPositional (hole : α) : List α → List (List α) → List α
  | [], _ => []
  | a :: rest, blocks =>
      if a = hole then
        match blocks with
        | [] => a :: fillPositional hole rest []
        | block :: blocks => block ++ fillPositional hole rest blocks
      else a :: fillPositional hole rest blocks

variable {hole : α}

/-- A part without a hole is passed over. -/
theorem replace_first_append {front : List α} (h : hole ∉ front) (block rest : List α) :
    replaceFirst hole block (front ++ rest) = front ++ replaceFirst hole block rest := by
  induction front with
  | nil => rfl
  | cons a front ih =>
      have ha : a ≠ hole := fun heq => h (heq ▸ List.mem_cons_self)
      have hfront : hole ∉ front := fun hm => h (List.mem_cons_of_mem a hm)
      simp [replaceFirst, ha, ih hfront]

/-- The hole itself is replaced. -/
theorem replace_first_hole (block rest : List α) :
    replaceFirst hole block (hole :: rest) = block ++ rest := by
  simp [replaceFirst]

/-- Every later replacement passes over a part without a hole. -/
theorem fill_in_turn_append {front : List α} (h : hole ∉ front) (rest : List α)
    (blocks : List (List α)) :
    fillInTurn hole (front ++ rest) blocks = front ++ fillInTurn hole rest blocks := by
  induction blocks generalizing rest with
  | nil => rfl
  | cons block blocks ih =>
      have hstep : replaceFirst hole block (front ++ rest) =
          front ++ replaceFirst hole block rest := replace_first_append h block rest
      simpa [fillInTurn, hstep] using ih (replaceFirst hole block rest)

/-- A part without a hole stays as it is. -/
theorem fill_positional_append {front : List α} (h : hole ∉ front) (rest : List α)
    (blocks : List (List α)) :
    fillPositional hole (front ++ rest) blocks = front ++ fillPositional hole rest blocks := by
  induction front with
  | nil => rfl
  | cons a front ih =>
      have ha : a ≠ hole := fun heq => h (heq ▸ List.mem_cons_self)
      have hfront : hole ∉ front := fun hm => h (List.mem_cons_of_mem a hm)
      simp [fillPositional, ha, ih hfront]

/-- Filling a text without holes changes nothing. -/
theorem fill_positional_of_not_mem {text : List α} (h : hole ∉ text) (blocks : List (List α)) :
    fillPositional hole text blocks = text := by
  have happend := fill_positional_append h [] blocks
  simpa [fillPositional] using happend

/-- Filling in turn agrees with filling by position exactly when no block but the last contains a
hole, provided that there are as many blocks as holes and no block begins with a hole. -/
theorem fill_in_turn_eq_iff {template : List α} {blocks : List (List α)}
    (hcount : template.count hole = blocks.length)
    (hstart : ∀ block ∈ blocks, ∃ a tail, block = a :: tail ∧ a ≠ hole) :
    fillInTurn hole template blocks = fillPositional hole template blocks ↔
      ∀ block ∈ blocks.dropLast, hole ∉ block := by
  induction blocks generalizing template with
  | nil =>
      have hmem : hole ∉ template := List.count_eq_zero.mp hcount
      simp [fillInTurn, fill_positional_of_not_mem hmem]
  | cons block blocks ih =>
      have hmem : hole ∈ template := List.count_pos_iff.mp (by simp [hcount])
      obtain ⟨front, rest, rfl, hfront⟩ := List.eq_append_cons_of_mem hmem
      have hrest : rest.count hole = blocks.length := by
        simpa [List.count_append, List.count_eq_zero.mpr hfront] using hcount
      have hturn : fillInTurn hole (front ++ hole :: rest) (block :: blocks) =
          front ++ fillInTurn hole (block ++ rest) blocks := by
        rw [fill_in_turn_append hfront]
        simp [fillInTurn, replace_first_hole]
      have hpos : fillPositional hole (front ++ hole :: rest) (block :: blocks) =
          front ++ (block ++ fillPositional hole rest blocks) := by
        rw [fill_positional_append hfront]
        simp [fillPositional]
      rw [hturn, hpos, List.append_cancel_left_eq]
      have hstart' := fun b hb => hstart b (List.mem_cons_of_mem block hb)
      by_cases hblock : hole ∈ block
      · cases blocks with
        | nil =>
            have hnone : hole ∉ rest := List.count_eq_zero.mp hrest
            simp [fillInTurn, fill_positional_of_not_mem hnone]
        | cons next blocks =>
            -- the next block lands in the hole of this one, and begins with something else
            obtain ⟨front', rest', rfl, hfront'⟩ := List.eq_append_cons_of_mem hblock
            obtain ⟨a, tail, hnext, ha⟩ := hstart next (by simp)
            refine iff_of_false ?_ ?_
            · rw [List.append_assoc, fill_in_turn_append hfront', List.append_assoc,
                List.append_cancel_left_eq]
              have hlanded : fillInTurn hole ((hole :: rest') ++ rest) (next :: blocks) =
                  a :: fillInTurn hole (tail ++ (rest' ++ rest)) blocks := by
                have hsingle : hole ∉ [a] := by simpa using Ne.symm ha
                have := fill_in_turn_append hsingle (tail ++ (rest' ++ rest)) blocks
                simpa [fillInTurn, replaceFirst, hnext] using this
              rw [hlanded]
              simp [ha]
            · intro hall
              exact hall (front' ++ hole :: rest') (by simp) hblock
      · rw [fill_in_turn_append hblock, List.append_cancel_left_eq, ih hrest hstart']
        cases blocks with
        | nil => simp
        | cons next blocks => simp [hblock]

end ProofLib
