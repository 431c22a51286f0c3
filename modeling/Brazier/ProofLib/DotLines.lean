import Brazier.ProofLib.Lines
import Mathlib.Data.List.TakeWhile

/-!
# Lines up to a dot

Mail data are the lines in front of the first line that is a single dot, and a reader removes the
first dot of every line that begins with one. `decoded_eq_iff` says which texts can be sent as they
are, with a dot behind them, and `beyond_append` what is left for the reader after the data.
-/

namespace ProofLib

namespace Lines

/-- A line without its first dot. -/
def unstuff : List Char → List Char
  | '.' :: rest => rest
  | line => line

/-- The lines in front of the first line that is a dot. -/
def dataLines (lines : List (List Char)) : List (List Char) :=
  lines.takeWhile (fun line => line ≠ ['.'])

/-- The text that a reader makes of some lines. -/
def received (lines : List (List Char)) : List Char := unlines ((dataLines lines).map unstuff)

/-- The text that a reader makes of a stream. -/
def decoded (stream : List Char) : List Char := received (lines stream)

/-- What stands behind the first line that is a dot. -/
def beyond (stream : List Char) : List Char :=
  unlines (((lines stream).dropWhile (fun line => line ≠ ['.'])).drop 1) ++ (cut stream).2

/-- The line begins with a dot. -/
def Dotted (line : List Char) : Prop := line.head? = some '.'

instance : DecidablePred Dotted := fun _ => inferInstanceAs (Decidable (_ = _))

theorem unstuff_of_not_dotted {line : List Char} (h : ¬ Dotted line) : unstuff line = line := by
  unfold unstuff
  split
  · exact absurd rfl h
  · rfl

theorem length_unstuff {line : List Char} (h : Dotted line) :
    (unstuff line).length + 1 = line.length := by
  cases line with
  | nil => cases h
  | cons c rest =>
      obtain rfl : c = '.' := Option.some.inj h
      rfl

@[simp] theorem unlines_cons (line : List Char) (rest : List (List Char)) :
    unlines (line :: rest) = line ++ crlf ++ unlines rest := rfl

theorem unlines_append (first second : List (List Char)) :
    unlines (first ++ second) = unlines first ++ unlines second := by
  simp [unlines]

/-- The text of some lines has ended. -/
theorem ended_unlines (lines : List (List Char)) : Ended (unlines lines) := by
  induction lines with
  | nil => rfl
  | cons line rest ih => exact (ended_crlf line).append ih

/-- Lines that were written are read again. -/
theorem lines_unlines {lines : List (List Char)} (h : ∀ line ∈ lines, Unbroken line) :
    Lines.lines (unlines lines) = lines := by
  induction lines with
  | nil => rfl
  | cons line rest ih =>
      rw [List.forall_mem_cons] at h
      rw [unlines_cons, lines_line h.1, ih h.2]

/-- There are at least as many lines as were written. -/
theorem length_le_lines_unlines (lines : List (List Char)) :
    lines.length ≤ (Lines.lines (unlines lines)).length := by
  induction lines with
  | nil => exact Nat.zero_le _
  | cons line rest ih =>
      have hfirst : 0 < (Lines.lines (line ++ crlf)).length :=
        List.length_pos_of_ne_nil (lines_ne_nil (ended_crlf line) (by simp [crlf]))
      rw [unlines_cons, lines_append (ended_crlf line), List.length_append, List.length_cons]
      omega

/-- Lines are read as they were written exactly when none of them has a line end. -/
theorem lines_unlines_iff {lines : List (List Char)} :
    Lines.lines (unlines lines) = lines ↔ ∀ line ∈ lines, Unbroken line := by
  refine ⟨fun h => ?_, lines_unlines⟩
  induction lines with
  | nil => exact List.forall_mem_nil _
  | cons line rest ih =>
      rw [unlines_cons, lines_append (ended_crlf line)] at h
      have hrest := length_le_lines_unlines rest
      have hlength := congrArg List.length h
      rw [List.length_append, List.length_cons] at hlength
      have hfirst : 0 < (Lines.lines (line ++ crlf)).length :=
        List.length_pos_of_ne_nil (lines_ne_nil (ended_crlf line) (by simp [crlf]))
      -- the line was read as one, so the others were read as they are
      have hone : (Lines.lines (line ++ crlf)).length = [line].length := by
        rw [List.length_singleton]
        omega
      obtain ⟨hline, hothers⟩ := List.append_inj h hone
      exact List.forall_mem_cons.mpr ⟨lines_crlf_iff.mp hline, ih hothers⟩

/-! ## What is received -/

theorem received_cons {line : List Char} (h : line ≠ ['.']) (rest : List (List Char)) :
    received (line :: rest) = unstuff line ++ crlf ++ received rest := by
  have htake : dataLines (line :: rest) = line :: dataLines rest :=
    List.takeWhile_cons_of_pos (decide_eq_true h)
  unfold received
  rw [htake]
  rfl

theorem received_dot (rest : List (List Char)) : received (['.'] :: rest) = [] := rfl

/-- What stands behind a dot is not received. -/
theorem received_append_dot (lines more : List (List Char)) :
    received (lines ++ ['.'] :: more) = received lines := by
  induction lines with
  | nil => exact received_dot more
  | cons line rest ih =>
      rw [List.cons_append]
      by_cases hdot : line = ['.']
      · rw [hdot, received_dot, received_dot]
      · rw [received_cons hdot, received_cons hdot, ih]

/-- Lines that do not begin with a dot are received as they are. -/
theorem received_of_undotted {lines : List (List Char)} (h : ∀ line ∈ lines, ¬ Dotted line) :
    received lines = unlines lines := by
  induction lines with
  | nil => rfl
  | cons line rest ih =>
      rw [List.forall_mem_cons] at h
      have hdot : line ≠ ['.'] := by
        intro heq
        exact h.1 (heq ▸ rfl)
      rw [received_cons hdot, unstuff_of_not_dotted h.1, ih h.2, unlines_cons]

/-- No more is received than was sent. -/
theorem length_received_le (lines : List (List Char)) :
    (received lines).length ≤ (unlines lines).length := by
  induction lines with
  | nil => exact le_rfl
  | cons line rest ih =>
      by_cases hdot : line = ['.']
      · rw [hdot, received_dot]
        exact Nat.zero_le _
      · have hline : (unstuff line).length ≤ line.length := by
          by_cases hdotted : Dotted line
          · have := length_unstuff hdotted
            omega
          · rw [unstuff_of_not_dotted hdotted]
        rw [received_cons hdot, unlines_cons]
        simp only [List.length_append]
        omega

/-- Less is received when a line begins with a dot. -/
theorem length_received_lt {lines : List (List Char)} (h : ∃ line ∈ lines, Dotted line) :
    (received lines).length < (unlines lines).length := by
  induction lines with
  | nil =>
      obtain ⟨line, hmem, -⟩ := h
      cases hmem
  | cons line rest ih =>
      have hle := length_received_le rest
      by_cases hdot : line = ['.']
      · rw [hdot, received_dot, unlines_cons]
        simp
      · rw [received_cons hdot, unlines_cons]
        simp only [List.length_append]
        by_cases hdotted : Dotted line
        · have := length_unstuff hdotted
          omega
        · obtain ⟨other, hmem, hother⟩ := h
          have hrest : other ∈ rest := by
            obtain heq | hrest := List.mem_cons.mp hmem
            · exact absurd (heq ▸ hother) hdotted
            · exact hrest
          have := ih ⟨other, hrest, hother⟩
          rw [unstuff_of_not_dotted hdotted]
          omega

/-- A dot behind a text that has ended. -/
theorem lines_dot {text : List Char} (h : Ended text) (more : List Char) :
    lines (text ++ '.' :: (crlf ++ more)) = lines text ++ ['.'] :: lines more := by
  have hdot : Unbroken ['.'] := rfl
  rw [lines_append h]
  exact congrArg (fun rest => lines text ++ rest) (lines_line hdot more)

/-- A text that has ended is received as it was sent exactly when none of its lines begins with a
dot. -/
theorem decoded_eq_iff {text : List Char} (h : Ended text) (more : List Char) :
    decoded (text ++ '.' :: (crlf ++ more)) = text ↔ ∀ line ∈ lines text, ¬ Dotted line := by
  rw [decoded, lines_dot h, received_append_dot]
  constructor
  · intro heq line hmem hdotted
    have hlt := length_received_lt ⟨line, hmem, hdotted⟩
    rw [heq, unlines_lines h] at hlt
    omega
  · intro hall
    rw [received_of_undotted hall, unlines_lines h]

/-! ## What is left -/

/-- What stands behind the last of several dots stands behind the first of them. -/
theorem drop_to_dot (lines more : List (List Char)) :
    ∃ between, ((lines ++ ['.'] :: more).dropWhile (fun line => line ≠ ['.'])).drop 1 =
      between ++ more := by
  induction lines with
  | nil => exact ⟨[], rfl⟩
  | cons line rest ih =>
      rw [List.cons_append]
      by_cases hdot : line = ['.']
      · rw [hdot]
        exact ⟨rest ++ [['.']], (List.append_cons rest ['.'] more)⟩
      · rw [List.dropWhile_cons_of_pos (by simpa using hdot)]
        exact ih

/-- A dot behind a text that has ended does not change what stands behind the last line. -/
theorem cut_dot {text : List Char} (h : Ended text) (more : List Char) :
    (cut (text ++ '.' :: (crlf ++ more))).2 = (cut more).2 := by
  have hended : Ended (text ++ ('.' :: crlf)) := h.append rfl
  have hassoc : text ++ '.' :: (crlf ++ more) = text ++ ('.' :: crlf) ++ more := by
    simp
  rw [hassoc, cut_append hended]

/-- After the data a reader finds all that stands behind the last dot, and whole lines in front of
that when there is an earlier dot. -/
theorem beyond_append {text : List Char} (h : Ended text) (more : List Char) :
    ∃ before, Ended before ∧ beyond (text ++ '.' :: (crlf ++ more)) = before ++ more := by
  obtain ⟨between, hbetween⟩ := drop_to_dot (lines text) (lines more)
  refine ⟨unlines between, ended_unlines between, ?_⟩
  rw [beyond, lines_dot h, hbetween, cut_dot h, unlines_append, List.append_assoc]
  exact congrArg (unlines between ++ ·) (unlines_cut more)

/-- After data without a line that begins with a dot a reader finds what stands behind the dot. -/
theorem beyond_of_undotted {text : List Char} (h : Ended text)
    (hundotted : ∀ line ∈ lines text, ¬ Dotted line) (more : List Char) :
    beyond (text ++ '.' :: (crlf ++ more)) = more := by
  have hskip : ∀ line ∈ lines text, decide (line ≠ ['.']) = true := by
    intro line hline
    refine decide_eq_true fun heq => hundotted line hline ?_
    rw [heq]
    rfl
  rw [beyond, lines_dot h, cut_dot h, List.dropWhile_append_of_pos hskip,
    List.dropWhile_cons_of_neg (by simp), List.drop_one, List.tail_cons]
  exact unlines_cut more

end Lines

end ProofLib
