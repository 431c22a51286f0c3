import Mathlib.Data.List.Basic

/-!
# Lines

A text is cut into the lines that end in a carriage return and a line feed, and what stands behind
the last of them. `cut_append` cuts a text behind a line end, and `cut_line` takes a line off.
-/

namespace ProofLib

namespace Lines

/-- The end of a line. -/
def crlf : List Char := ['\r', '\n']

/-- A character in front of a text that is cut. -/
def addChar (c : Char) : List (List Char) × List Char → List (List Char) × List Char
  | ([], rest) => ([], c :: rest)
  | (line :: lines, rest) => ((c :: line) :: lines, rest)

/-- The lines of a text, and what stands behind them. -/
def cut : List Char → List (List Char) × List Char
  | [] => ([], [])
  | '\r' :: '\n' :: rest => ([] :: (cut rest).1, (cut rest).2)
  | c :: rest => addChar c (cut rest)

/-- The lines of a text. -/
def lines (text : List Char) : List (List Char) := (cut text).1

/-- The text is empty or ends with a line end. -/
def Ended (text : List Char) : Prop := (cut text).2 = []

/-- The text has no line end. -/
def Unbroken (text : List Char) : Prop := lines text = []

instance : DecidablePred Ended := fun _ => inferInstanceAs (Decidable (_ = _))

instance : DecidablePred Unbroken := fun _ => inferInstanceAs (Decidable (_ = _))

/-- The text of some lines. -/
def unlines (lines : List (List Char)) : List Char := (lines.map (fun line => line ++ crlf)).flatten

/-! ## Cutting -/

theorem cut_cons {c : Char} {rest : List Char} (h : ∀ rest', c = '\r' → rest ≠ '\n' :: rest') :
    cut (c :: rest) = addChar c (cut rest) := by
  rw [cut]
  exact fun rest' hc hrest => h rest' hc hrest

/-- The same where something stands behind the text. -/
theorem cut_cons_append {c : Char} {text rest : List Char}
    (hc : ∀ text', c = '\r' → text ≠ '\n' :: text')
    (hrest : text = [] → ∀ rest', rest ≠ '\n' :: rest') :
    cut (c :: (text ++ rest)) = addChar c (cut (text ++ rest)) := by
  refine cut_cons fun rest' hreturn hfeed => ?_
  cases text with
  | nil => exact hrest rfl rest' hfeed
  | cons d text => exact hc text hreturn (by rw [(List.cons.inj hfeed).1])

/-- A character in front of a line. -/
theorem addChar_of_ne_nil {c : Char} {found : List (List Char) × List Char} (h : found.1 ≠ []) :
    ∃ line lines, found.1 = line :: lines ∧ addChar c found = ((c :: line) :: lines, found.2) := by
  obtain ⟨lines, rest⟩ := found
  obtain ⟨line, lines, rfl⟩ := List.exists_cons_of_ne_nil h
  exact ⟨line, lines, rfl, rfl⟩

theorem addChar_eq_nil_iff {c : Char} {found : List (List Char) × List Char} :
    (addChar c found).1 = [] ↔ found.1 = [] := by
  obtain ⟨lines, rest⟩ := found
  cases lines with
  | nil => exact Iff.rfl
  | cons line lines => exact iff_of_false (List.cons_ne_nil _ _) (List.cons_ne_nil _ _)

theorem unlines_addChar (c : Char) (found : List (List Char) × List Char) :
    unlines (addChar c found).1 ++ (addChar c found).2 = c :: (unlines found.1 ++ found.2) := by
  obtain ⟨lines, rest⟩ := found
  cases lines with
  | nil => rfl
  | cons line lines => rfl

/-- The lines and what stands behind them make up the text. -/
theorem unlines_cut (text : List Char) : unlines (cut text).1 ++ (cut text).2 = text := by
  fun_induction cut text with
  | case1 => rfl
  | case2 rest ih =>
      show '\r' :: '\n' :: (unlines (cut rest).1 ++ (cut rest).2) = '\r' :: '\n' :: rest
      rw [ih]
  | case3 c rest _ ih =>
      rw [unlines_addChar, ih]

theorem unlines_lines {text : List Char} (h : Ended text) : unlines (lines text) = text := by
  have hall := unlines_cut text
  rwa [h, List.append_nil] at hall

/-- An unbroken text stands behind the lines. -/
theorem cut_unbroken {text : List Char} (h : Unbroken text) : cut text = ([], text) := by
  have hall := unlines_cut text
  rw [show (cut text).1 = [] from h] at hall
  exact Prod.ext h hall

/-- A text that is not empty and ends with a line end has a line. -/
theorem lines_ne_nil {text : List Char} (h : Ended text) (hne : text ≠ []) : lines text ≠ [] := by
  intro hnil
  have hall := unlines_lines h
  rw [hnil] at hall
  exact hne hall.symm

/-- A cut behind a line end. -/
theorem cut_append {text : List Char} (h : Ended text) (rest : List Char) :
    cut (text ++ rest) = (lines text ++ lines rest, (cut rest).2) := by
  rw [lines]
  fun_induction cut text with
  | case1 => rfl
  | case2 text ih =>
      show ([] :: (cut (text ++ rest)).1, (cut (text ++ rest)).2) = _
      rw [ih h]
      rfl
  | case3 c text hc ih =>
      have hended : (addChar c (cut text)).2 = [] := by
        rw [Ended, cut_cons hc] at h
        exact h
      have hlines : (cut text).1 ≠ [] := by
        intro hnil
        rw [← Prod.eta (cut text), hnil] at hended
        cases hended
      obtain ⟨line, others, heq, hadd⟩ := addChar_of_ne_nil (c := c) hlines
      rw [hadd] at hended ⊢
      have hne : text = [] → ∀ rest', rest ≠ '\n' :: rest' := by
        intro hnil
        rw [hnil] at hlines
        exact absurd rfl hlines
      rw [List.cons_append, cut_cons_append hc hne, ih hended, heq]
      rfl

/-! ## Texts without a line end -/

/-- A character other than a carriage return in front. -/
theorem unbroken_cons {c : Char} {text : List Char} (hc : c ≠ '\r') :
    Unbroken (c :: text) ↔ Unbroken text := by
  rw [Unbroken, Unbroken, lines, lines, cut_cons fun _ hreturn => absurd hreturn hc,
    addChar_eq_nil_iff]

/-- A text without carriage returns in front. -/
theorem unbroken_append {first : List Char} (hfirst : '\r' ∉ first) (text : List Char) :
    Unbroken (first ++ text) ↔ Unbroken text := by
  induction first with
  | nil => exact Iff.rfl
  | cons c first ih =>
      rw [List.mem_cons, not_or] at hfirst
      rw [List.cons_append, unbroken_cons (Ne.symm hfirst.1), ih hfirst.2]

/-- A character other than a line feed behind. -/
theorem unbroken_concat {text : List Char} {d : Char} (hd : d ≠ '\n') :
    Unbroken (text ++ [d]) ↔ Unbroken text := by
  rw [Unbroken, Unbroken, lines, lines]
  fun_induction cut text with
  | case1 =>
      rw [List.nil_append, cut_cons fun _ _ => (List.cons_ne_nil _ _).symm]
      exact Iff.rfl
  | case2 text ih => exact iff_of_false nofun nofun
  | case3 c text hc ih =>
      have hne : text = [] → ∀ rest', [d] ≠ '\n' :: rest' :=
        fun _ _ heq => hd (List.cons.inj heq).1
      rw [List.cons_append, cut_cons_append hc hne, addChar_eq_nil_iff, addChar_eq_nil_iff, ih]

/-! ## Cutting behind a line end -/

theorem lines_append {text : List Char} (h : Ended text) (rest : List Char) :
    lines (text ++ rest) = lines text ++ lines rest :=
  congrArg Prod.fst (cut_append h rest)

theorem Ended.append {text rest : List Char} (h : Ended text) (h' : Ended rest) :
    Ended (text ++ rest) := by
  rw [Ended, cut_append h]
  exact h'

/-- A line end finishes the last line. -/
theorem cut_append_crlf (text : List Char) :
    cut (text ++ crlf) = (lines text ++ [(cut text).2], []) := by
  rw [lines]
  fun_induction cut text with
  | case1 => rfl
  | case2 text ih =>
      show ([] :: (cut (text ++ crlf)).1, (cut (text ++ crlf)).2) = _
      rw [ih]
      rfl
  | case3 c text hc ih =>
      have hfeed : text = [] → ∀ rest', crlf ≠ '\n' :: rest' := by
        intro _ rest' heq
        cases heq
      rw [List.cons_append, cut_cons_append hc hfeed, ih]
      obtain ⟨found, rest⟩ := cut text
      cases found with
      | nil => rfl
      | cons line others => rfl

/-- Every text with a line end behind it has ended. -/
theorem ended_crlf (text : List Char) : Ended (text ++ crlf) := by
  rw [Ended, cut_append_crlf]

/-- A text with a line end behind it is one line exactly when it is unbroken. -/
theorem lines_crlf_iff {line : List Char} : lines (line ++ crlf) = [line] ↔ Unbroken line := by
  rw [lines, cut_append_crlf]
  constructor
  · intro h
    have hlength := congrArg List.length h
    rw [List.length_append, List.length_singleton, List.length_singleton] at hlength
    exact List.length_eq_zero_iff.mp (by omega)
  · intro h
    rw [cut_unbroken h, show lines line = [] from h]
    rfl

/-- A line at the start. -/
theorem lines_line {line : List Char} (h : Unbroken line) (rest : List Char) :
    lines (line ++ crlf ++ rest) = line :: lines rest := by
  rw [lines_append (ended_crlf line), lines_crlf_iff.mpr h]
  rfl

end Lines

end ProofLib
