import Brazier.ProofLib.Placeholders
import Brazier.Text

/-!
# Escaping

`SQLString` of `src/Database/SQLString.cpp`. `PQescapeLiteral` belongs to libpq: it is a
parameter, and `none` is its null result.
-/

namespace Brazier

/-- `SQLString::EscapeString`. -/
def SQLString.escapeString (pqEscapeLiteral : Text → Option Text) (input : Text) : Text :=
  match pqEscapeLiteral input with
  | none => "'ERROR: FAILED TO ESCAPE STRING'"
  | some escaped => escaped

/-- What `PQescapeLiteral` documents about its result: the text between single quotes, with a
leading ` E` where it needs backslash escapes, and every `?` of the input in it. -/
structure QuotesLiterals (pqEscapeLiteral : Text → Option Text) : Prop where
  quoted : ∀ input escaped, pqEscapeLiteral input = some escaped →
    ∃ body, escaped = ("'" : Text) ++ body ++ ("'" : Text) ∨
      escaped = (" E'" : Text) ++ body ++ ("'" : Text)
  marks : ∀ input escaped, pqEscapeLiteral input = some escaped →
    escaped.count '?' = input.count '?'

/-- The body of a literal: quotes are doubled. -/
def doubleQuotes : Text → Text
  | [] => []
  | c :: rest => if ("'" : Text) = [c] then c :: c :: doubleQuotes rest else c :: doubleQuotes rest

/-- `PQescapeLiteral` on text without backslashes. -/
def quoteLiteral (input : Text) : Option Text :=
  some (("'" : Text) ++ doubleQuotes input ++ ("'" : Text))

/-- Doubling quotes leaves the question marks. -/
theorem count_double_quotes (input : Text) :
    (doubleQuotes input).count '?' = input.count '?' := by
  induction input with
  | nil => rfl
  | cons c rest ih =>
      unfold doubleQuotes
      split
      · rename_i h
        obtain rfl : c = Char.ofNat 39 := (List.cons.inj h).1.symm
        simpa using ih
      · simp [List.count_cons, ih]

theorem quote_literal_quotes : QuotesLiterals quoteLiteral where
  quoted := by
    intro input escaped h
    cases h
    exact ⟨doubleQuotes input, Or.inl rfl⟩
  marks := by
    intro input escaped h
    cases h
    simp [List.count_append, count_double_quotes]

/-- An escaped text begins with something other than a question mark. -/
theorem escape_string_head {pqEscapeLiteral : Text → Option Text}
    (h : QuotesLiterals pqEscapeLiteral) (input : Text) :
    ∃ a tail, SQLString.escapeString pqEscapeLiteral input = a :: tail ∧ a ≠ '?' := by
  unfold SQLString.escapeString
  cases hesc : pqEscapeLiteral input with
  | none => exact ⟨_, _, rfl, by decide⟩
  | some escaped =>
      rcases h.quoted input escaped hesc with ⟨body, rfl | rfl⟩
      · exact ⟨_, _, rfl, by decide⟩
      · exact ⟨_, _, rfl, by decide⟩

/-- An escaped text contains a question mark exactly when the input does and is escaped. -/
theorem mark_mem_escape_string {pqEscapeLiteral : Text → Option Text}
    (h : QuotesLiterals pqEscapeLiteral) (input : Text) :
    '?' ∈ SQLString.escapeString pqEscapeLiteral input ↔
      '?' ∈ input ∧ pqEscapeLiteral input ≠ none := by
  unfold SQLString.escapeString
  cases hesc : pqEscapeLiteral input with
  | none =>
      refine iff_of_false (by decide) ?_
      simp
  | some escaped =>
      have hcount := h.marks input escaped hesc
      have hmem : '?' ∈ escaped ↔ '?' ∈ input := by
        rw [← List.count_pos_iff, ← List.count_pos_iff, hcount]
      simp [hmem]

end Brazier
