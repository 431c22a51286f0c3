import Mathlib.Data.List.Basic

/-!
# Regular expressions without alternatives

A fragment of the ECMAScript regular expressions: a sequence of anchors, of characters and negated
classes of one character, each with at most a `?` or a `+` behind it, and of groups of these. A
group captures what it matches. `compile` reads the text of an expression and gives nothing for a
text outside the fragment. `matchAll` matches an expression with a whole text; where there is more
than one way to match, the longest choice comes first.
-/

namespace ProofLib

namespace Regex

/-- What matches one character. -/
inductive Atom where
  | char (c : Char)
  | notChar (c : Char)
  deriving DecidableEq

/-- How often an atom matches. -/
inductive Repeat where
  | one
  | optional
  | many
  deriving DecidableEq

/-- An atom with the sign behind it. -/
structure Piece where
  atom : Atom
  times : Repeat
  deriving DecidableEq

/-- A part of an expression. -/
inductive Item where
  | start
  | stop
  | piece (piece : Piece)
  | group (pieces : List Piece)
  deriving DecidableEq

/-! ## The text of an expression -/

/-- A sign of the text of an expression. -/
inductive Token where
  | caret
  | dollar
  | openGroup
  | closeGroup
  | question
  | plus
  | atom (atom : Atom)
  deriving DecidableEq

/-- The characters that do not stand for themselves. -/
def metacharacters : List Char :=
  ['^', '$', '\\', '.', '*', '+', '?', '(', ')', '[', ']', '\x7b', '\x7d', '|']

/-- A sign that is a single character. -/
def tokenOf (c : Char) : Option Token :=
  if c = '^' then some .caret
  else if c = '$' then some .dollar
  else if c = '(' then some .openGroup
  else if c = ')' then some .closeGroup
  else if c = '?' then some .question
  else if c = '+' then some .plus
  else if c ∈ metacharacters then none
  else some (.atom (.char c))

/-- The signs of a text. -/
def tokens : List Char → Option (List Token)
  | [] => some []
  | '[' :: '^' :: c :: ']' :: rest =>
      if c ∈ metacharacters then none else (tokens rest).map (.atom (.notChar c) :: ·)
  | c :: rest => (tokenOf c).bind fun token => (tokens rest).map (token :: ·)

/-- A piece goes into the group that is open, or stands for itself. -/
def place (piece : Piece) (groupOpen : Option (List Piece)) :
    Option (List Piece) × List Item :=
  match groupOpen with
  | some pieces => (some (pieces ++ [piece]), [])
  | none => (none, [.piece piece])

/-- The parts that signs give. Groups do not nest, and have no anchors. -/
def items (groupOpen : Option (List Piece)) : List Token → Option (List Item)
  | [] =>
      match groupOpen with
      | none => some []
      | some _ => none
  | .caret :: rest =>
      match groupOpen with
      | none => (items none rest).map (.start :: ·)
      | some _ => none
  | .dollar :: rest =>
      match groupOpen with
      | none => (items none rest).map (.stop :: ·)
      | some _ => none
  | .openGroup :: rest =>
      match groupOpen with
      | none => items (some []) rest
      | some _ => none
  | .closeGroup :: rest =>
      match groupOpen with
      | none => none
      | some pieces => (items none rest).map (.group pieces :: ·)
  | .atom atom :: .question :: rest =>
      (items (place ⟨atom, .optional⟩ groupOpen).1 rest).map
        ((place ⟨atom, .optional⟩ groupOpen).2 ++ ·)
  | .atom atom :: .plus :: rest =>
      (items (place ⟨atom, .many⟩ groupOpen).1 rest).map ((place ⟨atom, .many⟩ groupOpen).2 ++ ·)
  | .atom atom :: rest =>
      (items (place ⟨atom, .one⟩ groupOpen).1 rest).map ((place ⟨atom, .one⟩ groupOpen).2 ++ ·)
  | .question :: _ => none
  | .plus :: _ => none

/-- The expression of a text. -/
def compile (text : List Char) : Option (List Item) := (tokens text).bind (items none)

/-! ## Matching -/

/-- The atom matches the character. -/
def Atom.accepts : Atom → Char → Bool
  | .char c, d => d = c
  | .notChar c, d => d ≠ c

/-- The ways to match one atom: what is matched, and what is left. -/
def Atom.ways (atom : Atom) : List Char → List (List Char × List Char)
  | [] => []
  | c :: rest => if atom.accepts c then [([c], rest)] else []

/-- The ways to match an atom once or more, the longest first. -/
def Atom.manyWays (atom : Atom) : List Char → List (List Char × List Char)
  | [] => []
  | c :: rest =>
      if atom.accepts c then
        (manyWays atom rest).map (fun way => (c :: way.1, way.2)) ++ [([c], rest)]
      else []

/-- The ways to match a piece. -/
def Piece.ways (piece : Piece) (text : List Char) : List (List Char × List Char) :=
  match piece.times with
  | .one => piece.atom.ways text
  | .optional => piece.atom.ways text ++ [([], text)]
  | .many => piece.atom.manyWays text

/-- The ways to match pieces one after the other. -/
def piecesWays : List Piece → List Char → List (List Char × List Char)
  | [], text => [([], text)]
  | piece :: pieces, text =>
      (piece.ways text).flatMap fun way =>
        (piecesWays pieces way.2).map fun rest => (way.1 ++ rest.1, rest.2)

/-- Match the parts with all of a text, and give what the groups capture. -/
def matchAll : List Item → Bool → List Char → Option (List (List Char))
  | [], _, text => if text = [] then some [] else none
  | .start :: rest, atStart, text => if atStart then matchAll rest atStart text else none
  | .stop :: rest, atStart, text => if text = [] then matchAll rest atStart text else none
  | .piece piece :: rest, atStart, text =>
      (piece.ways text).findSome? fun way => matchAll rest (atStart && way.1.isEmpty) way.2
  | .group pieces :: rest, atStart, text =>
      (piecesWays pieces text).findSome? fun way =>
        (matchAll rest (atStart && way.1.isEmpty) way.2).map (way.1 :: ·)

/-- Match a compiled expression with a text. -/
def run (expression : List Item) (text : List Char) : Option (List (List Char)) :=
  matchAll expression true text

/-! ## Rules -/

/-- A literal in the text of an expression. -/
theorem tokens_literal {literal : List Char} (hliteral : ∀ c ∈ literal, c ∉ metacharacters)
    (rest : List Char) :
    tokens (literal ++ rest) =
      (tokens rest).map (literal.map (fun c => .atom (.char c)) ++ ·) := by
  induction literal with
  | nil => simp
  | cons c literal ih =>
      have hc : c ∉ metacharacters := hliteral c List.mem_cons_self
      have hne : ∀ d ∈ metacharacters, c ≠ d := fun d hd h => hc (h ▸ hd)
      have htoken : tokenOf c = some (.atom (.char c)) := by
        rw [tokenOf, if_neg (hne _ (by decide)), if_neg (hne _ (by decide)),
          if_neg (hne _ (by decide)), if_neg (hne _ (by decide)), if_neg (hne _ (by decide)),
          if_neg (hne _ (by decide)), if_neg hc]
      rw [List.cons_append, tokens, htoken, ih fun d hd => hliteral d (List.mem_cons_of_mem c hd)]
      · simp [Function.comp_def]
      · rintro d rest' rfl _
        exact hne '[' (by decide) rfl

/-- No sign of repetition stands in front. -/
def NotRepeated (signs : List Token) : Prop :=
  ∀ rest, signs ≠ .question :: rest ∧ signs ≠ .plus :: rest

/-- An atom outside a group without a sign of repetition. -/
theorem items_atom (atom : Atom) {rest : List Token} (hrest : NotRepeated rest) :
    items none (.atom atom :: rest) = (items none rest).map (.piece ⟨atom, .one⟩ :: ·) := by
  cases rest with
  | nil => rfl
  | cons token rest =>
      cases token with
      | question => exact absurd rfl (hrest rest).1
      | plus => exact absurd rfl (hrest rest).2
      | caret | dollar | openGroup | closeGroup | atom => rfl

/-- A literal outside a group. -/
theorem items_literal (literal : List Char) {rest : List Token} (hrest : NotRepeated rest) :
    items none (literal.map (fun c => .atom (.char c)) ++ rest) =
      (items none rest).map (literal.map (fun c => .piece ⟨.char c, .one⟩) ++ ·) := by
  induction literal with
  | nil => simp
  | cons c literal ih =>
      have hbehind : NotRepeated (literal.map (fun c => .atom (.char c)) ++ rest) := by
        cases literal with
        | nil => exact hrest
        | cons d literal => exact fun rest' => ⟨by simp, by simp⟩
      rw [List.map_cons, List.cons_append, items_atom _ hbehind, ih]
      simp [Function.comp_def]

/-- What is matched once or more. -/
theorem mem_manyWays {atom : Atom} {text a b : List Char} :
    (a, b) ∈ atom.manyWays text ↔ text = a ++ b ∧ a ≠ [] ∧ ∀ c ∈ a, atom.accepts c = true := by
  induction text generalizing a with
  | nil =>
      constructor
      · intro h
        cases h
      · intro ⟨h, ha, _⟩
        exact absurd (List.append_eq_nil_iff.mp h.symm).1 ha
  | cons c rest ih =>
      rw [Atom.manyWays]
      split
      · next hc =>
          rw [List.mem_append, List.mem_map, List.mem_singleton]
          constructor
          · rintro (⟨⟨a', b'⟩, hmem, heq⟩ | heq)
            · cases heq
              obtain ⟨rfl, _, haccepts⟩ := ih.mp hmem
              refine ⟨rfl, by simp, fun d hd => ?_⟩
              rw [List.mem_cons] at hd
              rcases hd with rfl | hd
              · exact hc
              · exact haccepts d hd
            · cases heq
              simpa using hc
          · intro ⟨htext, ha, haccepts⟩
            obtain ⟨d, a, rfl⟩ := List.exists_cons_of_ne_nil ha
            obtain ⟨rfl, rfl⟩ := List.cons.inj htext
            by_cases hnil : a = []
            · right
              simp [hnil]
            · left
              exact ⟨(a, b), ih.mpr ⟨rfl, hnil, fun d hd =>
                haccepts d (List.mem_cons_of_mem c hd)⟩, rfl⟩
      · next hc =>
          constructor
          · intro h
            cases h
          · intro ⟨htext, ha, haccepts⟩
            obtain ⟨d, a, rfl⟩ := List.exists_cons_of_ne_nil ha
            obtain ⟨rfl, _⟩ := List.cons.inj htext
            exact absurd (haccepts c List.mem_cons_self) hc

/-- A single way through a choice is the one that is taken. -/
theorem findSome?_eq_of_unique {α β : Type*} {l : List α} {f : α → Option β} {a : α} {b : β}
    (ha : a ∈ l) (hf : f a = some b) (honly : ∀ a' ∈ l, f a' ≠ none → a' = a) :
    l.findSome? f = some b := by
  cases hfind : l.findSome? f with
  | none =>
      rw [List.findSome?_eq_none_iff] at hfind
      rw [hfind a ha] at hf
      cases hf
  | some b' =>
      obtain ⟨a', ha', hb'⟩ := List.exists_of_findSome?_eq_some hfind
      rw [honly a' ha' (by simp [hb']), hf] at hb'
      exact hb'.symm

/-- A literal matches itself. -/
theorem matchAll_literal (literal : List Char) (rest : List Item) (atStart : Bool)
    (text : List Char) :
    matchAll (literal.map (fun c => .piece ⟨.char c, .one⟩) ++ rest) atStart text =
      if literal <+: text then
        matchAll rest (atStart && literal.isEmpty) (text.drop literal.length)
      else none := by
  induction literal generalizing atStart text with
  | nil => simp
  | cons c literal ih =>
      rw [List.map_cons, List.cons_append, matchAll]
      cases text with
      | nil => simp [Piece.ways, Atom.ways]
      | cons d text =>
          by_cases hdc : d = c
          · subst hdc
            simp [Piece.ways, Atom.ways, Atom.accepts, ih]
          · have hcd : ¬ c = d := fun h => hdc h.symm
            simp [Piece.ways, Atom.ways, Atom.accepts, hdc, hcd]

/-- A group of an atom once or more. -/
theorem matchAll_manyGroup (atom : Atom) (rest : List Item) (atStart : Bool) (text : List Char) :
    matchAll (.group [⟨atom, .many⟩] :: rest) atStart text =
      (atom.manyWays text).findSome? fun way =>
        (matchAll rest (atStart && way.1.isEmpty) way.2).map (way.1 :: ·) := by
  rw [matchAll]
  congr 1
  simp [piecesWays, Piece.ways]

/-! ## Engines -/

/-- An engine: it compiles a text to a matcher, or refuses it. -/
abbrev Engine := List Char → Option (List Char → Option (List (List Char)))

/-- The engine implements the expressions of the fragment. -/
def Implements (engine : Engine) : Prop :=
  ∀ text expression, compile text = some expression → engine text = some (run expression)

/-- The engine of the fragment. -/
def fragment : Engine := fun text => (compile text).map run

theorem fragment_implements : Implements fragment := by
  intro text expression h
  rw [fragment, h]
  rfl

end Regex

end ProofLib
