import Mathlib.Data.List.Basic

/-!
# Expressions with groups

An expression is a chain of operands with an operator between neighbours. An operand is an atom or a
chain in parentheses, and no chain is empty. `parse` reads the tokens of a chain and accepts nothing
else: `parse_eq_some_iff`.
-/

namespace ProofLib

namespace Grouped

/-- Operands with an operator between neighbours. -/
inductive Chain (α β : Type*) where
  | atom (a : α)
  | group (inner : Chain α β)
  | atomThen (a : α) (operator : β) (rest : Chain α β)
  | groupThen (inner : Chain α β) (operator : β) (rest : Chain α β)
  deriving DecidableEq

/-- An atom, or a chain in parentheses. -/
inductive Operand (α β : Type*) where
  | atom (a : α)
  | group (inner : Chain α β)

/-- A token of the text of a chain. -/
inductive Token (α β : Type*) where
  | atom (a : α)
  | operator (o : β)
  | opening
  | closing
  deriving DecidableEq

variable {α β : Type*}

namespace Operand

/-- The chain of one operand. -/
def chain : Operand α β → Chain α β
  | .atom a => .atom a
  | .group inner => .group inner

/-- An operand in front of a chain. -/
def before (operator : β) (rest : Chain α β) : Operand α β → Chain α β
  | .atom a => .atomThen a operator rest
  | .group inner => .groupThen inner operator rest

end Operand

namespace Chain

/-- Induction over operands: the chain in a group comes before the group. -/
@[elab_as_elim]
theorem inductionOn {motive : Chain α β → Prop} (c : Chain α β)
    (one : ∀ operand : Operand α β, (∀ inner, operand = .group inner → motive inner) →
      motive operand.chain)
    (more : ∀ (operand : Operand α β) operator rest,
      (∀ inner, operand = .group inner → motive inner) → motive rest →
      motive (operand.before operator rest)) : motive c := by
  induction c with
  | atom a => exact one (.atom a) fun inner h => by cases h
  | group inner ih => exact one (.group inner) fun i h => by cases h; exact ih
  | atomThen a operator rest ih => exact more (.atom a) operator rest (fun i h => by cases h) ih
  | groupThen inner operator rest ihinner ih =>
      exact more (.group inner) operator rest (fun i h => by cases h; exact ihinner) ih

/-- The tokens in order. -/
def tokens : Chain α β → List (Token α β)
  | .atom a => [.atom a]
  | .group inner => .opening :: tokens inner ++ [.closing]
  | .atomThen a operator rest => .atom a :: .operator operator :: tokens rest
  | .groupThen inner operator rest =>
      (.opening :: tokens inner ++ [.closing]) ++ .operator operator :: tokens rest

/-- The first operand. -/
def head : Chain α β → Operand α β
  | .atom a => .atom a
  | .group inner => .group inner
  | .atomThen a _ _ => .atom a
  | .groupThen inner _ _ => .group inner

end Chain

/-- The tokens of an operand. -/
def Operand.tokens : Operand α β → List (Token α β)
  | .atom a => [.atom a]
  | .group inner => .opening :: inner.tokens ++ [.closing]

@[simp] theorem Chain.tokens_chain (operand : Operand α β) :
    operand.chain.tokens = operand.tokens := by
  cases operand <;> rfl

@[simp] theorem Chain.tokens_before (operand : Operand α β) (operator : β) (rest : Chain α β) :
    (operand.before operator rest).tokens =
      operand.tokens ++ .operator operator :: rest.tokens := by
  cases operand <;> rfl

@[simp] theorem Chain.head_chain (operand : Operand α β) : operand.chain.head = operand := by
  cases operand <;> rfl

@[simp] theorem Chain.head_before (operand : Operand α β) (operator : β) (rest : Chain α β) :
    (operand.before operator rest).head = operand := by
  cases operand <;> rfl

/-! ## Reading tokens -/

/-- The operands of a chain that have been read, each with the operator behind it. The last one
comes first. -/
abbrev Frame (α β : Type*) := List (Operand α β × β)

/-- A chain after the operands of a frame. -/
def Frame.extend (f : Frame α β) (rest : Chain α β) : Chain α β :=
  f.foldl (fun c read => read.1.before read.2 c) rest

/-- The tokens of a frame. -/
def Frame.tokens (f : Frame α β) : List (Token α β) :=
  (f.reverse.map fun read => read.1.tokens ++ [.operator read.2]).flatten

/-- Read the tokens behind the open groups `outer`, the frame of the innermost one and the operand
in front, if there is one. -/
def parseFrom (outer : List (Frame α β)) (f : Frame α β) (operand : Option (Operand α β)) :
    List (Token α β) → Option (Chain α β)
  | [] =>
      match outer, operand with
      | [], some operand => some (f.extend operand.chain)
      | _, _ => none
  | .atom a :: rest =>
      match operand with
      | none => parseFrom outer f (some (.atom a)) rest
      | some _ => none
  | .operator o :: rest =>
      match operand with
      | some operand => parseFrom outer ((operand, o) :: f) none rest
      | none => none
  | .opening :: rest =>
      match operand with
      | none => parseFrom (f :: outer) [] none rest
      | some _ => none
  | .closing :: rest =>
      match outer, operand with
      | g :: outer, some operand => parseFrom outer g (some (.group (f.extend operand.chain))) rest
      | _, _ => none

/-- Read a chain. -/
def parse (tokens : List (Token α β)) : Option (Chain α β) := parseFrom [] [] none tokens

@[simp] theorem Frame.tokens_nil : Frame.tokens ([] : Frame α β) = [] := rfl

@[simp] theorem Frame.tokens_cons (operand : Operand α β) (o : β) (f : Frame α β) :
    Frame.tokens ((operand, o) :: f) = Frame.tokens f ++ (operand.tokens ++ [.operator o]) := by
  simp [Frame.tokens]

/-- A chain after the operands of a frame has their tokens in front. -/
theorem Frame.tokens_extend (f : Frame α β) (rest : Chain α β) :
    (f.extend rest).tokens = f.tokens ++ rest.tokens := by
  induction f generalizing rest with
  | nil => rfl
  | cons read f ih =>
      rw [Frame.extend, List.foldl_cons]
      refine (ih _).trans ?_
      rw [Frame.tokens_cons, Chain.tokens_before, List.append_assoc, List.append_assoc]
      rfl

/-- Wherever the tokens of the chain stand, they are read as the chain behind the frame. -/
def Chain.IsRead (c : Chain α β) : Prop :=
  ∀ (outer : List (Frame α β)) (f : Frame α β) (rest : List (Token α β)),
    ∃ (g : Frame α β) (last : Operand α β),
      parseFrom outer f none (c.tokens ++ rest) = parseFrom outer g (some last) rest ∧
        g.extend last.chain = f.extend c

/-- An operand is read in whatever frame it stands. -/
theorem parseFrom_operand {operand : Operand α β}
    (hinner : ∀ inner, operand = .group inner → inner.IsRead) (outer : List (Frame α β))
    (f : Frame α β) (rest : List (Token α β)) :
    parseFrom outer f none (operand.tokens ++ rest) = parseFrom outer f (some operand) rest := by
  cases operand with
  | atom a => rfl
  | group inner =>
      obtain ⟨g, last, hparse, hextend⟩ := hinner inner rfl (f :: outer) [] (.closing :: rest)
      show parseFrom (f :: outer) [] none ((inner.tokens ++ [.closing]) ++ rest) = _
      rw [List.append_assoc]
      refine hparse.trans ?_
      show parseFrom outer f (some (.group (g.extend last.chain))) rest = _
      rw [hextend]
      rfl

theorem Chain.isRead (c : Chain α β) : c.IsRead := by
  induction c using Chain.inductionOn with
  | one operand ih =>
      intro outer f rest
      refine ⟨f, operand, ?_, rfl⟩
      rw [Chain.tokens_chain]
      exact parseFrom_operand ih outer f rest
  | more operand operator c ih ihrest =>
      intro outer f rest
      obtain ⟨g, last, hparse, hextend⟩ := ihrest outer ((operand, operator) :: f) rest
      refine ⟨g, last, ?_, hextend⟩
      rw [Chain.tokens_before, List.append_assoc, parseFrom_operand ih]
      exact hparse

/-- The tokens that have been read before the ones to come. -/
def readTokens (outer : List (Frame α β)) (f : Frame α β) (operand : Option (Operand α β)) :
    List (Token α β) :=
  (outer.reverse.map fun g => g.tokens ++ [.opening]).flatten ++ f.tokens ++
    (operand.map Operand.tokens).getD []

/-- What is accepted are the tokens of the chain. -/
theorem tokens_of_parseFrom {outer : List (Frame α β)} {f : Frame α β}
    {operand : Option (Operand α β)} {tokens : List (Token α β)} {c : Chain α β}
    (h : parseFrom outer f operand tokens = some c) :
    readTokens outer f operand ++ tokens = c.tokens := by
  induction tokens generalizing outer f operand with
  | nil =>
      cases outer with
      | cons g outer => cases h
      | nil =>
          cases operand with
          | none => cases h
          | some operand =>
              cases h
              simp [readTokens, Frame.tokens_extend]
  | cons token rest ih =>
      cases token with
      | atom a =>
          cases operand with
          | some operand => cases h
          | none => simpa [readTokens, Operand.tokens] using ih h
      | operator o =>
          cases operand with
          | none => cases h
          | some operand => simpa [readTokens] using ih h
      | opening =>
          cases operand with
          | some operand => cases h
          | none => simpa [readTokens] using ih h
      | closing =>
          cases outer with
          | nil => cases operand <;> cases h
          | cons g outer =>
              cases operand with
              | none => cases h
              | some operand =>
                  simpa [readTokens, Operand.tokens, Frame.tokens_extend] using ih h

/-- The parser reads the tokens of a chain, and nothing else. -/
theorem parse_eq_some_iff {tokens : List (Token α β)} {c : Chain α β} :
    parse tokens = some c ↔ tokens = c.tokens := by
  constructor
  · intro h
    exact tokens_of_parseFrom h
  · intro h
    obtain ⟨g, last, hparse, hextend⟩ := c.isRead [] [] []
    rw [List.append_nil] at hparse
    rw [h, parse, hparse]
    exact congrArg some hextend

end Grouped

end ProofLib
