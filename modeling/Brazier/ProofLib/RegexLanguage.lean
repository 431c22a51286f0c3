import Brazier.ProofLib.Regex
import Mathlib.Data.List.Forall2

/-!
# Syntax trees of regular expressions

The trees of ECMAScript expressions that have no optional parts, counts, assertions other than the
two anchors, or back references: the text a tree is written as, and the words it matches. A word
that cannot be made shorter is matched without a second repetition, so it has at most one character
for each leaf; when it has one for each, it may be changed at every leaf on its own.
-/

namespace ProofLib

namespace Regex

/-- A syntax tree. A leaf matches one of the characters that it accepts. -/
inductive Node where
  | empty
  | leaf (sign : List Char) (accepts : Char → Bool)
  | start
  | stop
  | cat (a b : Node)
  | alt (a b : Node)
  | group (a : Node)
  | star (a : Node)
  | plus (a : Node)

namespace Node

/-! ## Texts -/

/-- The text of an expression. -/
def text : Node → List Char
  | empty => []
  | leaf sign _ => sign
  | start => ['^']
  | stop => ['$']
  | cat a b => a.text ++ b.text
  | alt a b => a.text ++ '|' :: b.text
  | group a => '(' :: a.text ++ [')']
  | star a => a.text ++ ['*']
  | plus a => a.text ++ ['+']

/-- What the leaves accept, from left to right. -/
def leaves : Node → List (Char → Bool)
  | leaf _ accepts => [accepts]
  | cat a b | alt a b => a.leaves ++ b.leaves
  | group a | star a | plus a => a.leaves
  | empty | start | stop => []

end Node

/-- The character stands for itself. An engine may read closing brackets without an opening one as
such characters, these are the `closers`. -/
def Ordinary (closers : List Char) (c : Char) : Prop := c ∉ metacharacters ∨ c ∈ closers

/-- The sign of a leaf, with what it accepts. -/
inductive Sign (closers : List Char) : List Char → (Char → Bool) → Prop
  | char (c : Char) (hc : Ordinary closers c) : Sign closers [c] (fun d => d = c)
  | any (accepts : Char → Bool) (hany : ∀ c, c ≠ '\n' → c ≠ '\r' → accepts c = true) :
      Sign closers ['.'] accepts
  | escape (c : Char) (hc : c.isAlphanum = false) : Sign closers ['\\', c] (fun d => d = c)
  -- a control character, the number of a character, or the letter of a class
  | escapeName (c : Char) (hc : c.isAlphanum = true) (more : List Char)
      (hmore : ∀ d ∈ more.tail, d.isAlphanum = true) (accepts : Char → Bool) :
      Sign closers ('\\' :: c :: more) accepts
  | oneOf (content : List Char) (accepts : Char → Bool) :
      Sign closers ('[' :: content ++ [']']) accepts

/-- The leaves have the signs for what they accept. -/
def Node.WellFormed (closers : List Char) : Node → Prop
  | leaf sign accepts => Sign closers sign accepts
  | cat a b | alt a b => a.WellFormed closers ∧ b.WellFormed closers
  | group a | star a | plus a => a.WellFormed closers
  | empty | start | stop => True

/-! ## Words -/

namespace Node

/-- The words that an expression matches. The flags say whether the word is at the start, and at
the end, of the whole text. -/
inductive Matches : Node → Bool → Bool → List Char → Prop
  | empty {s e} : Matches empty s e []
  | leaf {s e sign accepts} {c : Char} (hc : accepts c = true) :
      Matches (leaf sign accepts) s e [c]
  | start {e} : Matches start true e []
  | stop {s} : Matches stop s true []
  | cat {a b s e u v} (ha : Matches a s (e && v.isEmpty) u)
      (hb : Matches b (s && u.isEmpty) e v) : Matches (cat a b) s e (u ++ v)
  | altLeft {a b s e w} (ha : Matches a s e w) : Matches (alt a b) s e w
  | altRight {a b s e w} (hb : Matches b s e w) : Matches (alt a b) s e w
  | group {a s e w} (ha : Matches a s e w) : Matches (group a) s e w
  | starNil {a s e} : Matches (star a) s e []
  | starCons {a s e u v} (hu : u ≠ []) (ha : Matches a s (e && v.isEmpty) u)
      (hstar : Matches (star a) (s && u.isEmpty) e v) : Matches (star a) s e (u ++ v)
  | plus {a s e u v} (ha : Matches a s (e && v.isEmpty) u)
      (hstar : Matches (star a) (s && u.isEmpty) e v) : Matches (plus a) s e (u ++ v)

variable {n a : Node} {s e s' e' : Bool} {w : List Char}

/-- An anchor that matches somewhere matches at the start and at the end. -/
theorem Matches.mono (h : Matches n s e w) (hs : s = true → s' = true)
    (he : e = true → e' = true) : Matches n s' e' w := by
  have hand : ∀ {p p' : Bool} {w : List Char}, (p = true → p' = true) →
      (p && w.isEmpty) = true → (p' && w.isEmpty) = true := by
    intro p p' w hp hboth
    rw [Bool.and_eq_true] at hboth ⊢
    exact ⟨hp hboth.1, hboth.2⟩
  induction h generalizing s' e' with
  | empty => exact .empty
  | leaf hc => exact .leaf hc
  | start =>
      obtain rfl := hs rfl
      exact .start
  | stop =>
      obtain rfl := he rfl
      exact .stop
  | cat _ _ iha ihb => exact .cat (iha hs (hand he)) (ihb (hand hs) he)
  | altLeft _ iha => exact .altLeft (iha hs he)
  | altRight _ ihb => exact .altRight (ihb hs he)
  | group _ iha => exact .group (iha hs he)
  | starNil => exact .starNil
  | starCons hu _ _ iha ihstar =>
      exact .starCons hu (iha hs (hand he)) (ihstar (hand hs) he)
  | plus _ _ iha ihstar => exact .plus (iha hs (hand he)) (ihstar (hand hs) he)

/-- A single repetition. -/
theorem Matches.plusOne (h : Matches a s e w) : Matches (.plus a) s e w := by
  rw [← List.append_nil w]
  exact .plus (by simpa using h) .starNil

/-- The words without repetitions. -/
def once : Node → Node
  | cat a b => cat a.once b.once
  | alt a b => alt a.once b.once
  | group a => group a.once
  | star _ => empty
  | plus a => a.once
  | n => n

theorem Matches.of_once (h : Matches n.once s e w) : Matches n s e w := by
  induction n generalizing s e w with
  | empty | leaf | start | stop => exact h
  | cat a b iha ihb =>
      cases h with
      | cat ha hb => exact .cat (iha ha) (ihb hb)
  | alt a b iha ihb =>
      cases h with
      | altLeft ha => exact .altLeft (iha ha)
      | altRight hb => exact .altRight (ihb hb)
  | group a iha =>
      cases h with
      | group ha => exact .group (iha ha)
  | star a =>
      cases h
      exact .starNil
  | plus a iha => exact (iha h).plusOne

/-- A word is matched without repetitions, or some of its characters match as well. -/
theorem Matches.once_or_shorter (h : Matches n s e w) :
    Matches n.once s e w ∨
      ∃ w', Matches n s e w' ∧ w'.length < w.length ∧ ∀ c ∈ w', c ∈ w := by
  -- in front of characters, or behind them, an anchor does not match
  have hinside : ∀ {p q : Bool} {u : List Char}, u ≠ [] → (p && u.isEmpty) = true → q = true := by
    intro p q u hu hboth
    rw [Bool.and_eq_true, List.isEmpty_iff] at hboth
    exact absurd hboth.2 hu
  have hne : ∀ {u u' : List Char}, u'.length < u.length → u ≠ [] := by
    rintro u u' hlength rfl
    exact absurd hlength (Nat.not_lt_zero _)
  induction h with
  | empty => exact Or.inl .empty
  | leaf hc => exact Or.inl (.leaf hc)
  | start => exact Or.inl .start
  | stop => exact Or.inl .stop
  | @cat a b s e u v ha hb iha ihb =>
      rcases iha with ha' | ⟨u', hu', hlength, hchars⟩
      · rcases ihb with hb' | ⟨v', hv', hlength, hchars⟩
        · exact Or.inl (.cat ha' hb')
        · refine Or.inr ⟨u ++ v', .cat (ha.mono id (hinside (hne hlength))) hv', ?_, ?_⟩
          · simpa using hlength
          · intro c hc
            rw [List.mem_append] at hc ⊢
            exact hc.imp id (hchars c)
      · refine Or.inr ⟨u' ++ v, .cat hu' (hb.mono (hinside (hne hlength)) id), ?_, ?_⟩
        · simpa using hlength
        · intro c hc
          rw [List.mem_append] at hc ⊢
          exact hc.imp (hchars c) id
  | altLeft _ iha =>
      exact iha.imp .altLeft fun ⟨w', hw', hshorter⟩ => ⟨w', .altLeft hw', hshorter⟩
  | altRight _ ihb =>
      exact ihb.imp .altRight fun ⟨w', hw', hshorter⟩ => ⟨w', .altRight hw', hshorter⟩
  | group _ iha => exact iha.imp .group fun ⟨w', hw', hshorter⟩ => ⟨w', .group hw', hshorter⟩
  | starNil => exact Or.inl .empty
  | @starCons a s e u v hu =>
      refine Or.inr ⟨[], .starNil, ?_, fun c hc => absurd hc List.not_mem_nil⟩
      rw [List.length_append]
      exact Nat.add_pos_left (List.length_pos_of_ne_nil hu) _
  | @plus a s e u v ha _ iha =>
      cases v with
      | nil =>
          rw [List.append_nil]
          rw [List.isEmpty_nil, Bool.and_true] at iha
          exact iha.imp id fun ⟨u', hu', hshorter⟩ => ⟨u', hu'.plusOne, hshorter⟩
      | cons c v =>
          refine Or.inr ⟨u, (ha.mono id (hinside (by simp))).plusOne, by simp, fun d hd => ?_⟩
          exact List.mem_append_left _ hd

/-- Without repetitions a word has at most one character for each leaf. -/
theorem length_le_leaves (h : Matches n.once s e w) : w.length ≤ n.leaves.length := by
  induction n generalizing s e w with
  | empty | start | stop | star =>
      cases h
      exact Nat.zero_le _
  | leaf sign accepts =>
      cases h
      exact Nat.le_refl 1
  | cat a b iha ihb =>
      cases h with
      | cat ha hb =>
          rw [List.length_append, leaves, List.length_append]
          exact Nat.add_le_add (iha ha) (ihb hb)
  | alt a b iha ihb =>
      rw [leaves, List.length_append]
      cases h with
      | altLeft ha => exact Nat.le_add_right_of_le (iha ha)
      | altRight hb => exact Nat.le_add_left_of_le (ihb hb)
  | group a iha =>
      cases h with
      | group ha => exact iha ha
  | plus a iha => exact iha h

/-- The characters of the word are accepted by the leaves. -/
def Spells (leaves : List (Char → Bool)) (w : List Char) : Prop :=
  List.Forall₂ (fun accepts c => accepts c = true) leaves w

/-- A word that is spelled in two parts. -/
theorem Spells.of_append {first second : List (Char → Bool)} (h : Spells (first ++ second) w) :
    ∃ u v, w = u ++ v ∧ Spells first u ∧ Spells second v := by
  induction first generalizing w with
  | nil => exact ⟨[], w, rfl, .nil, h⟩
  | cons accepts first ih =>
      cases h with
      | @cons _ c _ _ hc h =>
          obtain ⟨u, v, rfl, hu, hv⟩ := ih h
          exact ⟨c :: u, v, rfl, .cons hc hu, hv⟩

/-- A word may be changed where it has the character of a leaf. -/
theorem Spells.exists_swap {leaves : List (Char → Bool)} {accepts : Char → Bool}
    (h : Spells leaves w) (hmem : accepts ∈ leaves) :
    ∃ u c v, w = u ++ c :: v ∧ accepts c = true ∧
      ∀ d, accepts d = true → Spells leaves (u ++ d :: v) := by
  obtain ⟨before, behind, rfl⟩ := List.append_of_mem hmem
  obtain ⟨u, rest, rfl, hu, hrest⟩ := h.of_append
  cases hrest with
  | @cons _ c _ v hc hv => exact ⟨u, c, v, rfl, hc, fun d hd => List.rel_append hu (.cons hd hv)⟩

/-- The leaves spell the word, and words of the expression only. -/
def SpelledBy (n : Node) (s e : Bool) (leaves : List (Char → Bool)) (w : List Char) : Prop :=
  Spells leaves w ∧ ∀ w', Spells leaves w' → Matches n s e w'

theorem SpelledBy.cat {b : Node} {u v : List Char} {leaves leaves' : List (Char → Bool)}
    (ha : SpelledBy a s (e && v.isEmpty) leaves u)
    (hb : SpelledBy b (s && u.isEmpty) e leaves' v) :
    SpelledBy (.cat a b) s e (leaves ++ leaves') (u ++ v) := by
  refine ⟨List.rel_append ha.1 hb.1, fun w' hw' => ?_⟩
  obtain ⟨u', v', rfl, hu', hv'⟩ := hw'.of_append
  -- words that the same leaves spell are empty together
  have hsame : ∀ {leaves : List (Char → Bool)} {x y : List Char}, Spells leaves x →
      Spells leaves y → x.isEmpty = y.isEmpty := by
    intro leaves x y hx hy
    cases hx <;> cases hy <;> rfl
  have hmatches := ha.2 u' hu'
  have hmatches' := hb.2 v' hv'
  rw [hsame hb.1 hv'] at hmatches
  rw [hsame ha.1 hu'] at hmatches'
  exact .cat hmatches hmatches'

theorem SpelledBy.imp {n' : Node} {leaves : List (Char → Bool)} (h : SpelledBy n s e leaves w)
    (hwords : ∀ w', Matches n s e w' → Matches n' s e w') : SpelledBy n' s e leaves w :=
  ⟨h.1, fun w' hw' => hwords w' (h.2 w' hw')⟩

/-- Where there are no leaves, only the empty word is spelled. -/
theorem SpelledBy.nil (h : Matches n s e []) : SpelledBy n s e [] [] := by
  refine ⟨.nil, fun w' hw' => ?_⟩
  cases hw'
  exact h

/-- A word with one character for each leaf is spelled by the leaves, and so is every other word
that they spell a word of the expression. -/
theorem spelledBy_of_length (h : Matches n.once s e w) (hlength : w.length = n.leaves.length) :
    SpelledBy n.once s e n.leaves w := by
  induction n generalizing s e w with
  | empty | start | stop =>
      have hword := h
      cases h
      exact .nil hword
  | star a =>
      cases h
      have hnil : a.leaves = [] := List.length_eq_zero_iff.mp hlength.symm
      rw [leaves, hnil]
      exact .nil .empty
  | leaf sign accepts =>
      cases h with
      | leaf hc =>
          refine ⟨.cons hc .nil, fun w' hw' => ?_⟩
          cases hw' with
          | cons hc' hnil =>
              cases hnil
              exact .leaf hc'
  | cat a b iha ihb =>
      cases h with
      | cat ha hb =>
          rw [leaves, List.length_append, List.length_append] at hlength
          have hua := length_le_leaves ha
          have hvb := length_le_leaves hb
          exact (iha ha (by omega)).cat (ihb hb (by omega))
  | alt a b iha ihb =>
      rw [leaves, List.length_append] at hlength
      cases h with
      | altLeft ha =>
          have hle := length_le_leaves ha
          have hnil : b.leaves = [] := List.length_eq_zero_iff.mp (by omega)
          rw [leaves, hnil, List.append_nil]
          exact (iha ha (by omega)).imp fun _ => .altLeft
      | altRight hb =>
          have hle := length_le_leaves hb
          have hnil : a.leaves = [] := List.length_eq_zero_iff.mp (by omega)
          rw [leaves, hnil, List.nil_append]
          exact (ihb hb (by omega)).imp fun _ => .altRight
  | group a iha =>
      cases h with
      | group ha => exact (iha ha hlength).imp fun _ => .group
  | plus a iha => exact iha h hlength

/-- A word of whose characters there is no shorter one has at most one character for each leaf. If
it has as many, it may be changed at every leaf. -/
theorem Matches.swap_of_shortest (h : Matches n s e w)
    (hshortest : ∀ w', Matches n s e w' → (∀ c ∈ w', c ∈ w) → w.length ≤ w'.length) :
    w.length ≤ n.leaves.length ∧ (n.leaves.length ≤ w.length → ∀ accepts ∈ n.leaves,
      ∃ u c v, w = u ++ c :: v ∧ accepts c = true ∧
        ∀ d, accepts d = true → Matches n s e (u ++ d :: v)) := by
  rcases h.once_or_shorter with honce | ⟨w', hw', hlength, hchars⟩
  · have hle := length_le_leaves honce
    refine ⟨hle, fun hge accepts hmem => ?_⟩
    obtain ⟨hspells, hevery⟩ := spelledBy_of_length honce (Nat.le_antisymm hle hge)
    obtain ⟨u, c, v, hw, hc, hswap⟩ := hspells.exists_swap hmem
    exact ⟨u, c, v, hw, hc, fun d hd => (hevery _ (hswap d hd)).of_once⟩
  · exact absurd (hshortest w' hw' hchars) (Nat.not_le_of_lt hlength)

end Node

/-! ## Engines -/

/-- A character, or the group of all characters but one, once or more. -/
inductive Part where
  | char (c : Char)
  | manyNot (d : Char)

namespace Part

/-- The text of a part. -/
def text : Part → List Char
  | char c => [c]
  | manyNot d => ['(', '[', '^', d, ']', '+', ')']

/-- What the part is compiled to. -/
def item : Part → Item
  | char c => .piece ⟨.char c, .one⟩
  | manyNot d => .group [⟨.notChar d, .many⟩]

/-- The characters of the part stand for themselves. -/
def Plain (closers : List Char) : Part → Prop
  | char c => Ordinary closers c
  | manyNot d => d ∉ metacharacters

end Part

/-- The second character does not make the first one a count, a back reference or the boundary of a
word. -/
def Apart (c d : Char) : Prop :=
  (c = '\x7b' → d.isDigit = false) ∧ (c = '\\' → d.isDigit = false ∧ d ≠ 'b' ∧ d ≠ 'B')

instance : DecidableRel Apart := fun _ _ => inferInstanceAs (Decidable (_ ∧ _))

/-- A character that is no digit and no such letter may stand behind every other. -/
theorem apart_of {c d : Char} (hdigit : d.isDigit = false) (hletter : d ≠ 'b' ∧ d ≠ 'B') :
    Apart c d := ⟨fun _ => hdigit, fun _ => ⟨hdigit, hletter⟩⟩

/-- The syntax trees cover what the text may have. -/
def Covered (text : List Char) : Prop := '?' ∉ text ∧ text.IsChain Apart

/-- An engine of ECMAScript expressions: it captures what the groups of plain parts match, and
accepts no text but that of a tree, of which it matches the words. -/
structure Ecmascript (closers : List Char) (engine : Engine) : Prop where
  closers_mem : ∀ c ∈ closers, c = ']' ∨ c = '\x7d'
  plain : ∀ parts : List Part, (∀ part ∈ parts, part.Plain closers) →
    engine ('^' :: (parts.flatMap Part.text ++ ['$'])) =
      some (run (.start :: (parts.map Part.item ++ [.stop])))
  reads : ∀ text matcher, Covered text → engine text = some matcher →
    ∃ node : Node, node.WellFormed closers ∧ node.text = text ∧
      ∀ w, matcher w ≠ none ↔ node.Matches true true w

/-! ## An engine of plain parts -/

instance (closers : List Char) (c : Char) : Decidable (Ordinary closers c) :=
  inferInstanceAs (Decidable (_ ∨ _))

/-- Read plain parts up to the `$` at the end. -/
def readParts (closers : List Char) : List Char → Option (List Part)
  | ['$'] => some []
  | '(' :: '[' :: '^' :: d :: ']' :: '+' :: ')' :: rest =>
      if d ∈ metacharacters then none else (readParts closers rest).map (.manyNot d :: ·)
  | c :: rest =>
      if Ordinary closers c then (readParts closers rest).map (.char c :: ·) else none
  | [] => none

/-- An engine that accepts plain parts between the anchors, and nothing else. -/
def plainEngine (closers : List Char) : Engine
  | '^' :: rest =>
      (readParts closers rest).map fun parts => run (.start :: (parts.map Part.item ++ [.stop]))
  | _ => none

variable {closers : List Char}

/-- The engine reads the text of plain parts. -/
theorem readParts_text (hclosers : ∀ c ∈ closers, c = ']' ∨ c = '\x7d') {parts : List Part}
    (hplain : ∀ part ∈ parts, part.Plain closers) :
    readParts closers (parts.flatMap Part.text ++ ['$']) = some parts := by
  induction parts with
  | nil => rfl
  | cons part parts ih =>
      obtain ⟨hpart, hparts⟩ := List.forall_mem_cons.mp hplain
      rw [List.flatMap_cons, List.append_assoc]
      cases part with
      | char c =>
          have hopen : c ≠ '$' ∧ c ≠ '(' := by
            constructor <;> rintro rfl <;> rcases hpart with hpart | hpart
            · exact hpart (by decide)
            · rcases hclosers _ hpart with h | h <;> cases h
            · exact hpart (by decide)
            · rcases hclosers _ hpart with h | h <;> cases h
          show readParts closers (c :: (parts.flatMap Part.text ++ ['$'])) = _
          rw [readParts, if_pos (show Ordinary closers c from hpart), ih hparts]
          · rfl
          · exact fun h => absurd h hopen.1
          · exact fun _ _ h => absurd h hopen.2
      | manyNot d =>
          show readParts closers ('(' :: '[' :: '^' :: d :: ']' :: '+' :: ')' ::
            (parts.flatMap Part.text ++ ['$'])) = _
          rw [readParts, if_neg hpart, ih hparts]
          rfl

/-- What the engine reads is the text of plain parts. -/
theorem text_of_readParts {text : List Char} {parts : List Part}
    (h : readParts closers text = some parts) :
    (∀ part ∈ parts, part.Plain closers) ∧ text = parts.flatMap Part.text ++ ['$'] := by
  fun_induction readParts closers text generalizing parts with
  | case1 =>
      cases h
      exact ⟨by simp, rfl⟩
  | case2 d rest hd => cases h
  | case3 d rest hd ih =>
      obtain ⟨parts, hparts, rfl⟩ := Option.map_eq_some_iff.mp h
      obtain ⟨hplain, rfl⟩ := ih hparts
      exact ⟨List.forall_mem_cons.mpr ⟨hd, hplain⟩, rfl⟩
  | case4 c rest _ _ hc ih =>
      obtain ⟨parts, hparts, rfl⟩ := Option.map_eq_some_iff.mp h
      obtain ⟨hplain, rfl⟩ := ih hparts
      exact ⟨List.forall_mem_cons.mpr ⟨hc, hplain⟩, rfl⟩
  | case5 => cases h
  | case6 => cases h

/-- The tree of plain parts. -/
def partsNode : List Part → Node
  | [] => .stop
  | .char c :: parts => .cat (.leaf [c] (fun d => d = c)) (partsNode parts)
  | .manyNot d :: parts =>
      .cat (.group (.plus (.leaf ('[' :: ['^', d] ++ [']']) (fun c => c ≠ d)))) (partsNode parts)

theorem partsNode_text (parts : List Part) :
    (partsNode parts).text = parts.flatMap Part.text ++ ['$'] := by
  induction parts with
  | nil => rfl
  | cons part parts ih =>
      rw [List.flatMap_cons, List.append_assoc, ← ih]
      cases part <;> rfl

theorem partsNode_wellFormed {parts : List Part} (hplain : ∀ part ∈ parts, part.Plain closers) :
    (partsNode parts).WellFormed closers := by
  induction parts with
  | nil => trivial
  | cons part parts ih =>
      obtain ⟨hpart, hparts⟩ := List.forall_mem_cons.mp hplain
      cases part with
      | char c => exact ⟨.char c hpart, ih hparts⟩
      | manyNot d => exact ⟨.oneOf ['^', d] _, ih hparts⟩

/-- The words of a leaf, once or more. -/
theorem Node.matches_plus_leaf {sign : List Char} {accepts : Char → Bool} {s e : Bool}
    {w : List Char} : (Node.plus (.leaf sign accepts)).Matches s e w ↔
      w ≠ [] ∧ ∀ c ∈ w, accepts c = true := by
  have hstar : ∀ {w s e}, (∀ c ∈ w, accepts c = true) →
      (Node.star (.leaf sign accepts)).Matches s e w := by
    intro w
    induction w with
    | nil => exact fun _ => .starNil
    | cons c w ih =>
        intro s e hw
        obtain ⟨hc, hw⟩ := List.forall_mem_cons.mp hw
        exact .starCons (List.cons_ne_nil c []) (.leaf hc) (ih hw)
  have hchars : ∀ {n w s e}, Node.Matches n s e w → n = .star (.leaf sign accepts) →
      ∀ c ∈ w, accepts c = true := by
    intro n w s e h hn
    induction h with
    | starNil => simp
    | starCons _ ha _ _ ih =>
        cases hn
        cases ha with
        | leaf hc => exact List.forall_mem_cons.mpr ⟨hc, ih rfl⟩
    | empty | leaf | start | stop | cat | altLeft | altRight | group | plus => cases hn
  constructor
  · intro h
    cases h with
    | plus ha hmore =>
        cases ha with
        | leaf hc => exact ⟨List.cons_ne_nil _ _, List.forall_mem_cons.mpr ⟨hc, hchars hmore rfl⟩⟩
  · rintro ⟨hne, hw⟩
    obtain ⟨c, w, rfl⟩ := List.exists_cons_of_ne_nil hne
    obtain ⟨hc, hw⟩ := List.forall_mem_cons.mp hw
    have hleaf : (Node.leaf sign accepts).Matches s (e && w.isEmpty) [c] := .leaf hc
    exact .plus hleaf (hstar hw)

/-- One character in front. -/
theorem matchAll_char_iff {items : List Item} {n : Node}
    (hitems : ∀ atStart w, matchAll items atStart w ≠ none ↔ n.Matches atStart true w) (c : Char)
    (atStart : Bool) (w : List Char) :
    matchAll (.piece ⟨.char c, .one⟩ :: items) atStart w ≠ none ↔
      (Node.cat (.leaf [c] (fun d => d = c)) n).Matches atStart true w := by
  have hliteral := matchAll_literal [c] items atStart w
  rw [List.map_singleton, List.singleton_append] at hliteral
  rw [hliteral]
  constructor
  · intro h
    split at h
    · next hstands =>
        obtain ⟨rest, rfl⟩ := hstands
        rw [List.drop_left] at h
        exact .cat (.leaf (decide_eq_true rfl)) ((hitems _ _).mp h)
    · exact absurd rfl h
  · intro h
    cases h with
    | cat ha hb =>
        cases ha with
        | leaf hc =>
            obtain rfl := of_decide_eq_true hc
            rw [if_pos (List.prefix_append _ _), List.drop_left]
            exact (hitems _ _).mpr hb

/-- A group of one class in front. -/
theorem matchAll_manyNot_iff {items : List Item} {n : Node}
    (hitems : ∀ atStart w, matchAll items atStart w ≠ none ↔ n.Matches atStart true w) (d : Char)
    (sign : List Char) (atStart : Bool) (w : List Char) :
    matchAll (.group [⟨.notChar d, .many⟩] :: items) atStart w ≠ none ↔
      (Node.cat (.group (.plus (.leaf sign (fun c => c ≠ d)))) n).Matches atStart true w := by
  rw [matchAll_manyGroup, ← Option.isSome_iff_ne_none, List.findSome?_isSome_iff]
  constructor
  · rintro ⟨⟨u, v⟩, hway, hmatch⟩
    rw [mem_manyWays] at hway
    obtain ⟨rfl, hne, hchars⟩ := hway
    rw [Option.isSome_map, Option.isSome_iff_ne_none, hitems] at hmatch
    exact .cat (.group (Node.matches_plus_leaf.mpr ⟨hne, hchars⟩)) hmatch
  · intro h
    cases h with
    | @cat _ _ _ _ u v ha hb =>
        cases ha with
        | group ha =>
            obtain ⟨hne, hchars⟩ := Node.matches_plus_leaf.mp ha
            refine ⟨(u, v), mem_manyWays.mpr ⟨rfl, hne, hchars⟩, ?_⟩
            rw [Option.isSome_map, Option.isSome_iff_ne_none, hitems]
            exact hb

/-- The tree of plain parts matches what they are compiled to. -/
theorem matchAll_iff_partsNode (parts : List Part) (atStart : Bool) (w : List Char) :
    matchAll (parts.map Part.item ++ [.stop]) atStart w ≠ none ↔
      (partsNode parts).Matches atStart true w := by
  induction parts generalizing atStart w with
  | nil =>
      show (if w = [] then if w = [] then some [] else none else none) ≠ none ↔ _
      constructor
      · intro h
        obtain rfl : w = [] := by
          by_contra hw
          rw [if_neg hw] at h
          exact h rfl
        exact .stop
      · intro h
        cases h
        simp
  | cons part parts ih =>
      rw [List.map_cons, List.cons_append]
      cases part with
      | char c => exact matchAll_char_iff ih c atStart w
      | manyNot d => exact matchAll_manyNot_iff ih d _ atStart w

theorem plainEngine_ecmascript (hclosers : ∀ c ∈ closers, c = ']' ∨ c = '\x7d') :
    Ecmascript closers (plainEngine closers) where
  closers_mem := hclosers
  plain parts hplain := by
    rw [plainEngine, readParts_text hclosers hplain]
    rfl
  reads text matcher _ h := by
    unfold plainEngine at h
    split at h
    · next rest _ =>
        obtain ⟨parts, hparts, rfl⟩ := Option.map_eq_some_iff.mp h
        obtain ⟨hplain, rfl⟩ := text_of_readParts hparts
        refine ⟨.cat .start (partsNode parts), ⟨trivial, partsNode_wellFormed hplain⟩, ?_, ?_⟩
        · rw [Node.text, partsNode_text]
          rfl
        · intro w
          rw [run, matchAll, if_pos rfl, matchAll_iff_partsNode]
          constructor
          · exact fun hw => .cat .start hw
          · intro hw
            cases hw with
            | cat ha hb =>
                cases ha
                exact hb
    · cases h

end Regex

end ProofLib
