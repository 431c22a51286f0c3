import Brazier.Http.RouteLanguage
import Brazier.ProofLib.RegexLanguage
import Mathlib.Data.List.Chain

/-!
# The characters of a route's expression

Each character of the text that `convertPathToRegex` builds is marked with where it comes from: a
literal segment, a slash, or the group of a parameter. The marks that stand for a character of every
path count 1. A syntax tree that has these marks as its text has at most as many leaves as they
count; read `counted_node` first. Where it has as many, the characters of the literal segments are
leaves that stand for themselves, or a dot or a backslash.
-/

namespace Brazier

open ProofLib
open Regex (Node Sign Ordinary)

namespace RoutePath

/-- Where a character of the expression comes from. -/
inductive Mark where
  | literal (c : Char)
  | start
  | slash
  | groupOpen
  | classOpen
  | classCaret
  | classSlash
  | classClose
  | plus
  | groupClose
  | stop
  deriving DecidableEq

namespace Mark

/-- The character. -/
def char : Mark → Char
  | literal c => c
  | start | classCaret => '^'
  | slash | classSlash => '/'
  | groupOpen => '('
  | classOpen => '['
  | classClose => ']'
  | plus => '+'
  | groupClose => ')'
  | stop => '$'

/-- How many characters of a shortest path it stands for. -/
def weight : Mark → Nat
  | literal _ | slash | classOpen => 1
  | start | groupOpen | classCaret | classSlash | classClose | plus | groupClose | stop => 0

/-- What may stand next. -/
def next : Mark → Mark → Bool
  | start, slash | slash, literal _ | slash, groupOpen => true
  | literal _, literal _ | literal _, slash | literal _, stop => true
  | groupOpen, classOpen | classOpen, classCaret | classCaret, classSlash => true
  | classSlash, classClose | classClose, plus | plus, groupClose => true
  | groupClose, slash | groupClose, stop => true
  | _, _ => false

/-- The class is open behind the mark. -/
def opens : Mark → Bool
  | classOpen | classCaret | classSlash => true
  | _ => false

/-- The class is open in front of the mark. -/
def inside : Mark → Bool
  | classCaret | classSlash | classClose => true
  | _ => false

/-- The characters that `convertPathToRegex` adds. -/
def added : List Char := ['^', '/', '(', '[', ']', '+', ')', '$']

variable {m m' : Mark}

theorem inside_of_next (h : m.next m' = true) : m'.inside = m.opens := by
  cases m <;> cases m' <;> first | rfl | cases h

/-- Any other character is one of a literal segment. -/
theorem eq_literal (h : m.char ∉ added) : m = .literal m.char := by
  cases m with
  | literal c => rfl
  | _ => exact absurd (by decide) h

/-- A class that is open ends with one of these. -/
theorem opens_eq_false (h : m.char ∉ (['^', '/', '['] : List Char)) : m.opens = false := by
  cases m with
  | classOpen | classCaret | classSlash => exact absurd (by decide) h
  | _ => rfl

/-- Behind a literal character. -/
theorem opens_of_next_literal {c : Char} (h : (literal c).next m = true) : m.opens = false := by
  cases m with
  | literal | slash | stop => rfl
  | _ => cases h

/-- Behind a literal character only the end counts nothing. -/
theorem eq_stop {c : Char} (h : (literal c).next m = true) (hweight : m.weight = 0) :
    m = .stop := by
  cases m with
  | stop => rfl
  | literal | slash => cases hweight
  | _ => cases h

end Mark

/-- The marks of a segment. -/
def segmentMarks (segment : Text) : List Mark :=
  if isParam segment then
    [.slash, .groupOpen, .classOpen, .classCaret, .classSlash, .classClose, .plus, .groupClose]
  else .slash :: segment.map .literal

/-- The marks of the expression. -/
def marks (segs : List Text) : List Mark := .start :: (segs.flatMap segmentMarks ++ [.stop])

/-- What the marks count. -/
def weight : List Mark → Nat
  | [] => 0
  | m :: ms => m.weight + weight ms

/-- The marks may follow one another. -/
abbrev Chained (marks : List Mark) : Prop := marks.IsChain (fun m m' => m.next m' = true)

@[simp] theorem weight_nil : weight [] = 0 := rfl

@[simp] theorem weight_cons (m : Mark) (ms : List Mark) :
    weight (m :: ms) = m.weight + weight ms := rfl

@[simp] theorem weight_append (ms ms' : List Mark) :
    weight (ms ++ ms') = weight ms + weight ms' := by
  induction ms with
  | nil => simp
  | cons m ms ih => rw [List.cons_append, weight_cons, weight_cons, ih, Nat.add_assoc]

@[simp] theorem weight_literals (text : Text) : weight (text.map .literal) = text.length := by
  induction text with
  | nil => rfl
  | cons c text ih =>
      rw [List.map_cons, weight_cons, ih, Mark.weight, List.length_cons, Nat.add_comm]

/-- A literal character counts. -/
theorem weight_pos {ms : List Mark} {c : Char} (h : Mark.literal c ∈ ms) : 1 ≤ weight ms := by
  obtain ⟨before, behind, rfl⟩ := List.append_of_mem h
  rw [weight_append, weight_cons, Mark.weight]
  omega

/-! ## The marks of a pattern -/

theorem segmentMarks_char {segment : Text} (hne : segment ≠ []) :
    (segmentMarks segment).map Mark.char = tokenRegex segment := by
  rw [segmentMarks, tokenRegex, if_neg (show ¬ segment.isEmpty = true by simpa using hne)]
  cases hparam : isParam segment with
  | true =>
      rw [isParam, decide_eq_true_eq] at hparam
      rw [if_pos hparam]
      rfl
  | false =>
      have hhead : ¬ segment.head? = some ':' := by simpa [isParam] using hparam
      rw [if_neg hhead]
      simp [Mark.char, Function.comp_def]

/-- They spell the text of the expression. -/
theorem marks_char {segs : List Text} (hne : ∀ s ∈ segs, s ≠ []) :
    (marks segs).map Mark.char = '^' :: (segs.flatMap tokenRegex ++ ['$']) := by
  have hsegs : (segs.flatMap segmentMarks).map Mark.char = segs.flatMap tokenRegex := by
    rw [List.map_flatMap]
    exact List.flatMap_congr fun s hs => segmentMarks_char (hne s hs)
  rw [marks, List.map_cons, List.map_append, hsegs]
  rfl

/-- What stands behind a segment. -/
def Behind (rest : List Mark) : Prop :=
  Chained rest ∧ ∀ m ∈ rest.head?, m = .slash ∨ m = .stop

theorem chained_literals {rest : List Mark} (hrest : Behind rest) (c : Char) (text : Text) :
    Chained (.literal c :: (text.map .literal ++ rest)) := by
  induction text generalizing c with
  | nil =>
      refine List.isChain_cons.mpr ⟨fun m hm => ?_, hrest.1⟩
      rcases hrest.2 m hm with rfl | rfl <;> rfl
  | cons d text ih => exact List.isChain_cons_cons.mpr ⟨rfl, ih d⟩

theorem behind_segmentMarks {segment : Text} {rest : List Mark} (hrest : Behind rest)
    (hne : segment ≠ []) : Behind (segmentMarks segment ++ rest) := by
  rw [segmentMarks]
  cases isParam segment with
  | true =>
      rw [if_pos rfl]
      refine ⟨List.isChain_append.mpr ⟨by decide, hrest.1, fun m hm m' hm' => ?_⟩, ?_⟩
      · obtain rfl : Mark.groupClose = m := by simpa using hm
        rcases hrest.2 m' hm' with rfl | rfl <;> rfl
      · simp
  | false =>
      obtain ⟨c, text, rfl⟩ := List.exists_cons_of_ne_nil hne
      exact ⟨List.isChain_cons_cons.mpr ⟨rfl, chained_literals hrest c text⟩, by simp⟩

/-- The marks of a pattern with segments may follow one another. -/
theorem chained_marks {segs : List Text} (hsegs : segs ≠ []) (hne : ∀ s ∈ segs, s ≠ []) :
    Chained (marks segs) := by
  have hbehind : ∀ segs : List Text, (∀ s ∈ segs, s ≠ []) →
      Behind (segs.flatMap segmentMarks ++ [.stop]) := by
    intro segs hne
    induction segs with
    | nil => exact ⟨.singleton _, by simp⟩
    | cons segment segs ih =>
        obtain ⟨hsegment, hrest⟩ := List.forall_mem_cons.mp hne
        rw [List.flatMap_cons, List.append_assoc]
        exact behind_segmentMarks (ih hrest) hsegment
  refine List.isChain_cons.mpr ⟨fun m hm => ?_, (hbehind segs hne).1⟩
  obtain ⟨segment, segs, rfl⟩ := List.exists_cons_of_ne_nil hsegs
  obtain rfl : Mark.slash = m := by
    rw [List.flatMap_cons, segmentMarks] at hm
    split at hm <;> simpa using hm
  rfl

/-- A literal mark is a character of a literal segment. -/
theorem mem_marks_literal {segs : List Text} {c : Char} :
    Mark.literal c ∈ marks segs ↔ ∃ s ∈ segs, isParam s = false ∧ c ∈ s := by
  rw [marks, List.mem_cons, List.mem_append, List.mem_flatMap]
  constructor
  · rintro (h | ⟨s, hs, hc⟩ | h)
    · cases h
    · rw [segmentMarks] at hc
      split at hc
      · simp at hc
      · next hparam => exact ⟨s, hs, by simpa using hparam, by simpa using hc⟩
    · simp at h
  · rintro ⟨s, hs, hparam, hc⟩
    refine Or.inr (Or.inl ⟨s, hs, ?_⟩)
    rw [segmentMarks, if_neg (by simp [hparam])]
    simpa using hc

/-! ## Counting -/

/-- A character of a literal segment stands for itself, or is a dot or a backslash that is a leaf
of its own. -/
def Stands (closers : List Char) (leaves : List (Char → Bool)) (c : Char) : Prop :=
  Ordinary closers c ∨
    (c = '.' ∧ ∃ accepts ∈ leaves, ∀ d, d ≠ '\n' → d ≠ '\r' → accepts d = true) ∨
    c = '\\' ∧ ∃ accepts ∈ leaves, ∀ d, accepts d = true → d = '$'

/-- The marks count at least the leaves, and end outside a class. If they count no more, their
literal characters stand for themselves or are leaves. -/
structure Counted (closers : List Char) (ms : List Mark) (leaves : List (Char → Bool)) : Prop where
  le_weight : leaves.length ≤ weight ms
  outside : ∀ m ∈ ms.getLast?, m.opens = false
  stands : weight ms = leaves.length → ∀ c, Mark.literal c ∈ ms → Stands closers leaves c

/-- The marks begin outside a class. -/
def Enters (ms : List Mark) : Prop := ∀ m ∈ ms.head?, m.inside = false

variable {closers : List Char} {ms ms' : List Mark} {leaves leaves' : List (Char → Bool)} {m : Mark}

theorem Stands.mono {c : Char} (h : Stands closers leaves c) (hleaves : leaves ⊆ leaves') :
    Stands closers leaves' c := by
  rcases h with h | ⟨hc, accepts, hmem, hany⟩ | ⟨hc, accepts, hmem, honly⟩
  · exact Or.inl h
  · exact Or.inr (Or.inl ⟨hc, accepts, hleaves hmem, hany⟩)
  · exact Or.inr (Or.inr ⟨hc, accepts, hleaves hmem, honly⟩)

/-- One text behind the other. -/
theorem counted_append (hchain : Chained (ms ++ ms')) (henters : Enters (ms ++ ms'))
    (hleft : Chained ms → Enters ms → Counted closers ms leaves)
    (hright : Chained ms' → Enters ms' → Counted closers ms' leaves') :
    Counted closers (ms ++ ms') (leaves ++ leaves') := by
  obtain ⟨hchain, hchain', hbetween⟩ := List.isChain_append.mp hchain
  have hms : Counted closers ms leaves := by
    refine hleft hchain fun m hm => henters m ?_
    rw [List.head?_append, Option.mem_def.mp hm]
    rfl
  have hms' : Counted closers ms' leaves' := by
    refine hright hchain' fun m hm => ?_
    cases hlast : ms.getLast? with
    | none =>
        rw [List.getLast?_eq_none_iff] at hlast
        subst hlast
        exact henters m hm
    | some before =>
        rw [Mark.inside_of_next (hbetween before hlast m hm)]
        exact hms.outside before hlast
  constructor
  · rw [List.length_append, weight_append]
    exact Nat.add_le_add hms.le_weight hms'.le_weight
  · intro m hm
    rw [List.getLast?_append, Option.mem_def, Option.or_eq_some_iff] at hm
    rcases hm with hm | ⟨_, hm⟩
    · exact hms'.outside m hm
    · exact hms.outside m hm
  · intro htight c hc
    have hle := hms.le_weight
    have hle' := hms'.le_weight
    rw [List.length_append, weight_append] at htight
    rcases List.mem_append.mp hc with hc | hc
    · exact (hms.stands (by omega) c hc).mono (List.subset_append_left _ _)
    · exact (hms'.stands (by omega) c hc).mono (List.subset_append_right _ _)

/-- A sign that is no leaf. -/
theorem counted_sign (hm : m.opens = false) : Counted closers [m] [] where
  le_weight := Nat.zero_le _
  outside m' hm' := by
    obtain rfl : m = m' := by simpa using hm'
    exact hm
  stands htight c hc := absurd (weight_pos hc) (by rw [htight]; exact Nat.lt_irrefl 0)

/-- An ordinary character is no metacharacter but a closing bracket. -/
theorem ordinary_special (hclosers : ∀ c ∈ closers, c = ']' ∨ c = '\x7d') {c : Char}
    (hc : Ordinary closers c) (hspecial : c ∈ Regex.metacharacters) : c = ']' ∨ c = '\x7d' :=
  hc.elim (absurd hspecial) (hclosers c)

/-- A letter or a digit is one of a literal segment. -/
theorem eq_literal_of_alphanum (h : m.char.isAlphanum = true) : m = .literal m.char := by
  refine Mark.eq_literal fun hadded => ?_
  have hnone : ∀ c ∈ Mark.added, c.isAlphanum = false := by simp [Mark.added]
  rw [hnone _ hadded] at h
  cases h

/-- An ordinary character is the slash of a segment, or one of a literal segment. -/
theorem counted_char (hclosers : ∀ c ∈ closers, c = ']' ∨ c = '\x7d')
    (hordinary : Ordinary closers m.char) (hinside : m.inside = false) :
    Counted closers [m] [fun d => d = m.char] := by
  have hspecial := ordinary_special hclosers hordinary
  have hmark : m = .literal m.char ∨ m = .slash := by
    cases m with
    | literal c => exact Or.inl rfl
    | slash => exact Or.inr rfl
    | classCaret | classSlash | classClose => cases hinside
    | _ => exact absurd (hspecial (by decide)) (by decide)
  refine ⟨?_, fun m' hm' => ?_, fun _ c hc => ?_⟩
  · rcases hmark with h | h <;> rw [h] <;> exact Nat.le_refl 1
  · obtain rfl : m = m' := by simpa using hm'
    rcases hmark with h | h <;> rw [h] <;> rfl
  · obtain rfl := List.mem_singleton.mp hc
    exact Or.inl hordinary

theorem counted_any {accepts : Char → Bool}
    (hany : ∀ c, c ≠ '\n' → c ≠ '\r' → accepts c = true) :
    Counted closers [.literal '.'] [accepts] := by
  refine ⟨Nat.le_refl 1, by simp [Mark.opens], fun _ c hc => ?_⟩
  obtain rfl : c = '.' := by simpa using hc
  exact Or.inr (Or.inl ⟨rfl, accepts, List.mem_singleton_self _, hany⟩)

/-- Of what a backslash escapes only the end of the expression counts nothing. -/
theorem counted_escape (hnext : (Mark.literal '\\').next m = true) :
    Counted closers [.literal '\\', m] [fun d => d = m.char] := by
  refine ⟨by simp [Mark.weight], fun m' hm' => ?_, fun htight c hc => ?_⟩
  · obtain rfl : m = m' := by simpa using hm'
    exact Mark.opens_of_next_literal hnext
  · obtain rfl : m = .stop := Mark.eq_stop hnext (by simpa [Mark.weight] using htight)
    obtain rfl : c = '\\' := by simpa using hc
    exact Or.inr (Or.inr ⟨rfl, _, List.mem_singleton_self _, fun d hd => of_decide_eq_true hd⟩)

/-- The backslash and the letter count more than the leaf. -/
theorem counted_escapeName {accepts : Char → Bool} (hletter : m.char.isAlphanum = true)
    (hmore : ∀ m' ∈ ms.tail, m'.char.isAlphanum = true) (hchain : Chained (m :: ms)) :
    Counted closers (.literal '\\' :: m :: ms) [accepts] := by
  have hliteral := eq_literal_of_alphanum hletter
  have htwo : 2 ≤ weight (.literal '\\' :: m :: ms) := by
    rw [weight_cons, weight_cons, hliteral]
    simp only [Mark.weight]
    omega
  refine ⟨Nat.le_of_succ_le htwo, fun last hlast => ?_, fun htight => ?_⟩
  · cases ms with
    | nil =>
        obtain rfl : m = last := by simpa using hlast
        rw [hliteral]
        rfl
    | cons x rest =>
        have hnext := (List.isChain_cons_cons.mp hchain).1
        rw [hliteral] at hnext
        cases rest with
        | nil =>
            obtain rfl : x = last := by simpa using hlast
            exact Mark.opens_of_next_literal hnext
        | cons y rest =>
            have hmem : last ∈ y :: rest := List.mem_of_getLast? (by simpa using hlast)
            rw [eq_literal_of_alphanum (hmore last hmem)]
            rfl
  · rw [htight] at htwo
    exact absurd htwo (by simp)

/-- A class that counts no more than the leaf is that of a parameter. -/
theorem counted_oneOf {accepts : Char → Bool} {m' : Mark} (hm : m.char = '[') (hm' : m'.char = ']')
    (hchain : Chained (m :: (ms ++ [m']))) : Counted closers (m :: (ms ++ [m'])) [accepts] := by
  have hopening : m = .literal '[' ∨ m = .classOpen := by
    cases m with
    | literal c => exact Or.inl (congrArg Mark.literal hm)
    | classOpen => exact Or.inr rfl
    | _ => cases hm
  have hone : m.weight = 1 := by
    rcases hopening with rfl | rfl <;> rfl
  refine ⟨?_, fun last hlast => ?_, fun htight c hc => ?_⟩
  · rw [weight_cons, hone]
    exact Nat.le_add_right 1 _
  · rw [← List.cons_append, List.getLast?_concat] at hlast
    obtain rfl := Option.some.inj (Option.mem_def.mp hlast)
    exact Mark.opens_eq_false (by rw [hm']; decide)
  · have hnone : weight (ms ++ [m']) = 0 := by
      rw [weight_cons, hone] at htight
      simpa using htight
    rcases List.mem_cons.mp hc with rfl | hc
    · -- behind a literal bracket only the end counts nothing, and nothing stands behind the end
      cases ms with
      | nil =>
          have hnext := (List.isChain_cons_cons.mp hchain).1
          obtain rfl : m' = .stop := Mark.eq_stop hnext (by simpa using hnone)
          cases hm'
      | cons y ms =>
          obtain ⟨hnext, hbehind⟩ := List.isChain_cons_cons.mp hchain
          rw [List.cons_append, weight_cons, Nat.add_eq_zero_iff] at hnone
          obtain rfl : y = .stop := Mark.eq_stop hnext hnone.1
          cases ms with
          | nil => cases (List.isChain_cons_cons.mp hbehind).1
          | cons => cases (List.isChain_cons_cons.mp hbehind).1
    · have hpos := weight_pos hc
      rw [hnone] at hpos
      exact absurd hpos (Nat.lt_irrefl 0)

/-- The leaves, by their signs. -/
theorem counted_leaf (hclosers : ∀ c ∈ closers, c = ']' ∨ c = '\x7d') {sign : List Char}
    {accepts : Char → Bool} (hsign : Sign closers sign accepts) (hms : ms.map Mark.char = sign)
    (hchain : Chained ms) (henters : Enters ms) : Counted closers ms [accepts] := by
  cases hsign with
  | char c hc =>
      obtain ⟨m, rfl, rfl⟩ := List.map_eq_singleton_iff.mp hms
      exact counted_char hclosers hc (henters m rfl)
  | any accepts hany =>
      obtain ⟨m, rfl, hm⟩ := List.map_eq_singleton_iff.mp hms
      obtain rfl : m = .literal '.' := hm ▸ Mark.eq_literal (by rw [hm]; decide)
      exact counted_any hany
  | escape c hc =>
      obtain ⟨m, ms, rfl, hm, hms⟩ := List.map_eq_cons_iff.mp hms
      obtain ⟨m', rfl, rfl⟩ := List.map_eq_singleton_iff.mp hms
      obtain rfl : m = .literal '\\' := hm ▸ Mark.eq_literal (by rw [hm]; decide)
      exact counted_escape (List.isChain_cons_cons.mp hchain).1
  | escapeName c hc more hmore accepts =>
      obtain ⟨m, ms, rfl, hm, hms⟩ := List.map_eq_cons_iff.mp hms
      obtain ⟨m', ms, rfl, rfl, rfl⟩ := List.map_eq_cons_iff.mp hms
      obtain rfl : m = .literal '\\' := hm ▸ Mark.eq_literal (by rw [hm]; decide)
      refine counted_escapeName hc (fun m'' hmem => ?_) (List.isChain_cons_cons.mp hchain).2
      exact hmore _ (by rw [← List.map_tail]; exact List.mem_map_of_mem hmem)
  | oneOf content accepts =>
      obtain ⟨m, ms, rfl, hm, hms⟩ := List.map_eq_cons_iff.mp hms
      obtain ⟨content, last, rfl, _, hlast⟩ := List.map_eq_append_iff.mp hms
      obtain ⟨m', rfl, hm'⟩ := List.map_eq_singleton_iff.mp hlast
      exact counted_oneOf hm hm' hchain

/-- Marks that are the text of a syntax tree count at least its leaves, and where they count no
more, their literal characters stand for themselves or are leaves. -/
theorem counted_node (hclosers : ∀ c ∈ closers, c = ']' ∨ c = '\x7d') {n : Node}
    (hwell : n.WellFormed closers) (hms : ms.map Mark.char = n.text) (hchain : Chained ms)
    (henters : Enters ms) : Counted closers ms n.leaves := by
  -- a sign with a character of its own
  have hsign : ∀ {ms : List Mark} {c : Char}, ms.map Mark.char = [c] →
      c ∉ (['^', '/', '['] : List Char) → Counted closers ms [] := by
    intro ms c hms hc
    obtain ⟨m, rfl, rfl⟩ := List.map_eq_singleton_iff.mp hms
    exact counted_sign (Mark.opens_eq_false hc)
  induction n generalizing ms with
  | empty =>
      obtain rfl := List.map_eq_nil_iff.mp hms
      exact ⟨Nat.zero_le _, by simp, by simp⟩
  | leaf sign accepts => exact counted_leaf hclosers hwell hms hchain henters
  | start =>
      obtain ⟨m, rfl, hm⟩ := List.map_eq_singleton_iff.mp hms
      have hinside : m.inside = false := henters m rfl
      refine counted_sign ?_
      cases m with
      | classCaret => cases hinside
      | classOpen | classSlash => cases hm
      | _ => rfl
  | stop => exact hsign hms (by decide)
  | cat a b iha ihb =>
      obtain ⟨ms, ms', rfl, ha, hb⟩ := List.map_eq_append_iff.mp hms
      exact counted_append hchain henters (iha hwell.1 ha) (ihb hwell.2 hb)
  | alt a b iha ihb =>
      obtain ⟨ms, behind, rfl, ha, hbehind⟩ := List.map_eq_append_iff.mp hms
      rw [← List.singleton_append] at hbehind
      obtain ⟨bar, ms', rfl, hbar, hb⟩ := List.map_eq_append_iff.mp hbehind
      exact counted_append hchain henters (iha hwell.1 ha) fun hchain henters =>
        counted_append hchain henters (fun _ _ => hsign hbar (by decide)) (ihb hwell.2 hb)
  | group a iha =>
      rw [Node.text, ← List.singleton_append, List.append_assoc] at hms
      obtain ⟨opening, behind, rfl, hopening, hbehind⟩ := List.map_eq_append_iff.mp hms
      obtain ⟨ms, closing, rfl, ha, hclosing⟩ := List.map_eq_append_iff.mp hbehind
      rw [Node.leaves, ← List.append_nil a.leaves, ← List.nil_append (a.leaves ++ [])]
      exact counted_append hchain henters (fun _ _ => hsign hopening (by decide))
        fun hchain henters => counted_append hchain henters (iha hwell ha)
          fun _ _ => hsign hclosing (by decide)
  | star a iha | plus a iha =>
      obtain ⟨ms, behind, rfl, ha, hbehind⟩ := List.map_eq_append_iff.mp hms
      rw [Node.leaves, ← List.append_nil a.leaves]
      exact counted_append hchain henters (iha hwell ha) fun _ _ => hsign hbehind (by decide)

end RoutePath

end Brazier
