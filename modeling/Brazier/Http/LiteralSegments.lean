import Brazier.Http.RouteMarks

/-!
# Special characters in literal segments

Literal segments are spliced into the expression as they are. The engine reads a special character
in one as what it means in an expression, so the route refuses its own text, accepts another one,
captures more than its parameters, or cannot be constructed. Read `literals_verbatim` first: only a
closing bracket that the engine takes for itself does no harm.
-/

namespace Brazier

open ProofLib
open Regex (Node Ordinary Apart Covered Ecmascript)

namespace RoutePath

/-- The part may stand for the segment in a target, which has its path in front of a question
mark. -/
def FitsTarget (segment part : Text) : Prop :=
  SegmentFits segment part ∧ (isParam segment = true → '?' ∉ part)

/-- The constructor returns. The route accepts the targets with parts for its segments, where a
literal segment is its own text, and no others, and sets the parameters to the parts. -/
def Verbatim (engine : Regex.Engine) (path : Text) : Prop :=
  ∃ route, ofPath engine path = some route ∧
    (∀ parts outParams, List.Forall₂ FitsTarget (segments path) parts →
      (route.match (slashed parts) outParams).1 = true) ∧
    ∀ target outParams, (route.match target outParams).1 = true →
      ∃ parts, List.Forall₂ SegmentFits (segments path) parts ∧
        pathOnly target = slashed parts ∧
        ParamsSet (segments path) parts outParams (route.match target outParams).2

/-- A literal segment has a special character other than the question mark. -/
def SpecialLiteral (segs : List Text) : Prop :=
  ∃ segment ∈ segs, isParam segment = false ∧
    ∃ c ∈ segment, c ∈ Regex.metacharacters ∧ c ≠ '?'

/-- The engine takes the characters of the literal segments for themselves. -/
def OrdinaryLiterals (closers : List Char) (segs : List Text) : Prop :=
  ∀ segment ∈ segs, isParam segment = false → ∀ c ∈ segment, Ordinary closers c

/-- The literal segments have no counts, back references or boundaries of words. -/
def CoveredLiterals (segs : List Text) : Prop :=
  ∀ segment ∈ segs, isParam segment = false → segment.IsChain Apart

/-! ## Paths -/

section Paths

variable {segs parts : List Text}

theorem slashed_cons (part : Text) (parts : List Text) :
    slashed (part :: parts) = '/' :: (part ++ slashed parts) := rfl

/-- Paths have a slash for each segment. -/
theorem count_slash (hfits : List.Forall₂ SegmentFits segs parts) :
    (slashed parts).count '/' = segs.length := by
  induction hfits with
  | nil => rfl
  | @cons segment part segs parts hfit _ ih =>
      have hnone : part.count '/' = 0 := List.count_eq_zero.mpr hfit.2.1
      rw [slashed_cons, List.count_cons_self, List.count_append, ih, hnone, Nat.zero_add,
        List.length_cons]

/-- They have the characters of the literal segments. -/
theorem mem_slashed (hfits : List.Forall₂ SegmentFits segs parts) {segment : Text}
    (hmem : segment ∈ segs) (hliteral : isParam segment = false) {c : Char} (hc : c ∈ segment) :
    c ∈ slashed parts := by
  induction hfits with
  | nil => cases hmem
  | @cons _ part segs parts hfit _ ih =>
      rw [slashed_cons, List.mem_cons, List.mem_append]
      rcases List.mem_cons.mp hmem with rfl | hmem
      · exact Or.inr (Or.inl (by rwa [hfit.2.2 hliteral]))
      · exact Or.inr (Or.inr (ih hmem))

/-- A shortest part for a segment. -/
def shortestPart (segment : Text) : Text := if isParam segment then ['y'] else segment

/-- The parts of a shortest path. -/
def shortest (segs : List Text) : List Text := segs.map shortestPart

theorem shortest_cons (segment : Text) (segs : List Text) :
    shortest (segment :: segs) = shortestPart segment :: shortest segs := rfl

/-- A segment counts the slash and a shortest part. -/
theorem weight_segmentMarks (segment : Text) :
    weight (segmentMarks segment) = (shortestPart segment).length + 1 := by
  rw [segmentMarks, shortestPart]
  cases isParam segment with
  | true => rfl
  | false =>
      rw [if_neg Bool.false_ne_true, if_neg Bool.false_ne_true, weight_cons, weight_literals]
      exact Nat.add_comm 1 _

/-- The marks of the expression count the characters of a shortest path. -/
theorem weight_marks (segs : List Text) :
    weight (marks segs) = (slashed (shortest segs)).length := by
  have hsegs : weight (segs.flatMap segmentMarks) = (slashed (shortest segs)).length := by
    induction segs with
    | nil => rfl
    | cons segment segs ih =>
        rw [List.flatMap_cons, weight_append, weight_segmentMarks, ih, shortest_cons, slashed_cons,
          List.length_cons, List.length_append]
        omega
  rw [marks, weight_cons, weight_append, hsegs]
  exact Nat.zero_add _

/-- No path is shorter. -/
theorem length_shortest_le (hfits : List.Forall₂ SegmentFits segs parts) :
    (slashed (shortest segs)).length ≤ (slashed parts).length := by
  induction hfits with
  | nil => exact Nat.le_refl 0
  | @cons segment part segs parts hfit _ ih =>
      have hpart : (shortestPart segment).length ≤ part.length := by
        rw [shortestPart]
        cases hparam : isParam segment with
        | true => exact List.length_pos_of_ne_nil hfit.1
        | false => exact Nat.le_of_eq (by rw [hfit.2.2 hparam]; rfl)
      rw [shortest_cons, slashed_cons, slashed_cons, List.length_cons, List.length_cons,
        List.length_append, List.length_append]
      omega

/-- A shortest path has slashes, letters for the parameters, and the literal segments. -/
theorem mem_slashed_shortest {c : Char} (h : c ∈ slashed (shortest segs)) :
    c = '/' ∨ c = 'y' ∨ ∃ s ∈ segs, isParam s = false ∧ c ∈ s := by
  rw [shortest, slashed, List.flatMap_map, List.mem_flatMap] at h
  obtain ⟨s, hs, hc⟩ := h
  rw [List.mem_cons, shortestPart] at hc
  rcases hc with hc | hc
  · exact Or.inl hc
  · cases hparam : isParam s with
    | true =>
        rw [hparam, if_pos rfl, List.mem_singleton] at hc
        exact Or.inr (Or.inl hc)
    | false =>
        rw [hparam, if_neg Bool.false_ne_true] at hc
        exact Or.inr (Or.inr ⟨s, hs, hparam, hc⟩)

theorem fitsTarget_shortestPart {segment : Text} (hne : segment ≠ []) (hslash : '/' ∉ segment) :
    FitsTarget segment (shortestPart segment) := by
  rw [shortestPart]
  cases hparam : isParam segment with
  | true =>
      rw [if_pos rfl]
      refine ⟨⟨by decide, by decide, fun hliteral => ?_⟩, fun _ => by decide⟩
      rw [hparam] at hliteral
      cases hliteral
  | false => exact ⟨⟨hne, hslash, fun _ => rfl⟩, fun h => absurd (hparam.symm.trans h) (by decide)⟩

theorem fitsTarget_shortest (path : Text) :
    List.Forall₂ FitsTarget (segments path) (shortest (segments path)) := by
  rw [shortest, List.forall₂_map_right_iff, List.forall₂_same]
  exact fun s hs => fitsTarget_shortestPart (segments_ne_nil hs) (slash_notMem hs)

end Paths

/-! ## Ordinary literal segments -/

/-- The parts of the expression of a segment. -/
def segmentParts (segment : Text) : List Regex.Part :=
  if isParam segment then [.char '/', .manyNot '/'] else ('/' :: segment).map .char

theorem segmentParts_text {segment : Text} (hne : segment ≠ []) :
    (segmentParts segment).flatMap Regex.Part.text = tokenRegex segment := by
  rw [segmentParts, tokenRegex, if_neg (show ¬ segment.isEmpty = true by simpa using hne)]
  cases hparam : isParam segment with
  | true =>
      rw [isParam, decide_eq_true_eq] at hparam
      rw [if_pos hparam]
      rfl
  | false =>
      have hhead : ¬ segment.head? = some ':' := by simpa [isParam] using hparam
      rw [if_neg hhead, if_neg Bool.false_ne_true, List.flatMap_map]
      exact List.flatMap_singleton' _

theorem segmentParts_item (segment : Text) :
    (segmentParts segment).map Regex.Part.item = segmentItems segment := by
  rw [segmentParts, segmentItems]
  cases isParam segment with
  | true => rfl
  | false => exact List.map_map

variable {closers : List Char} {engine : Regex.Engine} {path : Text}

theorem segmentParts_plain {segment : Text}
    (hordinary : isParam segment = false → ∀ c ∈ segment, Ordinary closers c) :
    ∀ part ∈ segmentParts segment, part.Plain closers := by
  have hspecial : '/' ∉ Regex.metacharacters := by decide
  have hslash : Ordinary closers '/' := Or.inl hspecial
  rw [segmentParts]
  cases hparam : isParam segment with
  | true => exact List.forall_mem_cons.mpr ⟨hslash, List.forall_mem_singleton.mpr hspecial⟩
  | false =>
      exact List.forall_mem_map.mpr (List.forall_mem_cons.mpr ⟨hslash, hordinary hparam⟩)

/-- The engine compiles a pattern of ordinary characters to its expression. -/
theorem compiled_of_ordinary (h : Ecmascript closers engine) (hsegs : segments path ≠ [])
    (hordinary : OrdinaryLiterals closers (segments path)) :
    engine (convertPathToRegex path) = some (Regex.run (expression (segments path))) := by
  have hcompiled := h.plain ((segments path).flatMap segmentParts) fun part hpart => by
    obtain ⟨s, hs, hpart⟩ := List.mem_flatMap.mp hpart
    exact segmentParts_plain (hordinary s hs) part hpart
  have htext : ((segments path).flatMap segmentParts).flatMap Regex.Part.text =
      (segments path).flatMap tokenRegex := by
    rw [List.flatMap_assoc]
    exact List.flatMap_congr fun s hs => segmentParts_text (segments_ne_nil hs)
  have hitems : ((segments path).flatMap segmentParts).map Regex.Part.item =
      (segments path).flatMap segmentItems := by
    rw [List.map_flatMap]
    exact List.flatMap_congr fun s _ => segmentParts_item s
  rw [htext, hitems] at hcompiled
  rw [convertPathToRegex_eq hsegs, expression, if_neg hsegs, hcompiled]

/-- The path of a target has no question mark. -/
theorem question_notMem_pathOnly (target : Text) : '?' ∉ pathOnly target := by
  intro hmem
  simpa using List.mem_takeWhile_imp hmem

/-- Without a question mark the target is the path. -/
theorem pathOnly_of_notMem {target : Text} (h : '?' ∉ target) : pathOnly target = target := by
  rw [pathOnly, List.takeWhile_eq_self_iff]
  intro c hc
  rw [decide_eq_true_eq]
  rintro rfl
  exact h hc

/-- Without question marks in literal segments there are none in the targets of a pattern. -/
theorem question_notMem_slashed {segs parts : List Text}
    (hparts : List.Forall₂ FitsTarget segs parts)
    (hliterals : ∀ s ∈ segs, isParam s = false → '?' ∉ s) : '?' ∉ slashed parts := by
  induction hparts with
  | nil => exact List.not_mem_nil
  | @cons segment part segs parts hfits _ ih =>
      obtain ⟨hsegment, hsegs⟩ := List.forall_mem_cons.mp hliterals
      have hpart : '?' ∉ part := by
        cases hparam : isParam segment with
        | true => exact hfits.2 hparam
        | false =>
            rw [hfits.1.2.2 hparam]
            exact hsegment hparam
      rw [slashed_cons, List.mem_cons, List.mem_append]
      rintro (h | h | h)
      · cases h
      · exact hpart h
      · exact ih hsegs h

/-- No closing bracket is a question mark. -/
theorem question_not_ordinary (h : Ecmascript closers engine) : ¬ Ordinary closers '?' := by
  intro hordinary
  rcases ordinary_special h.closers_mem hordinary (by decide) with hc | hc <;> cases hc

/-- A pattern of ordinary characters is matched verbatim. -/
theorem verbatim_of_ordinary (h : Ecmascript closers engine) (hsegs : segments path ≠ [])
    (hordinary : OrdinaryLiterals closers (segments path)) : Verbatim engine path := by
  obtain ⟨route, hroute, hmatch⟩ :=
    match_iff_of_compiled (compiled_of_ordinary h hsegs hordinary)
  refine ⟨route, hroute, fun parts outParams hparts => ?_, fun target outParams hmatched => ?_⟩
  · have hquestion := question_notMem_slashed hparts fun s hs hliteral hmem =>
      question_not_ordinary h (hordinary s hs hliteral '?' hmem)
    refine (hmatch (slashed parts) outParams).1.mpr ⟨parts, hparts.imp fun _ _ => And.left, ?_⟩
    exact Or.inl (pathOnly_of_notMem hquestion)
  · obtain ⟨parts, hparts⟩ := (hmatch target outParams).1.mp hmatched
    refine ⟨parts, hparts.1, ?_, (hmatch target outParams).2.1 parts hparts⟩
    exact hparts.2.resolve_right fun hempty => hsegs hempty.1

/-! ## Verbatim patterns -/

/-- A literal segment with a question mark is never matched verbatim. -/
theorem Verbatim.question_notMem (hverbatim : Verbatim engine path) {segment : Text}
    (hsegment : segment ∈ segments path) (hliteral : isParam segment = false) :
    '?' ∉ segment := by
  obtain ⟨route, _, haccepts, honly⟩ := hverbatim
  obtain ⟨parts, hfits, hpath, _⟩ :=
    honly _ ∅ (haccepts (shortest (segments path)) ∅ (fitsTarget_shortest path))
  intro hmem
  refine question_notMem_pathOnly (slashed (shortest (segments path))) ?_
  rw [hpath]
  exact mem_slashed hfits hsegment hliteral hmem

/-- The characters of the tokens, in front of a slash or of the end. -/
theorem isChain_tokens {segs : List Text} (hcovered : CoveredLiterals segs) :
    (segs.flatMap tokenRegex ++ ['$']).IsChain Apart ∧
      ∀ d ∈ (segs.flatMap tokenRegex ++ ['$']).head?, d = '/' ∨ d = '$' := by
  have hbehind : ∀ {c d : Char}, d = '/' ∨ d = '$' → Apart c d := by
    rintro c d (rfl | rfl)
    · exact Regex.apart_of (by decide) (by decide)
    · exact Regex.apart_of (by decide) (by decide)
  induction segs with
  | nil => exact ⟨.singleton _, by simp⟩
  | cons segment segs ih =>
      obtain ⟨hsegment, hsegs⟩ := List.forall_mem_cons.mp hcovered
      obtain ⟨hchain, hhead⟩ := ih hsegs
      rw [List.flatMap_cons, List.append_assoc]
      have hinfront : ∀ {token : Text}, token.IsChain Apart →
          (token ++ (segs.flatMap tokenRegex ++ ['$'])).IsChain Apart := fun htoken =>
        List.isChain_append.mpr ⟨htoken, hchain, fun c _ d hd => hbehind (hhead d hd)⟩
      rw [tokenRegex]
      split
      · exact ⟨hchain, hhead⟩
      · split
        · exact ⟨hinfront (by decide), by simp⟩
        · next hparam =>
            have hliteral : segment.IsChain Apart := hsegment (by simpa [isParam] using hparam)
            refine ⟨hinfront (List.isChain_cons.mpr ⟨fun d _ => ?_, hliteral⟩), by simp⟩
            exact ⟨fun h => absurd h (by decide), fun h => absurd h (by decide)⟩

/-- The syntax trees cover the text of a pattern if they cover its literal segments. -/
theorem covered_convertPathToRegex (hsegs : segments path ≠ [])
    (hcovered : CoveredLiterals (segments path))
    (hquestion : ∀ s ∈ segments path, isParam s = false → '?' ∉ s) :
    Covered (convertPathToRegex path) := by
  constructor
  · rw [convertPathToRegex_eq hsegs, ← marks_char fun s hs => segments_ne_nil hs, List.mem_map]
    rintro ⟨m, hm, hchar⟩
    rw [Mark.eq_literal (show m.char ∉ Mark.added by rw [hchar]; decide), hchar] at hm
    obtain ⟨s, hs, hliteral, hmem⟩ := mem_marks_literal.mp hm
    exact hquestion s hs hliteral hmem
  · obtain ⟨hchain, hhead⟩ := isChain_tokens hcovered
    rw [convertPathToRegex_eq hsegs]
    refine List.isChain_cons.mpr ⟨fun d _ => ?_, hchain⟩
    exact ⟨fun h => absurd h (by decide), fun h => absurd h (by decide)⟩

/-- Where a covered pattern is matched verbatim, the characters of its literal segments stand for
themselves or are leaves, and changing a shortest path at a leaf gives another path. -/
theorem exists_leaves_of_verbatim (h : Ecmascript closers engine) (hsegs : segments path ≠ [])
    (hcovered : CoveredLiterals (segments path)) (hverbatim : Verbatim engine path) :
    ∃ leaves, (∀ c, Mark.literal c ∈ marks (segments path) → Stands closers leaves c) ∧
      ∀ accepts ∈ leaves, ∃ u c v, slashed (shortest (segments path)) = u ++ c :: v ∧
        accepts c = true ∧ ∀ d, d ≠ '?' → accepts d = true →
          ∃ parts, List.Forall₂ SegmentFits (segments path) parts ∧ u ++ d :: v = slashed parts := by
  have hquestion : ∀ s ∈ segments path, isParam s = false → '?' ∉ s :=
    fun s hs => hverbatim.question_notMem hs
  obtain ⟨route, hroute, haccepts, honly⟩ := hverbatim
  obtain ⟨matcher, hmatcher, rfl⟩ := Option.map_eq_some_iff.mp hroute
  obtain ⟨node, hwell, htext, hwords⟩ :=
    h.reads _ _ (covered_convertPathToRegex hsegs hcovered hquestion) hmatcher
  have hmatches : ∀ {w : Text} (outParams : Params), '?' ∉ w →
      ((RoutePath.match ⟨path, matcher, extractParamNames path⟩ w outParams).1 = true ↔
        node.Matches true true w) := by
    intro w outParams hw
    rw [match_iff, pathOnly_of_notMem hw, ← hwords]
  have hpaths : ∀ w, '?' ∉ w → node.Matches true true w →
      ∃ parts, List.Forall₂ SegmentFits (segments path) parts ∧ w = slashed parts := by
    intro w hw hword
    obtain ⟨parts, hfits, hpath, _⟩ := honly w ∅ ((hmatches ∅ hw).mpr hword)
    exact ⟨parts, hfits, by rw [← hpath, pathOnly_of_notMem hw]⟩
  have hplain := question_notMem_slashed (fitsTarget_shortest path) hquestion
  have hword := (hmatches ∅ hplain).mp (haccepts _ ∅ (fitsTarget_shortest path))
  -- there are as many leaves as characters: no fewer as no word is shorter, no more as the marks
  -- count no more
  obtain ⟨hle, hswap⟩ := hword.swap_of_shortest fun w' hw' hchars => by
    obtain ⟨parts, hfits, rfl⟩ := hpaths w' (fun hmem => hplain (hchars _ hmem)) hw'
    exact length_shortest_le hfits
  have hne : ∀ s ∈ segments path, s ≠ [] := fun s hs => segments_ne_nil hs
  have hspelled : (marks (segments path)).map Mark.char = node.text := by
    rw [marks_char hne, htext, convertPathToRegex_eq hsegs]
  have hcounted := counted_node h.closers_mem hwell hspelled (chained_marks hsegs hne)
    (by simp [Enters, marks, Mark.inside])
  have hge := hcounted.le_weight
  rw [weight_marks] at hge
  refine ⟨node.leaves, hcounted.stands ?_, fun accepts hmem => ?_⟩
  · rw [weight_marks]
    exact Nat.le_antisymm hle hge
  · obtain ⟨u, c, v, hw, hc, hswapped⟩ := hswap hge accepts hmem
    refine ⟨u, c, v, hw, hc, fun d hd haccepted => hpaths _ ?_ (hswapped d haccepted)⟩
    rw [hw] at hplain
    simp only [List.mem_append, List.mem_cons, not_or] at hplain ⊢
    exact ⟨hplain.1, fun h => hd h.symm, hplain.2.2⟩

/-- Paths of one pattern do not differ in a slash. -/
theorem not_slash_swap {segs parts parts' : List Text} {u v : Text}
    (hfits : List.Forall₂ SegmentFits segs parts) (hfits' : List.Forall₂ SegmentFits segs parts')
    (h : u ++ '/' :: v = slashed parts) (h' : u ++ 'x' :: v = slashed parts') : False := by
  have hcount := count_slash hfits
  have hcount' := count_slash hfits'
  rw [← h, List.count_append, List.count_cons_self] at hcount
  rw [← h', List.count_append, List.count_cons_of_ne (by decide)] at hcount'
  omega

/-- A covered pattern that is matched verbatim has ordinary characters only. -/
theorem ordinary_of_verbatim (h : Ecmascript closers engine) (hsegs : segments path ≠ [])
    (hcovered : CoveredLiterals (segments path)) (hverbatim : Verbatim engine path) :
    OrdinaryLiterals closers (segments path) := by
  obtain ⟨leaves, hstands, hswap⟩ := exists_leaves_of_verbatim h hsegs hcovered hverbatim
  intro s hs hliteral c hc
  rcases hstands c (mem_marks_literal.mpr ⟨s, hs, hliteral, hc⟩) with
    hordinary | ⟨_, accepts, hmem, hany⟩ | ⟨_, accepts, hmem, honly⟩
  · exact hordinary
  · -- a dot accepts a slash and a letter
    obtain ⟨u, c', v, _, _, hswapped⟩ := hswap accepts hmem
    obtain ⟨parts, hfits, hslash⟩ :=
      hswapped '/' (by decide) (hany '/' (by decide) (by decide))
    obtain ⟨parts', hfits', hletter⟩ :=
      hswapped 'x' (by decide) (hany 'x' (by decide) (by decide))
    exact (not_slash_swap hfits hfits' hslash hletter).elim
  · -- the backslash takes the dollar sign of the end, which then stands in a literal segment
    obtain ⟨u, c', v, hw, hc', _⟩ := hswap accepts hmem
    obtain rfl := honly c' hc'
    have hdollar : '$' ∈ slashed (shortest (segments path)) := by simp [hw]
    rcases mem_slashed_shortest hdollar with h' | h' | hmarked
    · cases h'
    · cases h'
    · rcases hstands '$' (mem_marks_literal.mpr hmarked) with h' | ⟨h', _⟩ | ⟨h', _⟩
      · rcases ordinary_special h.closers_mem h' (by decide) with h' | h' <;> cases h'
      · cases h'
      · cases h'

/-- A pattern with a special character in a literal segment is matched verbatim if the engine takes
the characters of the literal segments for themselves. Otherwise it is not, except where a literal
segment has what the syntax trees do not cover. -/
theorem literals_verbatim (closers : List Char) (engine : Regex.Engine)
    (h : Ecmascript closers engine) (path : Text) (hspecial : SpecialLiteral (segments path)) :
    (OrdinaryLiterals closers (segments path) → Verbatim engine path) ∧
      (Verbatim engine path →
        OrdinaryLiterals closers (segments path) ∨ ¬ CoveredLiterals (segments path)) := by
  have hsegs : segments path ≠ [] := by
    obtain ⟨segment, hmem, _⟩ := hspecial
    exact List.ne_nil_of_mem hmem
  refine ⟨verbatim_of_ordinary h hsegs, fun hverbatim => ?_⟩
  by_cases hcovered : CoveredLiterals (segments path)
  · exact Or.inl (ordinary_of_verbatim h hsegs hcovered hverbatim)
  · exact Or.inr hcovered

/-- The closing brackets that libstdc++ takes for themselves. -/
def closingBrackets : List Char := [']', '\x7d']

theorem closingBrackets_ecmascript :
    Ecmascript closingBrackets (Regex.plainEngine closingBrackets) :=
  Regex.plainEngine_ecmascript (by simp [closingBrackets])

/-- A pattern with a closing bracket. -/
theorem literals_verbatim_closing :
    Verbatim (Regex.plainEngine closingBrackets) ("/a]/:id" : Text) := by
  have hsegs : segments ("/a]/:id" : Text) = [("a]" : Text), (":id" : Text)] := by decide
  refine (literals_verbatim closingBrackets _ closingBrackets_ecmascript "/a]/:id" ?_).1 ?_
  · rw [hsegs]
    exact ⟨"a]", by decide, by decide, ']', by decide, by decide⟩
  · rw [hsegs]
    refine List.forall_mem_cons.mpr ⟨fun _ => ?_, List.forall_mem_singleton.mpr fun h => ?_⟩
    · exact List.forall_mem_cons.mpr ⟨by decide, List.forall_mem_singleton.mpr (by decide)⟩
    · cases h

/-- With an opening bracket the constructor throws. -/
theorem opening_bracket_refused :
    Ecmascript closingBrackets (Regex.plainEngine closingBrackets) ∧
    SpecialLiteral (segments ("/a[" : Text)) ∧
    (ofPath (Regex.plainEngine closingBrackets) ("/a[" : Text)).isNone = true ∧
    ¬ Verbatim (Regex.plainEngine closingBrackets) ("/a[" : Text) := by
  have hrefused : (ofPath (Regex.plainEngine closingBrackets) ("/a[" : Text)).isNone = true := by
    decide
  refine ⟨closingBrackets_ecmascript, ?_, hrefused, ?_⟩
  · have hsegs : segments ("/a[" : Text) = [("a[" : Text)] := by decide
    rw [hsegs]
    exact ⟨"a[", by decide, by decide, '[', by decide, by decide⟩
  · rintro ⟨route, hroute, _⟩
    rw [hroute] at hrefused
    cases hrefused

end RoutePath

end Brazier
