import Brazier.Http.RoutePath

/-!
# The language of a route

When the literal segments of a pattern have no characters that are special in a regular expression,
the expression matches exactly the paths that have one part for each segment, equal to it where it
is literal, and it captures the parts of the parameters.
-/

namespace Brazier

open ProofLib

namespace RoutePath

/-- The segments of a pattern. -/
def segments (path : Text) : List Text := (getlines '/' path).filter (fun token => !token.isEmpty)

/-- A segment is a parameter. -/
def isParam (segment : Text) : Bool := segment.head? = some ':'

/-- A path of these parts. -/
def slashed (parts : List Text) : Text := parts.flatMap ('/' :: ·)

/-- The part may stand for the segment. -/
def SegmentFits (segment part : Text) : Prop :=
  part ≠ [] ∧ '/' ∉ part ∧ (isParam segment = false → part = segment)

/-- The path has these parts, one for each segment. Without segments it may also be a slash. -/
def Matches (segments : List Text) (path : Text) (parts : List Text) : Prop :=
  List.Forall₂ SegmentFits segments parts ∧
    (path = slashed parts ∨ segments = [] ∧ path = ['/'])

/-- Every parameter has the part at its last position, and nothing else has changed. -/
def ParamsSet (segments parts : List Text) (before after : Params) : Prop :=
  (∀ (i : Nat) (name : Text), segments[i]? = some (':' :: name) →
    (∀ j, i < j → segments[j]? ≠ some (':' :: name)) → after[name]? = parts[i]?) ∧
  ∀ name : Text, ':' :: name ∉ segments → after[name]? = before[name]?

/-- The literal segments have no special characters. -/
def PlainLiterals (segments : List Text) : Prop :=
  ∀ segment ∈ segments, isParam segment = false → ∀ c ∈ segment, c ∉ Regex.metacharacters

/-! ## The expression -/

/-- The signs of a segment. -/
def segmentTokens (segment : Text) : List Regex.Token :=
  if isParam segment then
    [.atom (.char '/'), .openGroup, .atom (.notChar '/'), .plus, .closeGroup]
  else ('/' :: segment).map (fun c => .atom (.char c))

/-- The parts of the expression of a segment. -/
def segmentItems (segment : Text) : List Regex.Item :=
  if isParam segment then
    [.piece ⟨.char '/', .one⟩, .group [⟨.notChar '/', .many⟩]]
  else ('/' :: segment).map (fun c => .piece ⟨.char c, .one⟩)

/-- The loop over tokens is a loop over segments. -/
theorem flatMap_tokenRegex (path : Text) :
    (getlines '/' path).flatMap tokenRegex = (segments path).flatMap tokenRegex := by
  rw [segments]
  induction getlines '/' path with
  | nil => rfl
  | cons token rest ih =>
      by_cases hnil : token = []
      · subst hnil
        simpa [tokenRegex] using ih
      · simp [hnil, ih]

/-- The signs of a parameter. -/
theorem tokens_param (rest : Text) : Regex.tokens (("/([^/]+)" : Text) ++ rest) =
    (Regex.tokens rest).map
      ([.atom (.char '/'), .openGroup, .atom (.notChar '/'), .plus, .closeGroup] ++ ·) := by
  show Regex.tokens ('/' :: '(' :: '[' :: '^' :: '/' :: ']' :: '+' :: ')' :: rest) = _
  simp [Regex.tokens, Regex.tokenOf, Regex.metacharacters, Function.comp_def]

/-- The signs of a segment in front of more text. -/
theorem tokens_segment {segment : Text} (hne : segment ≠ [])
    (hplain : isParam segment = false → ∀ c ∈ segment, c ∉ Regex.metacharacters) (rest : Text) :
    Regex.tokens (tokenRegex segment ++ rest) =
      (Regex.tokens rest).map (segmentTokens segment ++ ·) := by
  rw [tokenRegex, if_neg (by simpa using hne), segmentTokens]
  cases hparam : isParam segment with
  | true =>
      rw [isParam, decide_eq_true_eq] at hparam
      rw [if_pos hparam, tokens_param]
      rfl
  | false =>
      have hhead : ¬ segment.head? = some ':' := by simpa [isParam] using hparam
      rw [if_neg hhead, Regex.tokens_literal]
      · rfl
      · intro c hc
        rw [List.mem_cons] at hc
        rcases hc with rfl | hc
        · decide
        · exact hplain hparam c hc

/-- The signs of the segments. -/
theorem tokens_segments {segs : List Text} (hne : ∀ s ∈ segs, s ≠ [])
    (hplain : PlainLiterals segs) :
    Regex.tokens (segs.flatMap tokenRegex ++ ("$" : Text)) =
      some (segs.flatMap segmentTokens ++ [.dollar]) := by
  induction segs with
  | nil => rfl
  | cons segment segs ih =>
      rw [List.flatMap_cons, List.append_assoc,
        tokens_segment (hne segment List.mem_cons_self) (hplain segment List.mem_cons_self),
        ih (fun s hs => hne s (List.mem_cons_of_mem segment hs))
          (fun s hs => hplain s (List.mem_cons_of_mem segment hs))]
      simp

/-- Behind a segment stands no sign of repetition. -/
theorem notRepeated_segments (segs : List Text) :
    Regex.NotRepeated (segs.flatMap segmentTokens ++ [.dollar]) := by
  cases segs with
  | nil => exact fun rest => ⟨by simp, by simp⟩
  | cons segment segs =>
      intro rest
      rw [List.flatMap_cons, segmentTokens]
      cases isParam segment <;> exact ⟨by simp, by simp⟩

/-- The parts of the segments. -/
theorem items_segments (segs : List Text) :
    Regex.items none (segs.flatMap segmentTokens ++ [.dollar]) =
      some (segs.flatMap segmentItems ++ [.stop]) := by
  induction segs with
  | nil => rfl
  | cons segment segs ih =>
      have hbehind := notRepeated_segments segs
      rw [List.flatMap_cons, List.append_assoc, List.flatMap_cons, List.append_assoc,
        segmentTokens, segmentItems]
      cases isParam segment with
      | true =>
          show Regex.items none (.atom (.char '/') :: .openGroup :: .atom (.notChar '/') :: .plus ::
            .closeGroup :: (segs.flatMap segmentTokens ++ [.dollar])) = _
          rw [Regex.items_atom _ (fun rest => ⟨by simp, by simp⟩)]
          simp only [Regex.items, Regex.place, ih]
          rfl
      | false =>
          show Regex.items none (('/' :: segment).map (fun c => .atom (.char c)) ++
            (segs.flatMap segmentTokens ++ [.dollar])) = _
          rw [Regex.items_literal _ hbehind, ih]
          rfl

/-- The expression of a pattern. -/
def expression (segs : List Text) : List Regex.Item :=
  if segs = [] then [.start, .piece ⟨.char '/', .optional⟩, .stop]
  else .start :: (segs.flatMap segmentItems ++ [.stop])

/-- The segments are not empty. -/
theorem segments_ne_nil {path s : Text} (hs : s ∈ segments path) : s ≠ [] := by
  rw [segments, List.mem_filter] at hs
  simpa using hs.2

/-- A segment has no slash. -/
theorem slash_notMem {path s : Text} (hs : s ∈ segments path) : '/' ∉ s := by
  rw [segments, List.mem_filter] at hs
  exact not_mem_of_getlines hs.1

/-- The text of a pattern with segments. -/
theorem convertPathToRegex_eq {path : Text} (hsegs : segments path ≠ []) :
    convertPathToRegex path = '^' :: ((segments path).flatMap tokenRegex ++ ['$']) := by
  obtain ⟨segment, segs, hcons⟩ := List.exists_cons_of_ne_nil hsegs
  have hne : segment ≠ [] := segments_ne_nil (show segment ∈ segments path by rw [hcons]; simp)
  have hregex : '^' :: (segments path).flatMap tokenRegex ≠ ['^'] := by
    rw [hcons, List.flatMap_cons, tokenRegex, if_neg (by simpa using hne)]
    split <;> simp
  rw [convertPathToRegex, flatMap_tokenRegex, if_neg hregex]
  rfl

/-- What the text of `convertPathToRegex` compiles to. -/
theorem compile_convertPathToRegex {path : Text} (hplain : PlainLiterals (segments path)) :
    Regex.compile (convertPathToRegex path) = some (expression (segments path)) := by
  by_cases hnil : segments path = []
  · rw [convertPathToRegex, flatMap_tokenRegex, expression, hnil]
    decide
  · have htokens : Regex.tokens ((segments path).flatMap tokenRegex ++ ['$']) = _ :=
      tokens_segments (fun s hs => segments_ne_nil hs) hplain
    have hcaret : Regex.tokens ('^' :: ((segments path).flatMap tokenRegex ++ ['$'])) =
        some (.caret :: ((segments path).flatMap segmentTokens ++ [.dollar])) := by
      rw [Regex.tokens, htokens]
      · rfl
      · simp
    rw [convertPathToRegex_eq hnil, expression, if_neg hnil, Regex.compile, hcaret,
      Option.bind_some, Regex.items, items_segments]
    rfl

/-! ## The match -/

/-- What the groups of the segments capture of the parts. -/
def captured : List Text → List Text → List Text
  | segment :: segs, part :: parts =>
      if isParam segment then part :: captured segs parts else captured segs parts
  | _, _ => []

/-- A part ends where the next one begins. -/
theorem part_unique {part part' rest rest' : Text} (hpart : '/' ∉ part) (hpart' : '/' ∉ part')
    (hrest : rest = [] ∨ rest.head? = some '/') (hrest' : rest' = [] ∨ rest'.head? = some '/')
    (h : part ++ rest = part' ++ rest') : part = part' ∧ rest = rest' := by
  induction part generalizing part' with
  | nil =>
      cases part' with
      | nil => exact ⟨rfl, h⟩
      | cons c part' =>
          rw [List.nil_append] at h
          subst h
          rcases hrest with hnil | hslash
          · cases hnil
          · obtain rfl : c = '/' := by simpa using hslash
            exact absurd List.mem_cons_self hpart'
  | cons c part ih =>
      cases part' with
      | nil =>
          rw [List.nil_append] at h
          subst h
          rcases hrest' with hnil | hslash
          · cases hnil
          · obtain rfl : c = '/' := by simpa using hslash
            exact absurd List.mem_cons_self hpart
      | cons c' part' =>
          rw [List.cons_append, List.cons_append] at h
          obtain ⟨rfl, htail⟩ := List.cons.inj h
          rw [List.mem_cons, not_or] at hpart hpart'
          obtain ⟨rfl, rfl⟩ := ih hpart.2 hpart'.2 htail
          exact ⟨rfl, rfl⟩

/-- A path is empty or begins with a slash. -/
theorem slashed_head (parts : List Text) :
    slashed parts = [] ∨ (slashed parts).head? = some '/' := by
  cases parts with
  | nil => exact Or.inl rfl
  | cons part parts => exact Or.inr rfl

/-- The items match the paths whose parts fit the segments, and capture the parts of the
parameters. -/
def MatchesParts (segs : List Text) (items : List Regex.Item) : Prop :=
  ∀ atStart text captures, Regex.matchAll items atStart text = some captures ↔
    ∃ parts, List.Forall₂ SegmentFits segs parts ∧ text = slashed parts ∧
      captures = captured segs parts

variable {segment : Text} {segs : List Text} {items : List Regex.Item}

/-- In front of the others, a segment that is no parameter matches itself. -/
theorem matchesParts_literal (hne : segment ≠ []) (hslash : '/' ∉ segment)
    (hparam : isParam segment = false) (hitems : MatchesParts segs items) :
    MatchesParts (segment :: segs)
      (('/' :: segment).map (fun c => .piece ⟨.char c, .one⟩) ++ items) := by
  intro atStart text captures
  rw [Regex.matchAll_literal]
  constructor
  · intro h
    split at h
    · next hstands =>
        obtain ⟨rest, rfl⟩ := hstands
        rw [List.drop_left, hitems] at h
        obtain ⟨parts, hfits, rfl, rfl⟩ := h
        refine ⟨segment :: parts, List.Forall₂.cons ⟨hne, hslash, fun _ => rfl⟩ hfits, rfl, ?_⟩
        rw [captured, hparam]
        rfl
    · cases h
  · rintro ⟨parts, hfits, rfl, rfl⟩
    cases hfits with
    | @cons _ part _ parts hfit hfits =>
        obtain rfl : part = segment := hfit.2.2 hparam
        have htext : slashed (part :: parts) = ('/' :: part) ++ slashed parts := rfl
        rw [htext, if_pos (List.prefix_append _ _), List.drop_left, hitems, captured, hparam]
        exact ⟨parts, hfits, rfl, rfl⟩

/-- In front of the others, the group of a parameter matches one part and captures it. -/
theorem matchesParts_param (hparam : isParam segment = true) (hitems : MatchesParts segs items) :
    MatchesParts (segment :: segs) (['/'].map (fun c => .piece ⟨.char c, .one⟩) ++
      (.group [⟨.notChar '/', .many⟩] :: items)) := by
  intro atStart text captures
  rw [Regex.matchAll_literal, Regex.matchAll_manyGroup]
  have hways : ∀ {a b rest : Text}, (a, b) ∈ (Regex.Atom.notChar '/').manyWays rest ↔
      rest = a ++ b ∧ a ≠ [] ∧ '/' ∉ a := by
    intro a b rest
    rw [Regex.mem_manyWays]
    simp [Regex.Atom.accepts, List.forall_mem_ne']
  constructor
  · intro h
    split at h
    · next hstands =>
        obtain ⟨rest, rfl⟩ := hstands
        rw [List.drop_left] at h
        obtain ⟨⟨part, behind⟩, hway, hcaptures⟩ := List.exists_of_findSome?_eq_some h
        obtain ⟨rfl, hpart, hnoslash⟩ := hways.mp hway
        obtain ⟨captures', hmatch, rfl⟩ := Option.map_eq_some_iff.mp hcaptures
        obtain ⟨parts, hfits, rfl, rfl⟩ := (hitems _ _ _).mp hmatch
        refine ⟨part :: parts, List.Forall₂.cons ⟨hpart, hnoslash, ?_⟩ hfits, rfl, ?_⟩
        · intro hliteral
          rw [hparam] at hliteral
          cases hliteral
        · rw [captured, hparam]
          rfl
    · cases h
  · rintro ⟨parts, hfits, rfl, rfl⟩
    cases hfits with
    | @cons _ part _ parts hfit hfits =>
        have htext : slashed (part :: parts) = ['/'] ++ (part ++ slashed parts) := rfl
        rw [htext, if_pos (List.prefix_append _ _), List.drop_left, captured, hparam]
        refine Regex.findSome?_eq_of_unique (a := (part, slashed parts))
          (hways.mpr ⟨rfl, hfit.1, hfit.2.1⟩) ?_ ?_
        · rw [(hitems _ _ _).mpr ⟨parts, hfits, rfl, rfl⟩]
          rfl
        · -- a shorter part would leave a rest that begins inside of the part
          rintro ⟨part', behind⟩ hway hmatch
          obtain ⟨hsplit, _, hnoslash⟩ := hways.mp hway
          obtain ⟨captures', hcaptures⟩ := Option.ne_none_iff_exists'.mp hmatch
          obtain ⟨captures'', hrest, _⟩ := Option.map_eq_some_iff.mp hcaptures
          obtain ⟨parts', _, hbehind, _⟩ := (hitems _ _ _).mp hrest
          replace hbehind : behind = slashed parts' := hbehind
          subst hbehind
          obtain ⟨rfl, hsame⟩ := part_unique hnoslash hfit.2.1 (slashed_head parts')
            (slashed_head parts) hsplit.symm
          rw [hsame]

/-- The expression of the segments matches the paths whose parts fit them, and captures the parts
of the parameters. -/
theorem matchAll_segments {segs : List Text} (hsegs : ∀ s ∈ segs, s ≠ [] ∧ '/' ∉ s)
    (atStart : Bool) (text : Text) (captures : List Text) :
    Regex.matchAll (segs.flatMap segmentItems ++ [.stop]) atStart text = some captures ↔
      ∃ parts, List.Forall₂ SegmentFits segs parts ∧ text = slashed parts ∧
        captures = captured segs parts := by
  have hmatches : MatchesParts segs (segs.flatMap segmentItems ++ [.stop]) := by
    induction segs with
    | nil =>
        intro atStart text captures
        show (if text = [] then if text = [] then some [] else none else none) = _ ↔ _
        constructor
        · intro h
          split at h
          · next htext =>
              cases h
              exact ⟨[], List.Forall₂.nil, htext, rfl⟩
          · cases h
        · rintro ⟨parts, hfits, rfl, rfl⟩
          cases hfits
          rfl
    | cons segment segs ih =>
        obtain ⟨⟨hne, hslash⟩, hrest⟩ := List.forall_mem_cons.mp hsegs
        rw [List.flatMap_cons, List.append_assoc, segmentItems]
        cases hparam : isParam segment with
        | false => exact matchesParts_literal hne hslash hparam (ih hrest)
        | true => exact matchesParts_param hparam (ih hrest)
  exact hmatches atStart text captures

/-- The expression of a pattern matches the paths that have parts for its segments. -/
theorem run_expression {path : Text} {text : Text} {captures : List Text} :
    Regex.run (expression (segments path)) text = some captures ↔
      ∃ parts, Matches (segments path) text parts ∧
        captures = captured (segments path) parts := by
  rw [Regex.run, expression]
  by_cases hnil : segments path = []
  · rw [if_pos hnil, hnil]
    constructor
    · intro h
      have htext : (text = [] ∨ text = ['/']) ∧ captures = [] := by
        cases text with
        | nil =>
            cases h
            exact ⟨Or.inl rfl, rfl⟩
        | cons c text =>
            by_cases hc : c = '/'
            · subst hc
              cases text with
              | nil =>
                  cases h
                  exact ⟨Or.inr rfl, rfl⟩
              | cons d text => cases h
            · simp [Regex.matchAll, Regex.Piece.ways, Regex.Atom.ways, Regex.Atom.accepts, hc] at h
      obtain ⟨hends, rfl⟩ := htext
      exact ⟨[], ⟨List.Forall₂.nil, hends.imp id (fun h => ⟨rfl, h⟩)⟩, rfl⟩
    · rintro ⟨parts, ⟨hfits, hends⟩, rfl⟩
      cases hfits
      rcases hends with rfl | ⟨_, rfl⟩ <;> rfl
  · rw [if_neg hnil, Regex.matchAll, if_pos rfl,
      matchAll_segments (fun s hs => ⟨segments_ne_nil hs, slash_notMem hs⟩)]
    constructor
    · rintro ⟨parts, hfits, htext, hcaptures⟩
      exact ⟨parts, ⟨hfits, Or.inl htext⟩, hcaptures⟩
    · rintro ⟨parts, ⟨hfits, htext | ⟨hno, _⟩⟩, hcaptures⟩
      · exact ⟨parts, hfits, htext, hcaptures⟩
      · exact absurd hno hnil

/-! ## The parameters -/

/-- The names of the parameters are those of the segments. -/
theorem extractParamNames_eq (path : Text) :
    extractParamNames path = (segments path).filterMap paramName := by
  rw [extractParamNames, segments]
  induction getlines '/' path with
  | nil => rfl
  | cons token rest ih =>
      by_cases hnil : token = []
      · subst hnil
        rw [List.filterMap_cons_none rfl, ih]
        rfl
      · simp [hnil, ih, List.filterMap_cons]

/-- A segment that is a parameter has a name. -/
theorem isParam_iff {segment : Text} : isParam segment = true ↔ ∃ name, segment = ':' :: name := by
  cases segment with
  | nil => simp [isParam]
  | cons c name => simp [isParam]

/-- A literal segment sets no parameter. -/
theorem ParamsSet.cons_literal {segs parts : List Text} {before after : Params} {segment : Text}
    (hset : ParamsSet segs parts before after) (hliteral : isParam segment = false) (part : Text) :
    ParamsSet (segment :: segs) (part :: parts) before after := by
  have hnoname : ∀ name, segment ≠ ':' :: name := fun name heq => by
    rw [isParam_iff.mpr ⟨name, heq⟩] at hliteral
    cases hliteral
  constructor
  · intro i name hi hlast
    cases i with
    | zero => exact absurd (Option.some.inj hi) (hnoname name)
    | succ i => exact hset.1 i name hi (fun j hj => hlast (j + 1) (Nat.succ_lt_succ hj))
  · intro name hno
    exact hset.2 name (fun hmem => hno (List.mem_cons_of_mem segment hmem))

/-- A parameter is set before those behind it. -/
theorem ParamsSet.cons_param {segs parts : List Text} {before after : Params} {name part : Text}
    (hset : ParamsSet segs parts (before.insert name part) after) :
    ParamsSet ((':' :: name) :: segs) (part :: parts) before after := by
  constructor
  · intro i name' hi hlast
    cases i with
    | zero =>
        obtain rfl : name = name' := by simpa using hi
        have hno : ':' :: name ∉ segs := by
          intro hmem
          obtain ⟨j, hj, hget⟩ := List.getElem_of_mem hmem
          refine hlast (j + 1) (Nat.succ_pos j) ?_
          rw [List.getElem?_cons_succ, List.getElem?_eq_getElem hj, hget]
        rw [hset.2 name hno, getElem?_insert, if_pos rfl]
        rfl
    | succ i => exact hset.1 i name' hi (fun j hj => hlast (j + 1) (Nat.succ_lt_succ hj))
  · intro name' hno
    rw [List.mem_cons, not_or] at hno
    have hne : ¬ name = name' := fun h => hno.1 (by rw [h])
    rw [hset.2 name' hno.2, getElem?_insert, if_neg hne]

/-- Assigning the captures sets the parameters. -/
theorem assignParams_captured {segs parts : List Text} (hfits : List.Forall₂ SegmentFits segs parts)
    (outParams : Params) : ParamsSet segs parts outParams
      (assignParams (segs.filterMap paramName) (captured segs parts) outParams) := by
  induction hfits generalizing outParams with
  | nil => exact ⟨by simp, fun _ _ => rfl⟩
  | @cons segment part segs parts _ _ ih =>
      cases hparam : isParam segment with
      | false =>
          have hname : paramName segment = none := by
            unfold paramName
            split
            · cases hparam
            · rfl
          rw [List.filterMap_cons_none hname, captured, hparam]
          exact (ih outParams).cons_literal hparam part
      | true =>
          obtain ⟨name, rfl⟩ := isParam_iff.mp hparam
          have hname : paramName (':' :: name) = some name := rfl
          rw [List.filterMap_cons_some hname, captured, hparam]
          exact (ih (outParams.insert name part)).cons_param

/-- Where the engine compiles the text of a pattern to its expression, the constructor and `match`
do what the parts of the target say. -/
theorem match_iff_of_compiled {engine : Regex.Engine} {path : Text}
    (hcompiled : engine (convertPathToRegex path) =
      some (Regex.run (expression (segments path)))) :
    ∃ route, ofPath engine path = some route ∧ ∀ target outParams,
      ((route.match target outParams).1 = true ↔
        ∃ parts, Matches (segments path) (pathOnly target) parts) ∧
      (∀ parts, Matches (segments path) (pathOnly target) parts →
        ParamsSet (segments path) parts outParams (route.match target outParams).2) ∧
      ((route.match target outParams).1 = false →
        (route.match target outParams).2 = outParams) := by
  refine ⟨⟨path, Regex.run (expression (segments path)), extractParamNames path⟩,
    by rw [ofPath, hcompiled]; rfl, fun target outParams => ?_⟩
  cases hrun : Regex.run (expression (segments path)) (pathOnly target) with
  | none =>
      have hno : ∀ parts, ¬ Matches (segments path) (pathOnly target) parts := by
        intro parts hparts
        rw [run_expression.mpr ⟨parts, hparts, rfl⟩] at hrun
        cases hrun
      rw [match_of_none hrun]
      refine ⟨⟨fun h => ?_, ?_⟩, fun parts hparts => absurd hparts (hno parts), fun _ => rfl⟩
      · cases h
      · rintro ⟨parts, hparts⟩
        exact absurd hparts (hno parts)
  | some captures =>
      rw [match_of_some hrun]
      refine ⟨⟨fun _ => ?_, fun _ => rfl⟩, fun parts hparts => ?_, fun h => ?_⟩
      · obtain ⟨parts, hparts, _⟩ := run_expression.mp hrun
        exact ⟨parts, hparts⟩
      · rw [run_expression.mpr ⟨parts, hparts, rfl⟩] at hrun
        obtain rfl := Option.some.inj hrun
        show ParamsSet _ parts outParams (assignParams (extractParamNames path) _ outParams)
        rw [extractParamNames_eq]
        exact assignParams_captured hparts.1 outParams
      · cases h

/-- A pattern whose literal segments have no special characters is accepted, and `match` is true
for the targets whose path has parts for its segments. Then it sets the parameters to their parts;
otherwise it leaves `outParams`. -/
theorem route_match_iff (engine : Regex.Engine) (hengine : Regex.Implements engine) (path : Text)
    (hplain : PlainLiterals (segments path)) :
    ∃ route, ofPath engine path = some route ∧ ∀ target outParams,
      ((route.match target outParams).1 = true ↔
        ∃ parts, Matches (segments path) (pathOnly target) parts) ∧
      (∀ parts, Matches (segments path) (pathOnly target) parts →
        ParamsSet (segments path) parts outParams (route.match target outParams).2) ∧
      ((route.match target outParams).1 = false →
        (route.match target outParams).2 = outParams) :=
  match_iff_of_compiled (hengine _ _ (compile_convertPathToRegex hplain))

/-- The pattern of a chat room, with slashes that are ignored. -/
def roomPath : Text := "//chat/:room/"

theorem roomPath_plain : PlainLiterals (segments roomPath) := by
  have hsegs : segments roomPath = [("chat" : Text), (":room" : Text)] := by decide
  intro segment hmem hliteral c hc
  rw [hsegs] at hmem
  simp only [List.mem_cons, List.not_mem_nil, or_false] at hmem
  rcases hmem with rfl | rfl
  · have hletter : c = 'c' ∨ c = 'h' ∨ c = 'a' ∨ c = 't' := by simpa using hc
    rcases hletter with rfl | rfl | rfl | rfl <;> decide
  · cases hliteral

theorem route_match_iff_room :
    ∃ route, ofPath Regex.fragment roomPath = some route ∧ ∀ target outParams,
      ((route.match target outParams).1 = true ↔
        ∃ parts, Matches (segments roomPath) (pathOnly target) parts) ∧
      (∀ parts, Matches (segments roomPath) (pathOnly target) parts →
        ParamsSet (segments roomPath) parts outParams (route.match target outParams).2) ∧
      ((route.match target outParams).1 = false →
        (route.match target outParams).2 = outParams) :=
  route_match_iff Regex.fragment Regex.fragment_implements roomPath roomPath_plain

end RoutePath

end Brazier
