import Brazier.Config.Subtrees

/-!
# Reading cookies

`Cookie::parseCookies` of `src/Cookie.cpp` cuts a `Cookie` header at its semicolons and every part
at its first sign of equality. `parseCookies_header` says that the pairs that were written to a
header are read from it, with the last value of each name, and that parts without a sign of equality
and blanks behind a semicolon do not matter.
-/

namespace Brazier

namespace Cookie

/-- A space or a tab. -/
def isBlank (c : Char) : Bool := c = ' ' || c = '\t'

/-- `text.erase(0, text.find_first_not_of(" \t"))`. Without such a character everything is
erased. -/
def eraseBlanks (text : Text) : Text :=
  match text.findIdx? (fun c => !isBlank c) with
  | none => []
  | some pos => text.drop pos

/-- The body of the loop of `parseCookies`. -/
def parsePair (pair : Text) : Option (Text × Text) :=
  (cutAt '=' pair).map fun (key, value) => (eraseBlanks key, eraseBlanks value)

/-- `parseCookies`. -/
def parseCookies (cookieHeader : Text) : TextMap :=
  (getlines ';' cookieHeader).foldl
    (fun cookies pair =>
      match parsePair pair with
      | none => cookies
      | some (key, value) => cookies.insert key value) ∅

/-! ## Blanks -/

/-- The text does not begin with a space or a tab. -/
def Unindented (text : Text) : Prop := ∀ c, text.head? = some c → isBlank c = false

instance : DecidablePred Unindented := fun text =>
  match text with
  | [] => isTrue (by simp [Unindented])
  | c :: rest => decidable_of_iff (isBlank c = false) (by simp [Unindented])

theorem eraseBlanks_cons (c : Char) (text : Text) :
    eraseBlanks (c :: text) = if isBlank c then eraseBlanks text else c :: text := by
  unfold eraseBlanks
  rw [List.findIdx?_cons]
  cases hc : isBlank c with
  | false => simp
  | true =>
      simp only [Bool.not_true, Bool.false_eq_true, if_false, if_true]
      cases text.findIdx? (fun c => !isBlank c) <;> rfl

/-- Only blanks in front are erased. -/
theorem eraseBlanks_append {blanks : Text} (hblanks : ∀ c ∈ blanks, isBlank c = true)
    (text : Text) : eraseBlanks (blanks ++ text) = eraseBlanks text := by
  induction blanks with
  | nil => rfl
  | cons c blanks ih =>
      rw [List.forall_mem_cons] at hblanks
      rw [List.cons_append, eraseBlanks_cons, if_pos hblanks.1, ih hblanks.2]

/-- A text stays as it is when it does not begin with a blank. -/
theorem eraseBlanks_eq_self_iff {text : Text} : eraseBlanks text = text ↔ Unindented text := by
  cases text with
  | nil => exact iff_of_true rfl (by simp [Unindented])
  | cons c text =>
      have hshorter : ∀ rest, (eraseBlanks rest).length ≤ rest.length := by
        intro rest
        unfold eraseBlanks
        split
        · exact Nat.zero_le _
        · rw [List.length_drop]
          omega
      rw [eraseBlanks_cons]
      cases hc : isBlank c with
      | false => exact iff_of_true rfl (by simp [Unindented, hc])
      | true =>
          refine iff_of_false (fun h => ?_) (by simp [Unindented, hc])
          have hlength := congrArg List.length h
          have := hshorter text
          rw [if_pos rfl, List.length_cons] at hlength
          omega

/-! ## The parts of a header -/

/-- A part of a `Cookie` header: a name and a value, or something else. -/
inductive Part where
  | pair (name value : Text)
  | other (text : Text)
  deriving DecidableEq

/-- What is written for a part. -/
def Part.text : Part → Text
  | .pair name value => name ++ '=' :: value
  | .other text => text

/-- The pair that a part is. -/
def Part.pair? : Part → Option (Text × Text)
  | .pair name value => some (name, value)
  | .other _ => none

/-- No part has a semicolon. A name has no sign of equality, neither a name nor a value begins with
a blank, and what is no pair has no sign of equality. -/
def Part.Valid : Part → Prop
  | .pair name value =>
      '=' ∉ name ∧ ';' ∉ name ∧ ';' ∉ value ∧ Unindented name ∧ Unindented value
  | .other text => '=' ∉ text ∧ ';' ∉ text

instance : DecidablePred Part.Valid := fun part =>
  match part with
  | .pair _ _ => inferInstanceAs (Decidable (_ ∧ _))
  | .other _ => inferInstanceAs (Decidable (_ ∧ _))

/-- A header: the parts behind one another with semicolons between them, each behind its blanks. -/
def header (parts : List (Text × Part)) : Text :=
  joinWith [';'] (parts.map fun part => part.1 ++ part.2.text)

/-- The value of the last pair of a name. -/
def lastValue (name : Text) (pairs : List (Text × Text)) : Option Text :=
  (pairs.reverse.find? (fun pair => pair.1 = name)).map Prod.snd

theorem getElem?_insertAll_last (pairs : List (Text × Text)) (name : Text) :
    (insertAll pairs ∅)[name]? = lastValue name pairs := by
  induction pairs using List.reverseRecOn with
  | nil => simp [insertAll, lastValue]
  | append_singleton pairs pair ih =>
      rw [insertAll_concat, getElem?_insert, ih, lastValue, lastValue, List.reverse_concat,
        List.find?_cons]
      by_cases hname : pair.1 = name
      · simp [hname]
      · simp [hname]

/-! ## Reading -/

theorem parsePair_of_not_mem {pair : Text} (h : '=' ∉ pair) : parsePair pair = none := by
  rw [parsePair, cutAt_eq_none_iff.mpr h, Option.map_none]

/-- A pair is cut behind its name. -/
theorem parsePair_append {name : Text} (hname : '=' ∉ name) (value : Text) :
    parsePair (name ++ '=' :: value) = some (eraseBlanks name, eraseBlanks value) := by
  rw [parsePair, cutAt_append hname, Option.map_some]

/-- The map is that of the pairs that are read from the parts. -/
theorem parseCookies_eq (cookieHeader : Text) :
    parseCookies cookieHeader =
      insertAll ((getlines ';' cookieHeader).filterMap parsePair) ∅ := by
  rw [parseCookies, insertAll, List.foldl_filterMap]
  congr 1
  funext cookies pair
  cases parsePair pair <;> rfl

/-- The parts that are joined to a header, without semicolons, are read one by one. -/
theorem parseCookies_joinWith {parts : List Text} (hparts : ∀ part ∈ parts, ';' ∉ part) :
    parseCookies (joinWith [';'] parts) = insertAll (parts.filterMap parsePair) ∅ := by
  rw [parseCookies_eq, filterMap_getlines_joinWith rfl hparts]

theorem not_blank_of_mem {blanks : Text} (hblanks : ∀ c ∈ blanks, isBlank c = true) {c : Char}
    (hc : isBlank c = false) : c ∉ blanks := by
  intro hmem
  rw [hblanks c hmem] at hc
  cases hc

/-- What is read from a part behind blanks. -/
theorem parsePair_part {blanks : Text} (hblanks : ∀ c ∈ blanks, isBlank c = true) {part : Part}
    (hpart : part.Valid) : parsePair (blanks ++ part.text) = part.pair? := by
  have hequal : '=' ∉ blanks := not_blank_of_mem hblanks rfl
  cases part with
  | pair name value =>
      obtain ⟨hname, _, _, hstart, hstart'⟩ := hpart
      show parsePair (blanks ++ (name ++ '=' :: value)) = some (name, value)
      rw [← List.append_assoc, parsePair_append (by simp [hequal, hname]),
        eraseBlanks_append hblanks, eraseBlanks_eq_self_iff.mpr hstart,
        eraseBlanks_eq_self_iff.mpr hstart']
  | other text =>
      have hnone : '=' ∉ blanks ++ text := by simp [hequal, hpart.1]
      exact parsePair_of_not_mem hnone

theorem Part.Valid.not_mem {part : Part} (hpart : part.Valid) : ';' ∉ part.text := by
  cases part with
  | pair name value =>
      obtain ⟨_, hname, hvalue, _⟩ := hpart
      simp [Part.text, hname, hvalue]
  | other text => exact hpart.2

/-- The map that is read from a header is that of its pairs. -/
theorem parseCookies_eq_insertAll {parts : List (Text × Part)}
    (hblanks : ∀ part ∈ parts, ∀ c ∈ part.1, isBlank c = true)
    (hparts : ∀ part ∈ parts, part.2.Valid) :
    parseCookies (header parts) = insertAll (parts.filterMap fun part => part.2.pair?) ∅ := by
  rw [header, parseCookies_joinWith, List.filterMap_map]
  · congr 1
    exact List.filterMap_congr fun part hpart =>
      parsePair_part (hblanks part hpart) (hparts part hpart)
  · intro text htext
    obtain ⟨part, hpart, rfl⟩ := List.mem_map.mp htext
    rw [List.mem_append, not_or]
    exact ⟨not_blank_of_mem (hblanks part hpart) rfl, (hparts part hpart).not_mem⟩

/-- Each name of a header has the value of its last pair, and leaving out the parts that are no
pairs changes nothing. -/
theorem parseCookies_header (parts : List (Text × Part))
    (hblanks : ∀ part ∈ parts, ∀ c ∈ part.1, isBlank c = true)
    (hparts : ∀ part ∈ parts, part.2.Valid) :
    (∀ name : Text, (parseCookies (header parts))[name]? =
      lastValue name (parts.filterMap fun part => part.2.pair?)) ∧
    parseCookies (header (parts.filter fun part => part.2.pair?.isSome)) =
      parseCookies (header parts) := by
  have hall : parseCookies (header parts) = _ := parseCookies_eq_insertAll hblanks hparts
  constructor
  · intro name
    rw [hall, getElem?_insertAll_last]
  · rw [hall, parseCookies_eq_insertAll
      (fun part hpart => hblanks part (List.mem_filter.mp hpart).1)
      (fun part hpart => hparts part (List.mem_filter.mp hpart).1), List.filterMap_filter]
    congr 1
    refine List.filterMap_congr fun part _ => ?_
    cases part.2 <;> rfl

/-- The header `a=1;  b=x=y;;a=2`. -/
def sampleParts : List (Text × Part) :=
  [([], .pair "a" "1"), ("  ", .pair "b" "x=y"), ([], .other []), ([], .pair "a" "2")]

theorem parseCookies_sample :
    (parseCookies (header sampleParts))[("a" : Text)]? = some ("2" : Text) := by
  have hall : ∀ part ∈ sampleParts, part.1.all isBlank = true := by decide
  have hblanks : ∀ part ∈ sampleParts, ∀ c ∈ part.1, isBlank c = true :=
    fun part hpart => List.all_eq_true.mp (hall part hpart)
  exact ((parseCookies_header sampleParts hblanks (by decide)).1 "a").trans (by decide)

end Cookie

end Brazier
