import Brazier.Http.QueryString
import Brazier.ProofLib.Backtracking
import Brazier.ProofLib.Reading

/-!
# Taking a URL apart

`HttpClient::parse_url` of `src/HttpClient.cpp`. The class of the host stops at `:` and `/` only, so
that a host without port and path reaches into the query or the fragment behind it.
`parseUrl_write_iff` says which URLs come back as they were written.
-/

namespace Brazier

open ProofLib Backtracking

/-- `HttpClient::UrlParts`. -/
structure UrlParts where
  protocol : Text
  host : Text
  port : Text
  path : Text
  query : Text
  deriving DecidableEq

namespace HttpClient

/-- The characters that a dot does not match. -/
def lineTerminators : List Char := ['\n', '\r', '\u2028', '\u2029']

/-- `(?::([0-9]{1,5}))?` -/
def portExpr : Expr Char :=
  .optional (.seq (.set (· = ':')) (.group 3 (.many Char.isDigit 1 (some 5))))

/-- `(/[^?#]*)?` -/
def pathExpr : Expr Char :=
  .optional (.group 4 (.seq (.set (· = '/')) (.many (· ∉ ['?', '#']) 0 none)))

/-- `(?:\?([^#]*))?` -/
def queryExpr : Expr Char :=
  .optional (.seq (.set (· = '?')) (.group 5 (.many (· ∉ ['#']) 0 none)))

/-- `(?:#.*)?` -/
def fragmentExpr : Expr Char :=
  .optional (.seq (.set (· = '#')) (.many (· ∉ lineTerminators) 0 none))

/-- `url_regex`. -/
def urlRegex : Expr Char :=
  .seq .start
    (.seq (.group 1 (.seq (literal ("http" : Text)) (.optional (.seq (.set (· = 's')) .empty))))
      (.seq (literal ("://" : Text))
        (.seq (.group 2 (.many (· ∉ [':', '/']) 1 none))
          (.seq portExpr (.seq pathExpr (.seq queryExpr (.seq fragmentExpr .stop)))))))

/-- `parse_url`. -/
def parseUrl (url : Text) : Except ClientError UrlParts :=
  match matchAll urlRegex url with
  | none => .error (.runtimeError (("Invalid URL format: " : Text) ++ url))
  | some parts =>
      let protocol := subMatch parts 1
      let port := subMatch parts 3
      let path := subMatch parts 4
      .ok
        { protocol
          host := subMatch parts 2
          port :=
            if port.isEmpty then
              if protocol = ("https" : Text) then ("443" : Text) else ("80" : Text)
            else port
          path := if path.isEmpty then ("/" : Text) else path
          query := subMatch parts 5 }

/-! ## What stands behind the host -/

/-- What the groups of the expression have captured. -/
abbrev Groups := List (Nat × Text)

/-- The end of the match. -/
def accept (s : State Char) : Option Groups := if s.rest.isEmpty then some s.groups else none

/-- The fragment, and the end. -/
def fragmentRun (s : State Char) : Option Groups :=
  fragmentExpr.run s fun s => Expr.stop.run s accept

/-- The query, and what comes behind it. -/
def queryRun (s : State Char) : Option Groups := queryExpr.run s fragmentRun

/-- The path, and what comes behind it. -/
def pathRun (s : State Char) : Option Groups := pathExpr.run s queryRun

/-- The port, and what comes behind it. -/
def portRun (s : State Char) : Option Groups := portExpr.run s pathRun

/-- No line ends in the fragment. -/
def Quiet (text : Text) : Prop := ∀ c ∈ text.dropWhile (· ≠ '#'), c ∉ lineTerminators

theorem Quiet.cons {c : Char} {text : Text} (h : Quiet (c :: text)) : Quiet text := by
  intro d hd
  refine h d ?_
  rw [List.dropWhile_cons]
  split
  · exact hd
  · exact List.mem_cons_of_mem c ((List.dropWhile_suffix _).subset hd)

theorem Quiet.suffix {text behind : Text} (h : Quiet text) (hsuffix : behind <:+ text) :
    Quiet behind := by
  obtain ⟨front, rfl⟩ := hsuffix
  induction front with
  | nil => exact h
  | cons c front ih => exact ih h.cons

/-- A fragment or nothing. -/
def fragmentGroups (text : Text) (groups : Groups) : Option Groups :=
  if text.head? ∈ [none, some '#'] then some groups else none

/-- A query, and a fragment or nothing behind it. -/
def queryGroups (text : Text) (groups : Groups) : Option Groups :=
  match text with
  | '?' :: more => some ((5, more.takeWhile (· ∉ ['#'])) :: groups)
  | _ => fragmentGroups text groups

/-- A path, and what may stand behind it. -/
def pathGroups (text : Text) (groups : Groups) : Option Groups :=
  match text with
  | '/' :: more =>
      queryGroups (more.dropWhile (· ∉ ['?', '#']))
        ((4, '/' :: more.takeWhile (· ∉ ['?', '#'])) :: groups)
  | _ => queryGroups text groups

/-- A port, and what may stand behind it. -/
def portGroups (text : Text) (groups : Groups) : Option Groups :=
  match text with
  | ':' :: more =>
      let digits := more.takeWhile Char.isDigit
      if 1 ≤ digits.length ∧ digits.length ≤ 5 then
        pathGroups (more.dropWhile Char.isDigit) ((3, digits) :: groups)
      else none
  | _ => pathGroups text groups

/-- A text begins with a character, or it does not. -/
theorem head_cases (d : Char) (text : Text) :
    (∃ more, text = d :: more) ∨ ∀ c ∈ text.head?, decide (c = d) = false := by
  cases text with
  | nil => exact .inr nofun
  | cons c more =>
      by_cases hc : c = d
      · exact .inl ⟨more, by rw [hc]⟩
      · refine .inr fun c' hc' => ?_
        cases hc'
        exact decide_eq_false hc

theorem fragmentRun_eq {s : State Char} (h : Quiet s.rest) :
    fragmentRun s = fragmentGroups s.rest s.groups := by
  obtain ⟨pos, text, groups⟩ := s
  rw [fragmentRun, fragmentExpr, run_optional (advances_set_seq _ _)]
  obtain ⟨more, rfl⟩ | hskip := head_cases '#' text
  · have hquiet : ∀ c ∈ more, c ∉ lineTerminators := fun c hc => h c (by simp [hc])
    have hreach : reach (· ∉ lineTerminators) none more = more.length := by
      rw [reach, List.takeWhile_eq_self_iff.mpr (by simpa using hquiet)]
    have hmany : (Expr.many (· ∉ lineTerminators) 0 none).run ⟨pos + 1, more, groups⟩
        (fun s => Expr.stop.run s accept) = some groups := by
      refine greedy_of_reach (Nat.zero_le _) ?_
      rw [hreach]
      simp [State.advance, Expr.run, accept]
    rw [run_set_seq_cons (by simp), hmany]
    rfl
  · rw [run_set_seq_skip hskip, Option.none_or]
    cases text with
    | nil => rfl
    | cons c more =>
        have hc := hskip c rfl
        simp only [decide_eq_false_iff_not] at hc
        simp [fragmentGroups, Expr.run, hc]

theorem queryGroups_skip {text : Text} (h : ∀ c ∈ text.head?, decide (c = '?') = false)
    (groups : Groups) : queryGroups text groups = fragmentGroups text groups := by
  rw [queryGroups]
  rintro more rfl
  exact absurd (h '?' rfl) (by simp)

theorem pathGroups_skip {text : Text} (h : ∀ c ∈ text.head?, decide (c = '/') = false)
    (groups : Groups) : pathGroups text groups = queryGroups text groups := by
  rw [pathGroups]
  rintro more rfl
  exact absurd (h '/' rfl) (by simp)

theorem portGroups_skip {text : Text} (h : ∀ c ∈ text.head?, decide (c = ':') = false)
    (groups : Groups) : portGroups text groups = pathGroups text groups := by
  rw [portGroups]
  rintro more rfl
  exact absurd (h ':' rfl) (by simp)

/-- What is left behind the longest run of a class begins with another character. -/
theorem head?_dropWhile {allowed : Char → Bool} {text : Text} {c : Char}
    (hc : (text.dropWhile allowed).head? = some c) : allowed c = false := by
  have hnot := List.head?_dropWhile_not allowed text
  rw [hc] at hnot
  simpa using hnot

theorem queryRun_eq {s : State Char} (h : Quiet s.rest) :
    queryRun s = queryGroups s.rest s.groups := by
  obtain ⟨pos, text, groups⟩ := s
  rw [queryRun, queryExpr, run_optional (advances_set_seq _ _)]
  obtain ⟨more, rfl⟩ | hskip := head_cases '?' text
  · have hbody : (Expr.group 5 (.many (· ∉ ['#']) 0 none)).run ⟨pos + 1, more, groups⟩ fragmentRun =
        some ((5, more.takeWhile (· ∉ ['#'])) :: groups) := by
      refine run_group_many ?_
      rw [fragmentRun_eq (h.cons.suffix (List.dropWhile_suffix _))]
      refine if_pos ?_
      dsimp only
      cases hhead : (more.dropWhile (· ∉ ['#'])).head? with
      | none => simp
      | some c => simpa using head?_dropWhile hhead
    rw [run_set_seq_cons (by simp), hbody]
    rfl
  · rw [run_set_seq_skip hskip, Option.none_or, queryGroups_skip hskip, fragmentRun_eq h]

/-- What a query or a fragment may begin with is accepted. -/
theorem isSome_queryGroups {text : Text} {groups : Groups} :
    (queryGroups text groups).isSome = true ↔ text.head? ∈ [none, some '?', some '#'] := by
  obtain ⟨more, rfl⟩ | hskip := head_cases '?' text
  · simp [queryGroups]
  · rw [queryGroups_skip hskip, fragmentGroups]
    have hne : text.head? ≠ some '?' := fun h => absurd (hskip '?' h) (by simp)
    split
    · next h =>
        simp only [List.mem_cons, List.not_mem_nil, or_false] at h
        rcases h with h | h <;> simp [h]
    · next h =>
        simp only [List.mem_cons, List.not_mem_nil, or_false, not_or] at h
        simp [h, hne]

/-- The same for what a path may begin with. -/
theorem isSome_pathGroups {text : Text} {groups : Groups} :
    (pathGroups text groups).isSome = true ↔
      text.head? ∈ [none, some '/', some '?', some '#'] := by
  obtain ⟨more, rfl⟩ | hskip := head_cases '/' text
  · refine iff_of_true ?_ (by simp)
    rw [pathGroups, isSome_queryGroups]
    cases hhead : (more.dropWhile (· ∉ ['?', '#'])).head? with
    | none => simp
    | some c => simpa [or_iff_not_imp_left] using head?_dropWhile hhead
  · rw [pathGroups_skip hskip, isSome_queryGroups]
    have hne : text.head? ≠ some '/' := fun h => absurd (hskip '/' h) (by simp)
    simp [hne]

theorem pathRun_eq {s : State Char} (h : Quiet s.rest) :
    pathRun s = pathGroups s.rest s.groups := by
  obtain ⟨pos, text, groups⟩ := s
  rw [pathRun, pathExpr, run_optional (Expr.Advances.group (advances_set_seq _ _) 4)]
  obtain ⟨more, rfl⟩ | hskip := head_cases '/' text
  · obtain ⟨result, hresult⟩ : ∃ result, pathGroups ('/' :: more) groups = some result :=
      Option.isSome_iff_exists.mp (isSome_pathGroups.mpr (by simp))
    have hbody : (Expr.group 4 (.seq (.set (· = '/')) (.many (· ∉ ['?', '#']) 0 none))).run
        ⟨pos, '/' :: more, groups⟩ queryRun = some result := by
      refine run_group_set_many (by simp) ?_
      rw [queryRun_eq (h.cons.suffix (List.dropWhile_suffix _))]
      exact hresult
    rw [hbody]
    exact hresult.symm
  · rw [Expr.run, run_set_seq_skip hskip, Option.none_or, pathGroups_skip hskip, queryRun_eq h]

/-- A match that begins with a digit fails behind the port. -/
theorem pathGroups_digit {text : Text} {groups : Groups} {d : Char} (hd : d.isDigit = true)
    (hhead : text.head? = some d) : pathGroups text groups = none := by
  rw [← Option.not_isSome_iff_eq_none, isSome_pathGroups, hhead]
  intro hmem
  simp only [List.mem_cons, List.not_mem_nil, or_false, Option.some.injEq, reduceCtorEq,
    false_or] at hmem
  rcases hmem with rfl | rfl | rfl <;> cases hd

theorem portRun_eq {s : State Char} (h : Quiet s.rest) :
    portRun s = portGroups s.rest s.groups := by
  obtain ⟨pos, text, groups⟩ := s
  rw [portRun, portExpr, run_optional (advances_set_seq _ _)]
  obtain ⟨more, rfl⟩ | hskip := head_cases ':' text
  · rw [run_set_seq_cons (by simp)]
    have hcolon : pathRun ⟨pos, ':' :: more, groups⟩ = none := by
      rw [pathRun_eq h, ← Option.not_isSome_iff_eq_none, isSome_pathGroups]
      simp
    have hnext : ∀ n, pathRun (State.capture ⟨pos + 1, more, groups⟩ 3
        (State.advance ⟨pos + 1, more, groups⟩ n)) =
        pathGroups (more.drop n) ((3, more.take n) :: groups) := by
      intro n
      rw [pathRun_eq (h.cons.suffix (List.drop_suffix n more))]
      simp only [State.capture, State.advance, Nat.add_sub_cancel_left]
    -- in front of another digit the match does not go on
    have hshort : ∀ n < (more.takeWhile Char.isDigit).length,
        pathGroups (more.drop n) ((3, more.take n) :: groups) = none := by
      intro n hn
      obtain ⟨d, hhead, hd⟩ := head?_drop_of_lt hn
      exact pathGroups_digit hd hhead
    have hreach : reach Char.isDigit (some 5) more =
        min 5 (more.takeWhile Char.isDigit).length := rfl
    rw [hcolon, Option.or_none, portGroups]
    show greedy Char.isDigit 1 (some 5) _ more = _
    dsimp only
    split
    · next hport =>
        have hwhole : reach Char.isDigit (some 5) more = reach Char.isDigit none more := by
          rw [hreach, reach]
          omega
        rw [← drop_reach, ← take_reach, ← hwhole]
        cases hgroups : pathGroups (more.drop (reach Char.isDigit (some 5) more))
            ((3, more.take (reach Char.isDigit (some 5) more)) :: groups) with
        | none =>
            rw [greedy_eq_none_iff]
            intro n hn hle
            rw [hnext]
            rcases Nat.lt_or_eq_of_le hle with hlt | heq
            · exact hshort n (by omega)
            · rw [heq, hgroups]
        | some result =>
            refine greedy_of_reach (by omega) ?_
            rw [hnext, hgroups]
    · next hport =>
        rw [greedy_eq_none_iff]
        intro n hn hle
        rw [hnext]
        exact hshort n (by omega)
  · rw [run_set_seq_skip hskip, Option.none_or, portGroups_skip hskip, pathRun_eq h]

/-! ## URLs by their parts -/

/-- A URL: its parts, where each delimiter stands between two of them. -/
structure Url where
  secure : Bool
  host : Text
  port : Option Text
  path : Option Text
  query : Option Text
  fragment : Option Text
  host_ne_nil : host ≠ []
  host_chars : ∀ c ∈ host, c ∉ [':', '/', '?', '#']
  port_digits : ∀ p ∈ port, 1 ≤ p.length ∧ p.length ≤ 5 ∧ ∀ c ∈ p, c.isDigit = true
  path_chars : ∀ p ∈ path, p.head? = some '/' ∧ ∀ c ∈ p, c ∉ ['?', '#']
  query_chars : ∀ q ∈ query, '#' ∉ q
  fragment_chars : ∀ f ∈ fragment, ∀ c ∈ f, c ∉ lineTerminators

namespace Url

variable (url : Url)

/-- The name of the scheme. -/
def scheme : Text := if url.secure then ("https" : Text) else ("http" : Text)

/-- The query and the fragment. -/
def tail : Text :=
  url.query.elim [] (fun q => '?' :: q) ++ url.fragment.elim [] (fun f => '#' :: f)

/-- What stands behind the host. -/
def behindHost : Text :=
  url.port.elim [] (fun p => ':' :: p) ++ (url.path.getD [] ++ url.tail)

/-- `scheme://host[:port][path][?query][#fragment]` -/
def write : Text := url.scheme ++ (("://" : Text) ++ (url.host ++ url.behindHost))

/-- What should be read of it. -/
def parts : UrlParts where
  protocol := url.scheme
  host := url.host
  port := url.port.getD (if url.secure then ("443" : Text) else ("80" : Text))
  path := url.path.getD ("/" : Text)
  query := url.query.getD []

/-- What the groups capture behind the host. -/
def captured : Groups :=
  url.query.elim [] (fun q => [(5, q)]) ++
    (url.path.elim [] (fun p => [(4, p)]) ++ url.port.elim [] (fun p => [(3, p)]))

/-- What stands behind a run of a class. -/
theorem span_append {allowed : Char → Bool} {text : Text} (rest : Text)
    (htext : ∀ c ∈ text, allowed c = true)
    (hrest : ∀ c ∈ rest.head?, allowed c = false) :
    (text ++ rest).takeWhile allowed = text ∧ (text ++ rest).dropWhile allowed = rest := by
  have hword := Option.some.inj (Reading.word_append htext hrest)
  exact ⟨congrArg Prod.fst hword, congrArg Prod.snd hword⟩

theorem head?_tail : ∀ c ∈ url.tail.head?, c = '?' ∨ c = '#' := by
  intro c hc
  unfold tail at hc
  cases hquery : url.query with
  | some q =>
      rw [hquery] at hc
      cases hc
      exact .inl rfl
  | none =>
      rw [hquery] at hc
      cases hfragment : url.fragment with
      | none =>
          rw [hfragment] at hc
          cases hc
      | some f =>
          rw [hfragment] at hc
          cases hc
          exact .inr rfl

theorem queryGroups_tail (groups : Groups) :
    queryGroups url.tail groups = some (url.query.elim [] (fun q => [(5, q)]) ++ groups) := by
  have hfragment : ∀ c ∈ (url.fragment.elim [] (fun f => '#' :: f)).head?, c = '#' := by
    intro c hc
    cases hfragment : url.fragment with
    | none =>
        rw [hfragment] at hc
        cases hc
    | some f =>
        rw [hfragment] at hc
        cases hc
        rfl
  unfold tail
  cases hquery : url.query with
  | some q =>
      have hq : ∀ c ∈ q, decide (c ∉ ['#']) = true := by
        intro c hc
        rw [decide_eq_true_iff, List.mem_singleton]
        rintro rfl
        exact url.query_chars q hquery hc
      have hspan := span_append (url.fragment.elim [] (fun f => '#' :: f)) hq
        fun c hc => by simp [hfragment c hc]
      show some ((5, (q ++ _).takeWhile _) :: groups) = _
      rw [hspan.1]
      rfl
  | none =>
      cases hfragment : url.fragment with
      | none => rfl
      | some f => rfl

theorem pathGroups_path (groups : Groups) :
    pathGroups (url.path.getD [] ++ url.tail) groups =
      some (url.query.elim [] (fun q => [(5, q)]) ++
        (url.path.elim [] (fun p => [(4, p)]) ++ groups)) := by
  cases hpath : url.path with
  | some p =>
      obtain ⟨hhead, hchars⟩ := url.path_chars p hpath
      obtain ⟨more, rfl⟩ := List.head?_eq_some_iff.mp hhead
      have hmore : ∀ c ∈ more, decide (c ∉ ['?', '#']) = true :=
        fun c hc => decide_eq_true (hchars c (List.mem_cons_of_mem _ hc))
      have hspan := span_append url.tail hmore
        fun c hc => by simpa [or_iff_not_imp_left] using url.head?_tail c hc
      show queryGroups ((more ++ url.tail).dropWhile _)
        ((4, '/' :: (more ++ url.tail).takeWhile _) :: groups) = _
      rw [hspan.1, hspan.2, queryGroups_tail]
      rfl
  | none =>
      show pathGroups url.tail groups = _
      rw [pathGroups_skip, queryGroups_tail]
      · rfl
      · intro c hc
        rcases url.head?_tail c hc with rfl | rfl <;> rfl

/-- Behind the host the expression captures what was written there. -/
theorem portGroups_behindHost (groups : Groups) :
    portGroups url.behindHost groups = some (url.captured ++ groups) := by
  have hhead : ∀ c ∈ (url.path.getD [] ++ url.tail).head?, c ∈ ['/', '?', '#'] := by
    intro c hc
    cases hpath : url.path with
    | none =>
        rw [hpath] at hc
        simpa using .inr (url.head?_tail c hc)
    | some p =>
        obtain ⟨more, rfl⟩ := List.head?_eq_some_iff.mp (url.path_chars p hpath).1
        rw [hpath] at hc
        cases hc
        simp
  unfold behindHost captured
  cases hport : url.port with
  | some p =>
      obtain ⟨hmin, hmax, hdigits⟩ := url.port_digits p hport
      have hspan := span_append (url.path.getD [] ++ url.tail) hdigits
        fun c hc => by
          have hc := hhead c hc
          simp only [List.mem_cons, List.not_mem_nil, or_false] at hc
          rcases hc with rfl | rfl | rfl <;> rfl
      show portGroups (':' :: (p ++ (url.path.getD [] ++ url.tail))) groups = _
      rw [portGroups, hspan.1, hspan.2, if_pos ⟨hmin, hmax⟩, pathGroups_path]
      simp
  | none =>
      show portGroups (url.path.getD [] ++ url.tail) groups = _
      rw [portGroups_skip, pathGroups_path]
      · simp
      · intro c hc
        have hc := hhead c hc
        simp only [List.mem_cons, List.not_mem_nil, or_false] at hc
        rcases hc with rfl | rfl | rfl <;> rfl

/-! ## The host -/

/-- The host, and what comes behind it. -/
def hostRun (s : State Char) : Option Groups :=
  (Expr.group 2 (.many (· ∉ [':', '/']) 1 none)).run s portRun

theorem hostRun_eq_some_iff {pos : Nat} {text : Text} {groups result : Groups} (h : Quiet text) :
    hostRun ⟨pos, text, groups⟩ = some result ↔
      ∃ n, 1 ≤ n ∧ n ≤ (text.takeWhile (· ∉ [':', '/'])).length ∧
        portGroups (text.drop n) ((2, text.take n) :: groups) = some result ∧
        ∀ m, n < m → m ≤ (text.takeWhile (· ∉ [':', '/'])).length →
          portGroups (text.drop m) ((2, text.take m) :: groups) = none := by
  have hnext : ∀ n, portRun (State.capture ⟨pos, text, groups⟩ 2
      (State.advance ⟨pos, text, groups⟩ n)) =
      portGroups (text.drop n) ((2, text.take n) :: groups) := by
    intro n
    rw [portRun_eq (h.suffix (List.drop_suffix n text))]
    simp only [State.capture, State.advance, Nat.add_sub_cancel_left]
  have hrun : hostRun ⟨pos, text, groups⟩ = greedy (· ∉ [':', '/']) 1 none
      (fun n => portRun (State.capture ⟨pos, text, groups⟩ 2
        (State.advance ⟨pos, text, groups⟩ n))) text := rfl
  rw [hrun, greedy_eq_some_iff]
  simp only [hnext]
  rfl

/-- The scheme is read, and then the host. -/
theorem matchAll_scheme (secure : Bool) (text : Text) :
    ∃ pos, matchAll urlRegex
        ((if secure then ("https" : Text) else ("http" : Text)) ++ (("://" : Text) ++ text)) =
      hostRun ⟨pos, text, [(1, if secure then ("https" : Text) else ("http" : Text))]⟩ := by
  cases secure with
  | false => exact ⟨7, rfl⟩
  | true =>
      refine ⟨8, ?_⟩
      show (hostRun ⟨8, text, [(1, ("https" : Text))]⟩).or none = _
      rw [Option.or_none]
      rfl

/-- Only the groups behind the host are added. -/
theorem subMatch_portGroups {text : Text} {groups result : Groups}
    (h : portGroups text groups = some result) : subMatch result 2 = subMatch groups 2 := by
  have hquery : ∀ text groups, queryGroups text groups = some result →
      subMatch result 2 = subMatch groups 2 := by
    intro text groups h
    unfold queryGroups at h
    split at h
    · cases h
      rfl
    · rw [fragmentGroups, Option.ite_none_right_eq_some] at h
      cases h.2
      rfl
  have hpath : ∀ text groups, pathGroups text groups = some result →
      subMatch result 2 = subMatch groups 2 := by
    intro text groups h
    unfold pathGroups at h
    split at h
    · have hbehind := hquery _ _ h
      exact hbehind
    · exact hquery _ _ h
  unfold portGroups at h
  split at h
  · dsimp only at h
    rw [Option.ite_none_right_eq_some] at h
    have hbehind := hpath _ _ h.2
    exact hbehind
  · exact hpath _ _ h

/-- The digits behind a colon are a port: there are one to five, and what may stand behind a port
follows. -/
def PortEnds (more : Text) : Prop :=
  (1 ≤ (more.takeWhile Char.isDigit).length ∧ (more.takeWhile Char.isDigit).length ≤ 5) ∧
    (more.dropWhile Char.isDigit).head? ∈ [none, some '/', some '?', some '#']

/-- The host may end in front of this text. -/
def Accepts (text : Text) : Prop :=
  text.head? ∈ [none, some '/', some '?', some '#'] ∨ ∃ more, text = ':' :: more ∧ PortEnds more

theorem portGroups_eq_none_iff {text : Text} {groups : Groups} :
    portGroups text groups = none ↔ ¬ Accepts text := by
  rw [← Option.not_isSome_iff_eq_none, not_iff_not, Accepts]
  obtain ⟨more, rfl⟩ | hskip := head_cases ':' text
  · rw [portGroups, or_iff_right (by simp)]
    constructor
    · intro h
      split at h
      · next hport => exact ⟨more, rfl, hport, isSome_pathGroups.mp h⟩
      · cases h
    · rintro ⟨_, heq, hport, hends⟩
      cases heq
      rw [if_pos hport]
      exact isSome_pathGroups.mpr hends
  · rw [portGroups_skip hskip, isSome_pathGroups, or_iff_left]
    rintro ⟨more, rfl, _⟩
    exact absurd (hskip ':' rfl) (by simp)

/-- The first delimiter is a colon without a port behind it. -/
def Closes (text : Text) : Prop :=
  ∃ front more, text = front ++ ':' :: more ∧ (∀ c ∈ front, c ∉ [':', '/', '?', '#']) ∧
    ¬ PortEnds more

/-- At no place that the class of the host reaches the host may end. -/
theorem closes_cons (c : Char) (text : Text) :
    Closes (c :: text) ↔ c = ':' ∧ ¬ PortEnds text ∨ c ∉ [':', '/', '?', '#'] ∧ Closes text := by
  constructor
  · rintro ⟨front, more, heq, hfront, hmore⟩
    cases front with
    | nil =>
        cases heq
        exact .inl ⟨rfl, hmore⟩
    | cons d front =>
        cases heq
        rw [List.forall_mem_cons] at hfront
        exact .inr ⟨hfront.1, front, more, rfl, hfront.2, hmore⟩
  · rintro (⟨rfl, hmore⟩ | ⟨hc, front, more, rfl, hfront, hmore⟩)
    · exact ⟨[], text, rfl, nofun, hmore⟩
    · exact ⟨c :: front, more, rfl, List.forall_mem_cons.mpr ⟨hc, hfront⟩, hmore⟩

theorem accepts_colon (text : Text) : Accepts (':' :: text) ↔ PortEnds text := by
  simp [Accepts]

/-- What begins with a character of the class of the host is not accepted behind the host. -/
theorem not_accepts_of_not_mem {c : Char} (hc : c ∉ [':', '/', '?', '#']) (text : Text) :
    ¬ Accepts (c :: text) := by
  simp only [List.mem_cons, List.not_mem_nil, or_false, not_or] at hc
  simp [Accepts, hc]

theorem closes_iff (text : Text) :
    Closes text ↔
      ∀ n ≤ (text.takeWhile (· ∉ [':', '/'])).length, ¬ Accepts (text.drop n) := by
  induction text with
  | nil =>
      refine iff_of_false ?_ fun h => h 0 (le_refl _) (.inl (by simp))
      rintro ⟨front, more, heq, _⟩
      cases front <;> cases heq
  | cons c text ih =>
      rw [closes_cons, ih]
      by_cases hcolon : c = ':'
      · subst hcolon
        simp [accepts_colon]
      · by_cases hc : c ∈ [':', '/', '?', '#']
        · refine iff_of_false ?_ fun h => h 0 (Nat.zero_le _) (.inl ?_)
          · rintro (⟨heq, _⟩ | ⟨hnot, _⟩)
            · exact hcolon heq
            · exact hnot hc
          · simpa [hcolon] using hc
        · have hrun : ((c :: text).takeWhile (· ∉ [':', '/'])).length =
              (text.takeWhile (· ∉ [':', '/'])).length + 1 := by
            simp only [List.mem_cons, List.not_mem_nil, or_false, not_or] at hc
            simp [hc]
          rw [hrun, or_iff_right (fun h => hcolon h.1), and_iff_right hc]
          constructor
          · intro h n hn
            cases n with
            | zero => exact not_accepts_of_not_mem hc text
            | succ n => exact h n (by omega)
          · exact fun h n hn => h (n + 1) (by omega)

/-- The host ends where it should: a port or a path or nothing follows, or what follows does not let
the class of the host end any further on. -/
def HostEnds : Prop :=
  url.port.isSome = true ∨ url.path.isSome = true ∨ (url.query = none ∧ url.fragment = none) ∨
    Closes (url.tail.drop 1)

/-- Behind a port or a path the class of the host ends at once. -/
theorem not_accepts_of_stop {text rest : Text} {c : Char} (heq : text = c :: rest)
    (hc : c ∈ [':', '/']) {n : Nat} (hn : 1 ≤ n)
    (hle : n ≤ (text.takeWhile (· ∉ [':', '/'])).length) : ¬ Accepts (text.drop n) := by
  rw [heq, List.takeWhile_cons_of_neg (by rw [decide_eq_true_iff, not_not]; exact hc)] at hle
  exact absurd (hn.trans hle) (by simp)

theorem hostEnds_iff :
    url.HostEnds ↔ ∀ n, 1 ≤ n → n ≤ (url.behindHost.takeWhile (· ∉ [':', '/'])).length →
      ¬ Accepts (url.behindHost.drop n) := by
  cases hport : url.port with
  | some p =>
      have hbehind : url.behindHost = ':' :: (p ++ (url.path.getD [] ++ url.tail)) := by
        rw [behindHost, hport]
        rfl
      exact iff_of_true (.inl (by rw [hport]; rfl)) fun _ =>
        not_accepts_of_stop hbehind (by simp)
  | none =>
      cases hpath : url.path with
      | some p =>
          obtain ⟨more, rfl⟩ := List.head?_eq_some_iff.mp (url.path_chars p hpath).1
          have hbehind : url.behindHost = '/' :: (more ++ url.tail) := by
            rw [behindHost, hport, hpath]
            rfl
          exact iff_of_true (.inr (.inl (by rw [hpath]; rfl))) fun _ =>
            not_accepts_of_stop hbehind (by simp)
      | none =>
          have hbehind : url.behindHost = url.tail := by
            rw [behindHost, hport, hpath]
            rfl
          have hnone : url.query = none ∧ url.fragment = none ↔ url.tail = [] := by
            unfold tail
            cases url.query <;> cases url.fragment <;> simp
          rw [HostEnds, hport, hpath, hnone, hbehind]
          cases htail : url.tail with
          | nil =>
              exact iff_of_true (.inr (.inr (.inl rfl))) fun n hn hle =>
                absurd hle (by simp; omega)
          | cons c rest =>
              have hc : c = '?' ∨ c = '#' := url.head?_tail c (by rw [htail]; rfl)
              have hrun : ((c :: rest).takeWhile (· ∉ [':', '/'])).length =
                  (rest.takeWhile (· ∉ [':', '/'])).length + 1 := by
                rcases hc with rfl | rfl <;> simp
              rw [hrun, List.drop_succ_cons, List.drop_zero, closes_iff]
              constructor
              · rintro (h | h | h | h) n hn hle
                · cases h
                · cases h
                · cases h
                · obtain ⟨n, rfl⟩ : ∃ k, n = k + 1 := ⟨n - 1, by omega⟩
                  exact h n (by omega)
              · intro h
                exact .inr (.inr (.inr fun n hn => h (n + 1) (by omega) (by omega)))

/-- Line ends are in the query at most. -/
theorem quiet_write : Quiet (url.host ++ url.behindHost) := by
  have hfront : ∀ front rest : Text, '#' ∉ front → Quiet rest → Quiet (front ++ rest) := by
    intro front rest hnot hrest c hc
    refine hrest c ?_
    rwa [List.dropWhile_append_of_pos] at hc
    intro d hd
    refine decide_eq_true ?_
    rintro rfl
    exact hnot hd
  have hhost : '#' ∉ url.host := fun hmem => url.host_chars '#' hmem (by simp)
  refine hfront _ _ hhost (hfront _ _ ?_ (hfront _ _ ?_ (hfront _ _ ?_ ?_)))
  · cases hport : url.port with
    | none => exact List.not_mem_nil
    | some p =>
        intro hmem
        rcases List.mem_cons.mp hmem with heq | hmem
        · cases heq
        · exact absurd ((url.port_digits p hport).2.2 '#' hmem) (by decide)
  · cases hpath : url.path with
    | none => exact List.not_mem_nil
    | some p => exact fun hmem => (url.path_chars p hpath).2 '#' hmem (by simp)
  · cases hquery : url.query with
    | none => exact List.not_mem_nil
    | some q =>
        intro hmem
        rcases List.mem_cons.mp hmem with heq | hmem
        · cases heq
        · exact url.query_chars q hquery hmem
  · cases hfragment : url.fragment with
    | none => exact nofun
    | some f =>
        intro c hc
        rcases List.mem_cons.mp ((List.dropWhile_suffix _).subset hc) with rfl | hmem
        · decide
        · exact url.fragment_chars f hfragment c hmem

/-- What is read when the groups have captured the parts that were written. -/
theorem parseUrl_of_captured
    (h : matchAll urlRegex url.write = some (url.captured ++ [(2, url.host), (1, url.scheme)])) :
    parseUrl url.write = .ok url.parts := by
  have hgroups : ∀ groups : Groups, groups = url.captured ++ [(2, url.host), (1, url.scheme)] →
      subMatch groups 1 = url.scheme ∧ subMatch groups 2 = url.host ∧
        subMatch groups 3 = url.port.getD [] ∧ subMatch groups 4 = url.path.getD [] ∧
        subMatch groups 5 = url.query.getD [] := by
    rintro _ rfl
    unfold captured
    cases url.port <;> cases url.path <;> cases url.query <;> exact ⟨rfl, rfl, rfl, rfl, rfl⟩
  obtain ⟨hscheme, hhost, hport, hpath, hquery⟩ := hgroups _ rfl
  have hdefault : (if url.scheme = ("https" : Text) then ("443" : Text) else ("80" : Text)) =
      if url.secure then ("443" : Text) else ("80" : Text) := by
    unfold scheme
    cases url.secure <;> rfl
  rw [parseUrl, h]
  dsimp only
  rw [hscheme, hhost, hport, hpath, hquery, hdefault, parts]
  congr 2
  · cases hcase : url.port with
    | none => rfl
    | some p =>
        have hlength := (url.port_digits p hcase).1
        cases p with
        | nil => simp at hlength
        | cons d p => rfl
  · cases hcase : url.path with
    | none => rfl
    | some p =>
        obtain ⟨more, rfl⟩ := List.head?_eq_some_iff.mp (url.path_chars p hcase).1
        rfl

/-- The class of the host takes the host, and may go on behind it. -/
theorem takeWhile_host (rest : Text) :
    (url.host ++ rest).takeWhile (· ∉ [':', '/']) =
      url.host ++ rest.takeWhile (· ∉ [':', '/']) := by
  refine List.takeWhile_append_of_pos fun c hc => ?_
  have hchar := url.host_chars c hc
  simp only [List.mem_cons, List.not_mem_nil, or_false, not_or] at hchar
  simp [hchar]

/-- No larger number of characters is taken for the host exactly when it ends where it should. -/
theorem hostEnds_iff_portGroups (groups : Groups) :
    url.HostEnds ↔ ∀ m, url.host.length < m →
      m ≤ ((url.host ++ url.behindHost).takeWhile (· ∉ [':', '/'])).length →
      portGroups ((url.host ++ url.behindHost).drop m)
        ((2, (url.host ++ url.behindHost).take m) :: groups) = none := by
  rw [hostEnds_iff, takeWhile_host, List.length_append]
  constructor
  · intro h m hm hle
    obtain ⟨n, rfl⟩ : ∃ n, m = url.host.length + n := ⟨m - url.host.length, by omega⟩
    rw [portGroups_eq_none_iff, List.drop_length_add_append]
    exact h n (by omega) (by omega)
  · intro h n hn hle
    have hnone := h (url.host.length + n) (by omega) (by omega)
    rwa [portGroups_eq_none_iff, List.drop_length_add_append] at hnone

/-- A URL is taken apart as it was written exactly when its host ends where it should. -/
theorem parseUrl_write_iff : parseUrl url.write = .ok url.parts ↔ url.HostEnds := by
  obtain ⟨pos, hmatch⟩ := matchAll_scheme url.secure (url.host ++ url.behindHost)
  have hwhole : portGroups ((url.host ++ url.behindHost).drop url.host.length)
      ((2, (url.host ++ url.behindHost).take url.host.length) :: [(1, url.scheme)]) =
      some (url.captured ++ [(2, url.host), (1, url.scheme)]) := by
    rw [List.drop_left, List.take_left, portGroups_behindHost]
  have hrun : hostRun ⟨pos, url.host ++ url.behindHost, [(1, url.scheme)]⟩ =
      some (url.captured ++ [(2, url.host), (1, url.scheme)]) ↔ _ :=
    hostRun_eq_some_iff url.quiet_write
  rw [url.hostEnds_iff_portGroups [(1, url.scheme)]]
  constructor
  · intro h
    cases hresult : hostRun ⟨pos, url.host ++ url.behindHost, [(1, url.scheme)]⟩ with
    | none =>
        rw [parseUrl, write, scheme, hmatch, ← scheme, hresult] at h
        cases h
    | some result =>
        -- the captured host is as long as the number of characters that were taken
        obtain ⟨n, hn, hle, hgroups, hlonger⟩ :=
          (hostRun_eq_some_iff url.quiet_write).mp hresult
        rw [parseUrl, write, scheme, hmatch, ← scheme, hresult] at h
        have hhost := congrArg UrlParts.host (Except.ok.inj h)
        have htake : (url.host ++ url.behindHost).take n = url.host :=
          (subMatch_portGroups hgroups).symm.trans hhost
        have hlength := congrArg List.length htake
        have hbound := (List.takeWhile_prefix (l := url.host ++ url.behindHost)
          (· ∉ [':', '/'])).length_le
        rw [List.length_take, Nat.min_eq_left (hle.trans hbound)] at hlength
        rwa [← hlength]
  · intro hlonger
    refine url.parseUrl_of_captured ?_
    rw [write, scheme, hmatch, ← scheme, hrun]
    refine ⟨url.host.length, List.length_pos_of_ne_nil url.host_ne_nil, ?_, hwhole, hlonger⟩
    rw [takeWhile_host, List.length_append]
    exact Nat.le_add_right _ _

/-- The second page of a site. -/
def secondPage : Url where
  secure := true
  host := ("example.com" : Text)
  port := none
  path := none
  query := some ("page=2" : Text)
  fragment := none
  host_ne_nil := by decide
  host_chars := List.all_iff_forall_prop.mp (by decide)
  port_digits := nofun
  path_chars := nofun
  query_chars := by decide
  fragment_chars := nofun

/-- Its query is taken for a part of the host. -/
theorem secondPage_host :
    secondPage.write = ("https://example.com?page=2" : Text) ∧
      parseUrl secondPage.write =
        .ok ⟨("https" : Text), ("example.com?page=2" : Text), ("443" : Text), ("/" : Text), []⟩ ∧
      parseUrl secondPage.write ≠ .ok secondPage.parts := by
  have hread : parseUrl secondPage.write =
      .ok ⟨("https" : Text), ("example.com?page=2" : Text), ("443" : Text), ("/" : Text), []⟩ := by
    decide +kernel
  refine ⟨by decide +kernel, hread, ?_⟩
  rw [hread]
  decide +kernel

end Url

end HttpClient

end Brazier
