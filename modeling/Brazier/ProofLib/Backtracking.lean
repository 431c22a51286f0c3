import Mathlib.Data.List.TakeWhile

/-!
# Regular expressions with continuations

A fragment of the ECMAScript regular expressions: sequences, greedy optional parts,
greedy repetitions of a class of characters, and groups. An expression is matched with what stands
at a position, and the matcher goes on with a continuation; where the continuation fails the next
choice is made. `greedy_eq_some_iff` says which number of characters a repetition takes, and
`run_isSome_iff` that the matcher finds a way whenever there is one.
-/

namespace ProofLib

namespace Backtracking

universe u v

variable {σ : Type u} {α : Type v}

/-- An expression. The groups have numbers. -/
inductive Expr (σ : Type u) where
  | empty
  | start
  | stop
  | set (allowed : σ → Bool)
  | many (allowed : σ → Bool) (least : Nat) (most : Option Nat)
  | optional (body : Expr σ)
  | seq (first second : Expr σ)
  | group (index : Nat) (body : Expr σ)

/-- A place in the text, what follows it, and what the groups have captured, the last one first. -/
structure State (σ : Type u) where
  pos : Nat
  rest : List σ
  groups : List (Nat × List σ)

namespace State

/-- Some characters on. -/
def advance (s : State σ) (n : Nat) : State σ := ⟨s.pos + n, s.rest.drop n, s.groups⟩

/-- What was passed on the way to another place is captured. -/
def capture (s : State σ) (index : Nat) (s' : State σ) : State σ :=
  { s' with groups := (index, s.rest.take (s'.pos - s.pos)) :: s'.groups }

end State

/-- The choices of a greedy repetition: one more character first, then no more. -/
def greedy (allowed : σ → Bool) (least : Nat) (most : Option Nat) (next : Nat → Option α) :
    List σ → Option α
  | [] => if least = 0 then next 0 else none
  | c :: rest =>
      (if allowed c ∧ most ≠ some 0 then
        greedy allowed (least - 1) (most.map Nat.pred) (fun n => next (n + 1)) rest
      else none).or
      (if least = 0 then next 0 else none)

/-- Matches an expression and goes on. -/
def Expr.run : Expr σ → State σ → (State σ → Option α) → Option α
  | .empty, s, next => next s
  | .start, s, next => if s.pos = 0 then next s else none
  | .stop, s, next => if s.rest.isEmpty then next s else none
  | .set allowed, s, next =>
      match s.rest with
      | [] => none
      | c :: _ => if allowed c then next (s.advance 1) else none
  | .many allowed least most, s, next =>
      greedy allowed least most (fun n => next (s.advance n)) s.rest
  | .optional body, s, next =>
      -- an iteration that takes nothing is no iteration
      (body.run s fun s' => if s'.pos = s.pos then none else next s').or (next s)
  | .seq first second, s, next => first.run s fun s' => second.run s' next
  | .group index body, s, next => body.run s fun s' => next (s.capture index s')

/-- The expression matches the whole text. The result has what the groups captured. -/
def matchAll (expr : Expr σ) (text : List σ) : Option (List (Nat × List σ)) :=
  expr.run ⟨0, text, []⟩ fun s => if s.rest.isEmpty then some s.groups else none

/-- The captured text of a group; it is empty when the group did not take part. -/
def subMatch (groups : List (Nat × List σ)) (index : Nat) : List σ :=
  (groups.lookup index).getD []

/-- A text that stands for itself. -/
def literal [DecidableEq σ] (text : List σ) : Expr σ :=
  text.foldr (fun c expr => .seq (.set (· = c)) expr) .empty

/-! ## Repetitions -/

/-- The number of characters that a repetition may take of a text. -/
def reach (allowed : σ → Bool) (most : Option Nat) (text : List σ) : Nat :=
  match most with
  | none => (text.takeWhile allowed).length
  | some most => min most (text.takeWhile allowed).length

theorem reach_nil (allowed : σ → Bool) (most : Option Nat) : reach allowed most [] = 0 := by
  cases most <;> simp [reach]

theorem reach_cons (allowed : σ → Bool) (most : Option Nat) (c : σ) (rest : List σ) :
    reach allowed most (c :: rest) =
      if allowed c ∧ most ≠ some 0 then reach allowed (most.map Nat.pred) rest + 1 else 0 := by
  by_cases hc : allowed c = true
  · cases most with
    | none => simp [reach, hc]
    | some most =>
        cases most with
        | zero => simp [reach]
        | succ most => simp [reach, hc]
  · cases most <;> simp [reach, hc]

variable {allowed : σ → Bool} {least : Nat} {most : Option Nat} {next : Nat → Option α}
  {text : List σ}

/-- A repetition fails when the match goes on with no number of characters. -/
theorem greedy_eq_none_iff :
    greedy allowed least most next text = none ↔
      ∀ n, least ≤ n → n ≤ reach allowed most text → next n = none := by
  induction text generalizing least most next with
  | nil =>
      rw [greedy, reach_nil]
      constructor
      · intro h n hleast hn
        have hzero : n = 0 := by omega
        rwa [hzero, ← if_pos (c := least = 0) (t := next 0) (e := none) (by omega)]
      · intro h
        split
        · next hleast => exact h 0 (by omega) (by omega)
        · rfl
  | cons c rest ih =>
      rw [greedy, reach_cons, Option.or_eq_none_iff]
      split
      · rw [ih]
        constructor
        · intro ⟨hmore, hzero⟩ n hleast hn
          cases n with
          | zero => rwa [if_pos (by omega)] at hzero
          | succ n => exact hmore n (by omega) (by omega)
        · intro h
          refine ⟨fun n hleast hn => h (n + 1) (by omega) (by omega), ?_⟩
          split
          · exact h 0 (by omega) (by omega)
          · rfl
      · constructor
        · intro ⟨_, hzero⟩ n hleast hn
          have hn' : n = 0 := by omega
          rw [if_pos (by omega)] at hzero
          rwa [hn']
        · intro h
          refine ⟨rfl, ?_⟩
          split
          · exact h 0 (by omega) (by omega)
          · rfl

/-- A repetition takes the largest number of characters with which the match goes on. -/
theorem greedy_eq_some_iff {result : α} :
    greedy allowed least most next text = some result ↔
      ∃ n, least ≤ n ∧ n ≤ reach allowed most text ∧ next n = some result ∧
        ∀ m, n < m → m ≤ reach allowed most text → next m = none := by
  induction text generalizing least most next with
  | nil =>
      rw [greedy, reach_nil, Option.ite_none_right_eq_some]
      constructor
      · intro ⟨hleast, h⟩
        exact ⟨0, by omega, by omega, h, fun m hm hm' => by omega⟩
      · intro ⟨n, hleast, hn, h, _⟩
        have hzero : n = 0 := by omega
        exact ⟨by omega, hzero ▸ h⟩
  | cons c rest ih =>
      rw [greedy, reach_cons]
      by_cases hmore : allowed c ∧ most ≠ some 0
      · rw [if_pos hmore, if_pos hmore, Option.or_eq_some_iff, Option.ite_none_right_eq_some, ih,
          greedy_eq_none_iff]
        constructor
        · rintro (⟨n, hleast, hn, h, hlonger⟩ | ⟨hmore, hleast, h⟩)
          · refine ⟨n + 1, by omega, by omega, h, fun m hm hm' => ?_⟩
            obtain ⟨m, rfl⟩ : ∃ k, m = k + 1 := ⟨m - 1, by omega⟩
            exact hlonger m (by omega) (by omega)
          · refine ⟨0, by omega, by omega, h, fun m hm hm' => ?_⟩
            obtain ⟨m, rfl⟩ : ∃ k, m = k + 1 := ⟨m - 1, by omega⟩
            exact hmore m (by omega) (by omega)
        · rintro ⟨n, hleast, hn, h, hlonger⟩
          cases n with
          | zero =>
              refine .inr ⟨fun n _ hn => hlonger (n + 1) (by omega) (by omega), by omega, h⟩
          | succ n =>
              refine .inl ⟨n, by omega, by omega, h, fun m hm hm' => ?_⟩
              exact hlonger (m + 1) (by omega) (by omega)
      · rw [if_neg hmore, if_neg hmore, Option.or_eq_some_iff, Option.ite_none_right_eq_some]
        constructor
        · rintro (h | ⟨-, hleast, h⟩)
          · cases h
          · exact ⟨0, by omega, by omega, h, fun m hm hm' => by omega⟩
        · rintro ⟨n, hleast, hn, h, _⟩
          have hzero : n = 0 := by omega
          exact .inr ⟨rfl, by omega, hzero ▸ h⟩

/-- The longest choice is taken where the match goes on behind it. -/
theorem greedy_of_reach {result : α} (hleast : least ≤ reach allowed most text)
    (h : next (reach allowed most text) = some result) :
    greedy allowed least most next text = some result :=
  greedy_eq_some_iff.mpr ⟨_, hleast, le_refl _, h, fun m hm hm' => by omega⟩

/-- Behind the longest run of a class there is what is left of the text. -/
theorem drop_reach (allowed : σ → Bool) (text : List σ) :
    text.drop (reach allowed none text) = text.dropWhile allowed := by
  conv => lhs; rw [← List.takeWhile_append_dropWhile (p := allowed) (l := text)]
  exact List.drop_left' (by simp [reach])

theorem take_reach (allowed : σ → Bool) (text : List σ) :
    text.take (reach allowed none text) = text.takeWhile allowed := by
  conv => lhs; rw [← List.takeWhile_append_dropWhile (p := allowed) (l := text)]
  exact List.take_left' (by simp [reach])

/-! ## Expressions -/

/-- Only the places behind matter for how the match goes on. -/
theorem run_congr (expr : Expr σ) (s : State σ) {next next' : State σ → Option α}
    (h : ∀ s', s.pos ≤ s'.pos → next s' = next' s') : expr.run s next = expr.run s next' := by
  induction expr generalizing s next next' with
  | empty => exact h s (le_refl _)
  | start =>
      unfold Expr.run
      rw [h s (le_refl _)]
  | stop =>
      unfold Expr.run
      rw [h s (le_refl _)]
  | set allowed =>
      unfold Expr.run
      rw [h (s.advance 1) (Nat.le_add_right _ _)]
  | many allowed least most =>
      have hnext : (fun n => next (s.advance n)) = fun n => next' (s.advance n) := by
        funext n
        exact h (s.advance n) (Nat.le_add_right _ _)
      unfold Expr.run
      rw [hnext]
  | optional body ih =>
      unfold Expr.run
      rw [h s (le_refl _)]
      congr 1
      refine ih s fun s' hs' => ?_
      rw [h s' hs']
  | seq first second ihfirst ihsecond =>
      refine ihfirst s fun s' hs' => ?_
      exact ihsecond s' fun s'' hs'' => h s'' (hs'.trans hs'')
  | group index body ih => exact ih s fun s' hs' => h (s.capture index s') hs'

/-- The expression takes at least one character. -/
def Expr.Advances (expr : Expr σ) : Prop :=
  ∀ {α : Type v} (s : State σ) (next next' : State σ → Option α),
    (∀ s', s.pos < s'.pos → next s' = next' s') → expr.run s next = expr.run s next'

theorem advances_set_seq (allowed : σ → Bool) (second : Expr σ) :
    Expr.Advances.{u, v} (.seq (.set allowed) second) := by
  intro α s next next' h
  have hsecond : second.run (s.advance 1) next = second.run (s.advance 1) next' :=
    run_congr second (s.advance 1) fun s' hs' => h s' (Nat.lt_of_succ_le hs')
  unfold Expr.run
  dsimp only [Expr.run]
  rw [hsecond]

theorem Expr.Advances.group {body : Expr σ} (hbody : Expr.Advances.{u, v} body) (index : Nat) :
    Expr.Advances.{u, v} (.group index body) := by
  intro α s next next' h
  exact hbody s _ _ fun s' hs' => h (s.capture index s') hs'

/-- An optional part is taken if the match goes on behind it, and left out otherwise. -/
theorem run_optional {body : Expr σ} (hbody : Expr.Advances.{u, v} body) (s : State σ)
    (next : State σ → Option α) :
    (Expr.optional body).run s next = (body.run s next).or (next s) := by
  show (body.run s fun s' => if s'.pos = s.pos then none else next s').or (next s) = _
  rw [hbody s _ next fun s' hs' => if_neg (Nat.ne_of_gt hs')]

/-- A part that begins with a character of a class, in front of such a character. -/
theorem run_set_seq_cons {allowed : σ → Bool} {c : σ} (hc : allowed c = true) (second : Expr σ)
    (pos : Nat) (rest : List σ) (groups : List (Nat × List σ)) (next : State σ → Option α) :
    (Expr.seq (.set allowed) second).run ⟨pos, c :: rest, groups⟩ next =
      second.run ⟨pos + 1, rest, groups⟩ next :=
  if_pos hc

/-- The same in front of another one, or at the end. -/
theorem run_set_seq_skip {allowed : σ → Bool} {s : State σ}
    (h : ∀ c ∈ s.rest.head?, allowed c = false) (second : Expr σ) (next : State σ → Option α) :
    (Expr.seq (.set allowed) second).run s next = none := by
  obtain ⟨pos, rest, groups⟩ := s
  cases rest with
  | nil => rfl
  | cons c rest =>
      have hc := h c rfl
      exact if_neg (by rw [hc]; exact Bool.false_ne_true)

/-- A group of a class captures the longest run of it, if the match goes on behind that. -/
theorem run_group_many {allowed : σ → Bool} {s : State σ} {index : Nat} {next : State σ → Option α}
    {result : α}
    (h : next ⟨s.pos + reach allowed none s.rest, s.rest.dropWhile allowed,
      (index, s.rest.takeWhile allowed) :: s.groups⟩ = some result) :
    (Expr.group index (.many allowed 0 none)).run s next = some result := by
  refine greedy_of_reach (Nat.zero_le _) ?_
  simpa only [State.capture, State.advance, drop_reach, Nat.add_sub_cancel_left, take_reach] using h

/-- The same for a group that begins with a character of another class. -/
theorem run_group_set_many {first allowed : σ → Bool} {c : σ} (hc : first c = true) {pos : Nat}
    {rest : List σ} {groups : List (Nat × List σ)} {index : Nat} {next : State σ → Option α}
    {result : α}
    (h : next ⟨pos + 1 + reach allowed none rest, rest.dropWhile allowed,
      (index, c :: rest.takeWhile allowed) :: groups⟩ = some result) :
    (Expr.group index (.seq (.set first) (.many allowed 0 none))).run ⟨pos, c :: rest, groups⟩
      next = some result := by
  rw [Expr.run, run_set_seq_cons hc]
  refine greedy_of_reach (Nat.zero_le _) ?_
  have hlength : pos + 1 + reach allowed none rest - pos = reach allowed none rest + 1 := by omega
  simpa only [State.capture, State.advance, drop_reach, hlength, List.take_succ_cons, take_reach]
    using h

/-- Inside the longest run of a class the next character belongs to it. -/
theorem head?_drop_of_lt {allowed : σ → Bool} {text : List σ} {n : Nat}
    (hn : n < (text.takeWhile allowed).length) :
    ∃ c, (text.drop n).head? = some c ∧ allowed c = true := by
  have hlt : n < text.length := Nat.lt_of_lt_of_le hn (List.takeWhile_prefix allowed).length_le
  refine ⟨(text.takeWhile allowed)[n], ?_, ?_⟩
  · rw [List.head?_drop, List.getElem?_eq_getElem hlt,
      (List.takeWhile_prefix allowed).getElem hn]
  · exact List.mem_takeWhile_imp (List.getElem_mem hn)

/-! ## What an expression matches -/

/-- From one place an expression may match up to another. -/
def Expr.Spans : Expr σ → State σ → State σ → Prop
  | .empty, s, s' => s' = s
  | .start, s, s' => s.pos = 0 ∧ s' = s
  | .stop, s, s' => s.rest = [] ∧ s' = s
  | .set allowed, s, s' => (∃ c rest, s.rest = c :: rest ∧ allowed c = true) ∧ s' = s.advance 1
  | .many allowed least most, s, s' =>
      ∃ n, least ≤ n ∧ n ≤ reach allowed most s.rest ∧ s' = s.advance n
  | .optional body, s, s' => s' = s ∨ body.Spans s s' ∧ s'.pos ≠ s.pos
  | .seq first second, s, s' => ∃ mid, first.Spans s mid ∧ second.Spans mid s'
  | .group index body, s, s' => ∃ inner, body.Spans s inner ∧ s' = s.capture index inner

/-- The matcher finds a way exactly when there is one: the expression may match up to a place where
the match goes on. -/
theorem run_isSome_iff (expr : Expr σ) (s : State σ) (next : State σ → Option α) :
    (expr.run s next).isSome = true ↔ ∃ s', expr.Spans s s' ∧ (next s').isSome = true := by
  induction expr generalizing s next with
  | empty =>
      constructor
      · intro h
        exact ⟨s, rfl, h⟩
      · rintro ⟨s', rfl, h⟩
        exact h
  | start =>
      show (if s.pos = 0 then next s else none).isSome = true ↔ _
      constructor
      · intro h
        split at h
        · next hpos => exact ⟨s, ⟨hpos, rfl⟩, h⟩
        · cases h
      · rintro ⟨s', ⟨hpos, rfl⟩, h⟩
        rwa [if_pos hpos]
  | stop =>
      show (if s.rest.isEmpty then next s else none).isSome = true ↔ _
      constructor
      · intro h
        split at h
        · next hrest => exact ⟨s, ⟨List.isEmpty_iff.mp hrest, rfl⟩, h⟩
        · cases h
      · rintro ⟨s', ⟨hrest, rfl⟩, h⟩
        rwa [if_pos (List.isEmpty_iff.mpr hrest)]
  | set allowed =>
      obtain ⟨pos, rest, groups⟩ := s
      cases rest with
      | nil =>
          refine iff_of_false Bool.false_ne_true ?_
          rintro ⟨s', ⟨⟨c, rest, hrest, -⟩, -⟩, -⟩
          cases hrest
      | cons c rest =>
          show (if allowed c then next _ else none).isSome = true ↔ _
          constructor
          · intro h
            split at h
            · next hc => exact ⟨_, ⟨⟨c, rest, rfl, hc⟩, rfl⟩, h⟩
            · cases h
          · rintro ⟨s', ⟨⟨d, rest', hrest, hd⟩, rfl⟩, h⟩
            cases hrest
            rwa [if_pos hd]
  | many allowed least most =>
      show (greedy allowed least most (fun n => next (s.advance n)) s.rest).isSome = true ↔ _
      rw [← Option.ne_none_iff_isSome, Ne, greedy_eq_none_iff]
      constructor
      · intro h
        by_contra hnone
        refine h fun n hleast hn => ?_
        by_contra hsome
        exact hnone ⟨_, ⟨n, hleast, hn, rfl⟩, Option.ne_none_iff_isSome.mp hsome⟩
      · rintro ⟨s', ⟨n, hleast, hn, rfl⟩, h⟩ hall
        rw [hall n hleast hn] at h
        cases h
  | optional body ih =>
      show ((body.run s fun s' => if s'.pos = s.pos then none else next s').or (next s)).isSome =
        true ↔ _
      rw [Option.isSome_or, Bool.or_eq_true, ih]
      constructor
      · rintro (⟨s', hspans, h⟩ | h)
        · split at h
          · cases h
          · next hpos => exact ⟨s', .inr ⟨hspans, hpos⟩, h⟩
        · exact ⟨s, .inl rfl, h⟩
      · rintro ⟨s', rfl | ⟨hspans, hpos⟩, h⟩
        · exact .inr h
        · refine .inl ⟨s', hspans, ?_⟩
          rwa [if_neg hpos]
  | seq first second ihfirst ihsecond =>
      show (first.run s fun s' => second.run s' next).isSome = true ↔ _
      rw [ihfirst]
      constructor
      · rintro ⟨mid, hfirst, h⟩
        obtain ⟨s', hsecond, h⟩ := (ihsecond mid next).mp h
        exact ⟨s', ⟨mid, hfirst, hsecond⟩, h⟩
      · rintro ⟨s', ⟨mid, hfirst, hsecond⟩, h⟩
        exact ⟨mid, hfirst, (ihsecond mid next).mpr ⟨s', hsecond, h⟩⟩
  | group index body ih =>
      show (body.run s fun s' => next (s.capture index s')).isSome = true ↔ _
      rw [ih]
      constructor
      · rintro ⟨inner, hspans, h⟩
        exact ⟨_, ⟨inner, hspans, rfl⟩, h⟩
      · rintro ⟨s', ⟨inner, hspans, rfl⟩, h⟩
        exact ⟨inner, hspans, h⟩

/-- A text is matched exactly when the expression may match from its start to its end. -/
theorem matchAll_isSome_iff (expr : Expr σ) (text : List σ) :
    (matchAll expr text).isSome = true ↔ ∃ s', expr.Spans ⟨0, text, []⟩ s' ∧ s'.rest = [] := by
  rw [matchAll, run_isSome_iff]
  refine exists_congr fun s' => and_congr_right fun _ => ?_
  by_cases hrest : s'.rest.isEmpty = true
  · rw [if_pos hrest]
    exact iff_of_true rfl (List.isEmpty_iff.mp hrest)
  · rw [if_neg hrest]
    exact iff_of_false Bool.false_ne_true fun h => hrest (List.isEmpty_iff.mpr h)

theorem spans_set {allowed : σ → Bool} {pos : Nat} {rest : List σ} {groups : List (Nat × List σ)}
    {s' : State σ} : (Expr.set allowed).Spans ⟨pos, rest, groups⟩ s' ↔
      ∃ c back, rest = c :: back ∧ allowed c = true ∧ s' = ⟨pos + 1, back, groups⟩ := by
  constructor
  · rintro ⟨⟨c, back, hrest, hc⟩, rfl⟩
    have hback : rest.drop 1 = back := by
      rw [show rest = c :: back from hrest]
      rfl
    exact ⟨c, back, hrest, hc, congrArg (fun left => State.mk (pos + 1) left groups) hback⟩
  · rintro ⟨c, back, rfl, hc, rfl⟩
    exact ⟨⟨c, back, rfl, hc⟩, rfl⟩

/-- A repetition without a bound takes any text of its class. -/
theorem spans_many {allowed : σ → Bool} {least pos : Nat} {rest : List σ}
    {groups : List (Nat × List σ)} {s' : State σ} :
    (Expr.many allowed least none).Spans ⟨pos, rest, groups⟩ s' ↔
      ∃ front back, rest = front ++ back ∧ least ≤ front.length ∧ (∀ c ∈ front, allowed c = true) ∧
        s' = ⟨pos + front.length, back, groups⟩ := by
  constructor
  · rintro ⟨n, hleast, hn, rfl⟩
    have hn : n ≤ (rest.takeWhile allowed).length := hn
    have htake : rest.take n = (rest.takeWhile allowed).take n := by
      obtain ⟨behind, hbehind⟩ := List.takeWhile_prefix (l := rest) allowed
      conv => lhs; rw [← hbehind]
      exact List.take_append_of_le_length hn
    have hlength : (rest.take n).length = n := by
      rw [htake, List.length_take]
      omega
    refine ⟨rest.take n, rest.drop n, (List.take_append_drop n rest).symm, by omega, ?_, ?_⟩
    · intro c hc
      rw [htake] at hc
      exact List.mem_takeWhile_imp (List.mem_of_mem_take hc)
    · rw [hlength]
      rfl
  · rintro ⟨front, back, rfl, hleast, hfront, rfl⟩
    refine ⟨front.length, hleast, ?_, ?_⟩
    · show front.length ≤ ((front ++ back).takeWhile allowed).length
      rw [List.takeWhile_append_of_pos hfront, List.length_append]
      omega
    · show _ = State.mk _ ((front ++ back).drop front.length) groups
      rw [List.drop_left]

end Backtracking

end ProofLib
