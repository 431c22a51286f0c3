import Brazier.ProofLib.Runs
import Mathlib.Data.List.Infix

/-!
# Paths as texts

A path is a list of moves, one for each part between two separators: down to a name or up to the
directory above. Following the moves without asking the file system is the lexical normalisation.
The result is a `Position`: how often the path climbs above its start, and the names below the
directory so reached. A position seen from a directory is joined to the directory's own.
-/

namespace ProofLib

/-- One part of a path, over names of any type. -/
inductive Move (α : Type*) where
  | down (name : α)
  | up
  deriving DecidableEq

/-- Where the moves lead. Above the root of the file system there is nothing, a relative path may
climb above its start. The outermost name comes first. -/
structure Position (α : Type*) where
  rooted : Bool
  ups : Nat
  names : List α
  deriving DecidableEq

namespace Position

variable {α : Type*}

/-- One move. -/
def move (p : Position α) : Move α → Position α
  | .down name => { p with names := p.names ++ [name] }
  | .up =>
      if p.names = [] then (if p.rooted then p else { p with ups := p.ups + 1 })
      else { p with names := p.names.dropLast }

/-- The start of a relative path. -/
def here : Position α := ⟨false, 0, []⟩

/-- The moves from a position. -/
def follow (p : Position α) (moves : List (Move α)) : Position α := runFrom move p moves

/-- The position `q`, seen from `p`: what `q` climbs is taken from the names of `p`. -/
def join (p q : Position α) : Position α where
  rooted := p.rooted
  ups := if p.rooted then p.ups else p.ups + (q.ups - p.names.length)
  names := p.names.take (p.names.length - q.ups) ++ q.names

/-- `q` is the directory `p` or lies below it. -/
def Within (p q : Position α) : Prop :=
  q.rooted = p.rooted ∧ q.ups = p.ups ∧ p.names <+: q.names

instance [DecidableEq α] (p q : Position α) : Decidable (p.Within q) :=
  inferInstanceAs (Decidable (q.rooted = p.rooted ∧ q.ups = p.ups ∧ p.names <+: q.names))

theorem move_up_nil {p : Position α} (hnames : p.names = []) :
    p.move .up = if p.rooted then p else { p with ups := p.ups + 1 } := by
  rw [move, if_pos hnames]

theorem move_up_ne_nil {p : Position α} (hnames : p.names ≠ []) :
    p.move .up = { p with names := p.names.dropLast } := by
  rw [move, if_neg hnames]

@[simp] theorem follow_nil (p : Position α) : p.follow [] = p := rfl

theorem follow_append (p : Position α) (first second : List (Move α)) :
    p.follow (first ++ second) = (p.follow first).follow second :=
  runFrom_append p first second

@[simp] theorem follow_singleton (p : Position α) (m : Move α) : p.follow [m] = p.move m := rfl

/-- A relative path stays relative. -/
theorem follow_rooted (p : Position α) (moves : List (Move α)) :
    (p.follow moves).rooted = p.rooted := by
  refine runFrom_invariant (fun q : Position α => q.rooted = p.rooted) rfl ?_
  intro m _ q hq
  cases m with
  | down name => exact hq
  | up =>
      rw [move]
      split
      · split
        · exact hq
        · exact hq
      · exact hq

@[simp] theorem join_here (p : Position α) : p.join here = p := by
  simp [join, here]

/-- One more move may be made before or after joining. -/
theorem join_move (p : Position α) {q : Position α} (hq : q.rooted = false) (m : Move α) :
    p.join (q.move m) = (p.join q).move m := by
  cases m with
  | down name => simp [join, move]
  | up =>
      by_cases hnames : q.names = []
      · rw [move_up_nil hnames, hq]
        -- the names of `q` are used up, so the move climbs in those of `p`
        by_cases hlength : p.names.length ≤ q.ups
        · have htake : p.names.length - q.ups = 0 := by omega
          have htake' : p.names.length - (q.ups + 1) = 0 := by omega
          have hempty : (p.join q).names = [] := by simp [join, htake, hnames]
          rw [move_up_nil hempty]
          cases hp : p.rooted with
          | true => simp [join, hp, htake, htake', hnames]
          | false =>
              have hups : q.ups + 1 - p.names.length = q.ups - p.names.length + 1 := by omega
              simp [join, hp, htake, htake', hnames, hups, Nat.add_assoc]
        · have hne : (p.join q).names ≠ [] := by
            intro hempty
            have hlen := congrArg List.length hempty
            simp only [join, List.length_append, List.length_take, List.length_nil] at hlen
            omega
          have hups : q.ups + 1 - p.names.length = 0 := by omega
          have hups' : q.ups - p.names.length = 0 := by omega
          have htake : p.names.take (p.names.length - (q.ups + 1)) =
              (p.names.take (p.names.length - q.ups)).dropLast := by
            rw [List.dropLast_eq_take, List.take_take, List.length_take]
            congr 1
            omega
          rw [move_up_ne_nil hne]
          simp [join, hnames, hups, hups', htake]
      · have hne : (p.join q).names ≠ [] := by simp [join, hnames]
        rw [move_up_ne_nil hnames, move_up_ne_nil hne]
        simp [join, List.dropLast_append_of_ne_nil hnames]

/-- Following a path from a position is seeing from there where the path leads. -/
theorem follow_eq_join (p : Position α) (moves : List (Move α)) :
    p.follow moves = p.join (here.follow moves) := by
  induction moves using List.reverseRecOn with
  | nil => simp
  | append_singleton moves m ih =>
      rw [follow_append, follow_append, follow_singleton, follow_singleton, ih,
        join_move p (follow_rooted here moves)]

/-- What is taken away from a list and put back is its end. -/
theorem prefix_take_append_iff (names : List α) (k : Nat) (rest : List α) :
    names <+: names.take k ++ rest ↔ names.drop k <+: rest := by
  constructor
  · intro h
    have hsplit : names.take k ++ names.drop k <+: names.take k ++ rest := by
      rwa [List.take_append_drop]
    exact (List.prefix_append_right_inj _).mp hsplit
  · intro h
    have hsplit := (List.prefix_append_right_inj (names.take k)).mpr h
    rwa [List.take_append_drop] at hsplit

/-- A path that is followed from a directory stays below it: it does not climb further than the
directory is deep, unless there is nothing above, and it comes down again by the names it
climbed. -/
theorem within_join_iff (p q : Position α) :
    p.Within (p.join q) ↔
      (p.rooted = true ∨ q.ups ≤ p.names.length) ∧
        p.names.drop (p.names.length - q.ups) <+: q.names := by
  have hups : (p.join q).ups = p.ups ↔ p.rooted = true ∨ q.ups ≤ p.names.length := by
    cases hp : p.rooted with
    | true => simp [join, hp]
    | false =>
        simp only [join, hp, Bool.false_eq_true, if_false, false_or]
        omega
  have hnames : p.names <+: (p.join q).names ↔
      p.names.drop (p.names.length - q.ups) <+: q.names :=
    prefix_take_append_iff p.names (p.names.length - q.ups) q.names
  unfold Within
  rw [hups, hnames]
  exact ⟨fun h => h.2, fun h => ⟨rfl, h⟩⟩

/-- A path that only goes down. -/
theorem follow_ups_of_down {moves : List (Move α)} (hdown : Move.up ∉ moves) :
    (here.follow moves).ups = 0 := by
  refine runFrom_invariant (fun q : Position α => q.ups = 0) rfl ?_
  intro m hm q hq
  cases m with
  | down name => exact hq
  | up => exact absurd hm hdown

end Position

/-! ## Texts -/

/-- The move that a part of a text stands for. Empty parts and `.` stand for none. -/
def toMove (part : List Char) : Option (Move (List Char)) :=
  if part = [] ∨ part = ['.'] then none
  else if part = ['.', '.'] then some .up
  else some (.down part)

/-- The moves of a path. -/
def moves (path : List Char) : List (Move (List Char)) :=
  (path.splitOn '/').filterMap toMove

/-- The lexical normalisation of a path. -/
def normal (path : List Char) : Position (List Char) :=
  Position.follow ⟨path.head? == some '/', 0, []⟩ (moves path)

/-- The moves on both sides of a separator. -/
theorem moves_append (path rest : List Char) :
    moves (path ++ '/' :: rest) = moves path ++ moves rest := by
  rw [moves, List.splitOn_append_cons_self, List.filterMap_append]
  rfl

/-- A path behind a directory is followed from the directory. -/
theorem normal_append {path : List Char} (hne : path ≠ []) (rest : List Char) :
    normal (path ++ '/' :: rest) = (normal path).join (Position.here.follow (moves rest)) := by
  have hhead : (path ++ '/' :: rest).head? = path.head? := List.head?_append_of_ne_nil path hne
  rw [← Position.follow_eq_join, normal, normal, hhead, moves_append, Position.follow_append]

end ProofLib
