import Brazier.ProofLib.Runs
import Brazier.ProofLib.Turns
import Brazier.Text

/-!
# The dispatch of accepted connections

`accept_and_dispatch` of `src/HttpsServerConnection.cpp`: the loop that hands each connection that
it admits to the next worker. It counts in an `int`, which becomes negative after `2 ^ 31`
connections, and the remainder of a negative number is negative. A completion of `async_accept` and
what follows it up to the next one is a step; a run ends where the loop returns.
-/

namespace Brazier

open ProofLib

namespace HttpsServer

/-- A completion of `async_accept`: with an error that does not end the loop, or with a socket. Then
the counter of the connections is incremented, and this is what it was before. -/
inductive Completion where
  | error
  | socket (prev : Int)

/-- The local variable of the loop, and the indices of the contexts that the handlers were spawned
on. -/
structure DispatchLoop where
  next : Int
  dispatched : List Int

/-- The loop before the first completion. -/
def DispatchLoop.start : DispatchLoop := ⟨0, []⟩

/-- `worker_count`. -/
def workerCount (ioContexts : Nat) (workerBegin : Int) : Int :=
  wrapInt (castInt ioContexts - workerBegin)

/-- The body of the loop. -/
def acceptAndDispatch (maxConnections : Int) (ioContexts : Nat) (workerBegin : Int)
    (loop : DispatchLoop) : Completion → DispatchLoop
  | .error => loop
  | .socket prev =>
      if prev ≥ maxConnections then loop
      else
        { next := wrapInt (loop.next + 1)
          dispatched := loop.dispatched ++
            [wrapInt (workerBegin + loop.next.tmod (workerCount ioContexts workerBegin))] }

/-- The connection is admitted. -/
def Completion.admitted (maxConnections : Int) : Completion → Bool
  | .error => false
  | .socket prev => prev < maxConnections

/-- The number of connections that are admitted. -/
def admittedCount (maxConnections : Int) (completions : List Completion) : Nat :=
  completions.countP (Completion.admitted maxConnections)

/-- Every index is the one of a worker, and no worker has two connections more than another one. -/
def RoundRobin (ioContexts : Nat) (workerBegin : Int) (dispatched : List Int) : Prop :=
  (∀ idx ∈ dispatched, workerBegin ≤ idx ∧ idx < ioContexts) ∧
    ∀ worker worker' : Int, workerBegin ≤ worker → worker < ioContexts → workerBegin ≤ worker' →
      worker' < ioContexts → dispatched.count worker ≤ dispatched.count worker' + 1

/-! ## What a run dispatches -/

section Run

variable {maxConnections : Int} {ioContexts : Nat} {workerBegin : Int}

/-- The index for the connection of number `k`. -/
def indexOf (ioContexts : Nat) (workerBegin : Int) (k : Nat) : Int :=
  wrapInt (workerBegin + (wrapInt k).tmod (workerCount ioContexts workerBegin))

/-- One more completion. -/
theorem admittedCount_concat (completions : List Completion) (completion : Completion) :
    admittedCount maxConnections (completions ++ [completion]) =
      admittedCount maxConnections completions +
        if completion.admitted maxConnections then 1 else 0 := by
  rw [admittedCount, List.countP_append, List.countP_singleton]
  rfl

/-- The counter wraps where the number of connections does. -/
theorem wrapInt_succ (n : Nat) : wrapInt (wrapInt n + 1) = wrapInt ((n + 1 : Nat) : Int) := by
  rw [wrapInt_eq, wrapInt_eq, wrapInt_eq]
  omega

/-- The counter has counted the connections that were admitted. -/
theorem runFrom_acceptAndDispatch (completions : List Completion) :
    runFrom (acceptAndDispatch maxConnections ioContexts workerBegin) .start completions =
      { next := wrapInt (admittedCount maxConnections completions)
        dispatched := (List.range (admittedCount maxConnections completions)).map
          (indexOf ioContexts workerBegin) } := by
  induction completions using List.reverseRecOn with
  | nil =>
      have hzero : wrapInt ((0 : Nat) : Int) = 0 := by decide
      show DispatchLoop.mk 0 [] = ⟨wrapInt ((0 : Nat) : Int), []⟩
      rw [hzero]
  | append_singleton completions completion ih =>
      rw [runFrom_append, ih, admittedCount_concat, runFrom_cons, runFrom_nil]
      generalize admittedCount maxConnections completions = n
      cases completion with
      | error => simp [acceptAndDispatch, Completion.admitted]
      | socket prev =>
          rw [acceptAndDispatch]
          split
          · next hfull =>
              have hnot : ¬ prev < maxConnections := by omega
              simp [Completion.admitted, hnot]
          · next hroom =>
              have hlt : prev < maxConnections := by omega
              simp only [Completion.admitted, hlt, decide_true, if_true, wrapInt_succ,
                List.range_succ, List.map_append, List.map_singleton, indexOf]

/-! ## When the indices go round -/

/-- Where the remainders are those of the numbers of the connections, the workers take turns. -/
theorem roundRobin_of_turns {workers n : Nat} (hcount : (ioContexts : Int) = workerBegin + workers)
    (hworkers : 0 < workers)
    (hturns : ∀ k < n, indexOf ioContexts workerBegin k = workerBegin + (k % workers : Nat)) :
    RoundRobin ioContexts workerBegin ((List.range n).map (indexOf ioContexts workerBegin)) := by
  have hmap : (List.range n).map (indexOf ioContexts workerBegin) =
      (turns workers n).map (fun party : Nat => workerBegin + (party : Int)) := by
    rw [turns, List.map_map]
    exact List.map_congr_left fun k hk => hturns k (List.mem_range.mp hk)
  have hinjective : Function.Injective (fun party : Nat => workerBegin + (party : Int)) := by
    intro party party' h
    dsimp only at h
    omega
  rw [hmap]
  constructor
  · intro idx hidx
    obtain ⟨party, hparty, rfl⟩ := List.mem_map.mp hidx
    obtain ⟨k, _, rfl⟩ := List.mem_map.mp hparty
    have hlt := Nat.mod_lt k hworkers
    omega
  · intro worker worker' hlow hhigh hlow' hhigh'
    obtain ⟨party, rfl⟩ : ∃ party : Nat, worker = workerBegin + party :=
      ⟨(worker - workerBegin).toNat, by omega⟩
    obtain ⟨party', rfl⟩ : ∃ party : Nat, worker' = workerBegin + party :=
      ⟨(worker' - workerBegin).toNat, by omega⟩
    rw [List.count_map_of_injective _ _ hinjective, List.count_map_of_injective _ _ hinjective]
    exact count_turns_le (by omega) (by omega) n

/-- The remainder of a number that has not wrapped. -/
theorem tmod_wrapInt_of_lt {k : Nat} (hk : k < 2 ^ 31) (workers : Nat) :
    (wrapInt k).tmod workers = (k % workers : Nat) := by
  have hsame : wrapInt k = k := (wrapInt_eq_iff _).mpr ⟨by omega, by omega⟩
  rw [hsame, Int.tmod_eq_emod_of_nonneg (by omega)]
  rfl

/-- The remainder of the first numbers that have wrapped is not positive, and zero when a multiple
has been reached. -/
theorem tmod_wrapInt_of_ge {k : Nat} (hk : 2 ^ 31 ≤ k) (hk' : k < 2 ^ 32) (workers : Nat) :
    (wrapInt k).tmod workers = -((2 ^ 32 - k) % workers : Nat) := by
  have hwrapped : wrapInt k = -((2 ^ 32 - k : Nat) : Int) := by
    rw [wrapInt_eq]
    omega
  rw [hwrapped, Int.neg_tmod, Int.tmod_eq_emod_of_nonneg (by omega)]
  rfl

/-- Nothing overflows in the computation of an index but the counter. -/
theorem indexOf_eq {workers k : Nat} (hbegin : 0 ≤ workerBegin)
    (hcount : (ioContexts : Int) = workerBegin + workers) (hworkers : 0 < workers)
    (hint : ioContexts < 2 ^ 31) :
    indexOf ioContexts workerBegin k = workerBegin + (wrapInt k).tmod workers := by
  have hworkerCount : workerCount ioContexts workerBegin = workers := by
    rw [workerCount, castInt_eq, wrapInt_eq]
    omega
  have hpos : (0 : Int) < workers := by omega
  have hhigh := Int.tmod_lt_of_pos (wrapInt k) hpos
  have hlow := Int.lt_tmod_of_pos (wrapInt k) hpos
  rw [indexOf, hworkerCount]
  exact (wrapInt_eq_iff _).mpr ⟨by omega, by omega⟩

/-- The condition under which the indices go round. -/
def GoesRound (workers n : Nat) : Prop :=
  n ≤ 2 ^ 31 ∨ workers = 1 ∨ n = 2 ^ 31 + 1 ∧ workers ∣ 2 ^ 31

/-- The indices go round for no more than `2 ^ 31` connections, and for one more when the number of
workers is a power of two. A single worker gets every connection. -/
theorem roundRobin_iff {workers n : Nat} (hbegin : 0 ≤ workerBegin)
    (hcount : (ioContexts : Int) = workerBegin + workers) (hworkers : 0 < workers)
    (hint : ioContexts < 2 ^ 31) :
    RoundRobin ioContexts workerBegin ((List.range n).map (indexOf ioContexts workerBegin)) ↔
      GoesRound workers n := by
  have hindex := fun k => indexOf_eq (k := k) hbegin hcount hworkers hint
  constructor
  · intro ⟨hrange, _⟩
    have hmultiple : ∀ k < n, 2 ^ 31 ≤ k → k < 2 ^ 32 → workers ∣ 2 ^ 32 - k := by
      intro k hk hlow hhigh
      have hfirst := (hrange _ (List.mem_map_of_mem (List.mem_range.mpr hk))).1
      rw [hindex, tmod_wrapInt_of_ge hlow hhigh] at hfirst
      exact Nat.dvd_of_mod_eq_zero (by omega)
    by_cases hn : n ≤ 2 ^ 31
    · exact Or.inl hn
    · right
      have hdvd := hmultiple (2 ^ 31) (by omega) (by omega) (by omega)
      by_cases hone : n = 2 ^ 31 + 1
      · exact Or.inr ⟨hone, hdvd⟩
      · -- the two numbers are neighbours
        have hdvd' := hmultiple (2 ^ 31 + 1) (by omega) (by omega) (by omega)
        exact Or.inl (Nat.dvd_one.mp ((Nat.dvd_sub hdvd hdvd')))
  · intro hround
    refine roundRobin_of_turns hcount hworkers fun k hk => ?_
    have hturn : (wrapInt k).tmod workers = (k % workers : Nat) := by
      rcases Nat.lt_or_ge k (2 ^ 31) with hlt | hge
      · exact tmod_wrapInt_of_lt hlt workers
      · rcases hround with hn | rfl | ⟨hn, hdvd⟩
        · omega
        · rw [Nat.mod_one]
          exact Int.tmod_one _
        · have hlast : k = 2 ^ 31 := by omega
          have hrest : 2 ^ 32 - k = k := by omega
          rw [← hlast] at hdvd
          rw [tmod_wrapInt_of_ge hge (by omega), hrest, Nat.mod_eq_zero_of_dvd hdvd]
          rfl
    rw [hindex, hturn]

end Run

/-- However many connections the loop admits, its indices go round exactly when these are at most
`2 ^ 31`, or one more and the number of workers divides that number, or there is a single worker. -/
theorem dispatch_goes_round_iff (maxConnections : Int) (ioContexts : Nat) (workerBegin : Int)
    (hbegin : 0 ≤ workerBegin) (hend : workerBegin < ioContexts) (hint : ioContexts < 2 ^ 31)
    (completions : List Completion) :
    RoundRobin ioContexts workerBegin
      (runFrom (acceptAndDispatch maxConnections ioContexts workerBegin) .start
        completions).dispatched ↔
    GoesRound (ioContexts - workerBegin).toNat (admittedCount maxConnections completions) := by
  rw [runFrom_acceptAndDispatch]
  exact roundRobin_iff hbegin (by omega) (by omega) hint

theorem dispatch_three_connections :
    RoundRobin 2 0 (runFrom (acceptAndDispatch 10000 2 0) .start
      [.socket 0, .socket 1, .error, .socket 2]).dispatched :=
  (dispatch_goes_round_iff 10000 2 0 (by decide) (by decide) (by decide)
    [.socket 0, .socket 1, .error, .socket 2]).mpr (Or.inl (by decide))

/-- The index of a connection, where all are admitted. -/
theorem indexOf_mem {maxConnections prev : Int} (ioContexts : Nat) (workerBegin : Int)
    (hprev : prev < maxConnections) {k n : Nat} (hk : k < n) :
    indexOf ioContexts workerBegin k ∈
      (runFrom (acceptAndDispatch maxConnections ioContexts workerBegin) .start
        (List.replicate n (.socket prev))).dispatched := by
  have hcount : admittedCount maxConnections (List.replicate n (.socket prev)) = n := by
    simp [admittedCount, List.countP_replicate, Completion.admitted, hprev]
  rw [runFrom_acceptAndDispatch, hcount]
  exact List.mem_map_of_mem (List.mem_range.mpr hk)

/-- The second connection after the counter has wrapped is dispatched in front of the first
context. -/
theorem wrapped_index_negative :
    -1 ∈ (runFrom (acceptAndDispatch 10000 2 0) .start
      (List.replicate (2 ^ 31 + 2) (.socket 0))).dispatched ∧
    ¬ RoundRobin 2 0 (runFrom (acceptAndDispatch 10000 2 0) .start
      (List.replicate (2 ^ 31 + 2) (.socket 0))).dispatched := by
  have hindex : indexOf 2 0 (2 ^ 31 + 1) = -1 := by decide
  have hmem : indexOf 2 0 (2 ^ 31 + 1) ∈ (runFrom (acceptAndDispatch 10000 2 0) .start
      (List.replicate (2 ^ 31 + 2) (.socket 0))).dispatched :=
    indexOf_mem 2 0 (by decide) (Nat.lt_succ_self _)
  rw [hindex] at hmem
  exact ⟨hmem, fun hround => absurd (hround.1 _ hmem).1 (by decide)⟩

end HttpsServer

end Brazier
