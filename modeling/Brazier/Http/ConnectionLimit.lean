import Brazier.Http.HttpsServer
import Brazier.ProofLib.Slots

/-!
# The connection limit

The counter is the number of connections that live plus the number of acceptors that are about to
reject one, and the connections that live stay within the limit.
-/

namespace Brazier

open ProofLib

/-- The connection of a handler that has not finished. -/
def HandlerPc.live : HandlerPc → Bool
  | .spawned => true
  | .running => true
  | .announcing => false
  | .finished => false

/-- 1 at the place, and 0 elsewhere. -/
def AcceptorPc.isAt (here pc : AcceptorPc) : Nat := (decide (here = pc)).toNat

/-- Without a socket a coroutine is not counted. -/
theorem isAt_of_idle {pc : AcceptorPc} (h : pc.idle = true) :
    pc.isAt .admitting = 0 ∧ pc.isAt .rejecting = 0 := by
  cases pc with
  | unspawned => cases h
  | accepted => cases h
  | rejecting => cases h
  | admitting => cases h
  | test => exact ⟨rfl, rfl⟩
  | waiting => exact ⟨rfl, rfl⟩
  | failed aborted => exact ⟨rfl, rfl⟩
  | returned => exact ⟨rfl, rfl⟩

/-- The number of acceptors at a place. -/
def acceptorsAt (acceptors : List Acceptor) (pc : AcceptorPc) : Nat :=
  acceptors.countP (fun acceptor => acceptor.pc = pc)

/-- The number of acceptors at a place after one has moved. -/
theorem acceptorsAt_move {acceptors : List Acceptor} {k : Nat} {acceptor : Acceptor}
    (h : acceptors[k]? = some acceptor) (target pc : AcceptorPc) :
    acceptorsAt (acceptors.modify k (fun acceptor => { acceptor with pc := target })) pc +
      acceptor.pc.isAt pc = acceptorsAt acceptors pc + target.isAt pc :=
  countP_modify (p := fun acceptor : Acceptor => decide (acceptor.pc = pc))
    (fun acceptor => { acceptor with pc := target }) h

namespace HttpsServerState

/-- The accepted connections whose handler has not finished, from the increment that admits them
on. -/
def live (server : HttpsServerState) : Nat :=
  acceptorsAt server.acceptors .admitting + server.handlers.countP HandlerPc.live

/-- The acceptors between their increment and their rejecting decrement. -/
def between (server : HttpsServerState) : Nat := acceptorsAt server.acceptors .rejecting

/-- The counter counts what lives and what is about to be rejected, within the limit. -/
def Counted (server : HttpsServerState) : Prop :=
  server.connectionCount = server.live + server.between ∧ server.live ≤ server.maxConnections.toNat

/-- A move of an acceptor, with the counter and the handlers after it. -/
theorem Counted.move {server : HttpsServerState} (h : Counted server) {k : Nat}
    {acceptor : Acceptor} (hk : server.acceptors[k]? = some acceptor) {target : AcceptorPc}
    {count : Int} {handlers : List HandlerPc}
    (hcount : count + acceptor.pc.isAt .admitting + acceptor.pc.isAt .rejecting +
        server.handlers.countP HandlerPc.live =
      server.connectionCount + target.isAt .admitting + target.isAt .rejecting +
        handlers.countP HandlerPc.live)
    (hlimit : server.live + target.isAt .admitting + handlers.countP HandlerPc.live ≤
      server.maxConnections.toNat + acceptor.pc.isAt .admitting +
        server.handlers.countP HandlerPc.live) :
    Counted { server.goto k target with connectionCount := count, handlers := handlers } := by
  have hadmitting := acceptorsAt_move hk target .admitting
  have hrejecting := acceptorsAt_move hk target .rejecting
  have hbefore := h.1
  rw [live, between] at hbefore
  rw [live] at hlimit
  show count = ((acceptorsAt (server.acceptors.modify k _) .admitting +
        handlers.countP HandlerPc.live : Nat) : Int) +
      acceptorsAt (server.acceptors.modify k _) .rejecting ∧
    acceptorsAt (server.acceptors.modify k _) .admitting + handlers.countP HandlerPc.live ≤
      server.maxConnections.toNat
  constructor
  · omega
  · omega

/-- An acceptor that is not counted before or after its step. -/
theorem Counted.goto {server : HttpsServerState} (h : Counted server) {k : Nat}
    {acceptor : Acceptor} (hk : server.acceptors[k]? = some acceptor) {target : AcceptorPc}
    (hfrom : acceptor.pc.isAt .admitting = 0 ∧ acceptor.pc.isAt .rejecting = 0)
    (hto : target.isAt .admitting = 0 ∧ target.isAt .rejecting = 0) :
    Counted (server.goto k target) := by
  have hlimit := h.2
  exact h.move hk (by omega) (by omega)

/-- A change of a handler, with the counter after it. -/
theorem Counted.set {server : HttpsServerState} (h : Counted server) {j : Nat}
    {handler : HandlerPc} (hj : server.handlers[j]? = some handler) {target : HandlerPc}
    {count : Int} {stopPc : StopPc}
    (hcount : count + handler.live.toNat = server.connectionCount + target.live.toNat)
    (hlive : target.live.toNat ≤ handler.live.toNat) :
    Counted { server with
      connectionCount := count, handlers := server.handlers.set j target, stopPc := stopPc } := by
  have hset := countP_set (p := HandlerPc.live) target hj
  obtain ⟨hbefore, hlimit⟩ := h
  rw [live, between] at hbefore
  rw [live] at hlimit
  show count = ((acceptorsAt server.acceptors .admitting +
        (server.handlers.set j target).countP HandlerPc.live : Nat) : Int) +
      acceptorsAt server.acceptors .rejecting ∧
    acceptorsAt server.acceptors .admitting +
      (server.handlers.set j target).countP HandlerPc.live ≤ server.maxConnections.toNat
  constructor
  · omega
  · omega

/-- A step of a coroutine. -/
theorem Counted.coroutine {server after : HttpsServerState} (h : Counted server)
    (hmove : CoroutineMove server after) : Counted after := by
  have hcount := h.1
  have hlimit := h.2
  cases hmove with
  | stays => exact h
  | idles hk hfrom hto => exact h.goto hk (isAt_of_idle hfrom) (isAt_of_idle hto)
  | arrives hk => exact h.goto hk ⟨rfl, rfl⟩ ⟨rfl, rfl⟩
  | counts hk =>
      -- the increment: the limit is compared with the count before it
      refine h.move hk ?_ ?_
      · rw [goto_handlers]
        split <;> simp [AcceptorPc.isAt]
      · rw [goto_handlers]
        split <;> simp [AcceptorPc.isAt] <;> omega
  | rejects hk =>
      refine h.move hk ?_ ?_
      · simp [AcceptorPc.isAt]
      · simp [AcceptorPc.isAt, hlimit]
  | admits hk =>
      refine h.move hk ?_ ?_
      · simp [AcceptorPc.isAt, HandlerPc.live]
        omega
      · simp [AcceptorPc.isAt, HandlerPc.live]
        omega
  | starts hj => exact h.set hj rfl (Nat.le_refl 1)
  | notifies hj => exact h.set hj rfl (Nat.le_refl 0)
  | releases hj =>
      split
      next => exact h.set hj (by simp [HandlerPc.live]) (Nat.zero_le 1)
      next => exact h.set hj (by simp [HandlerPc.live]) (Nat.zero_le 1)

/-- A step of `stop()`: closing an acceptor leaves its coroutine where it is. -/
theorem Counted.stop {server : HttpsServerState} (h : Counted server) : Counted server.stop := by
  obtain ⟨k, _, hstop⟩ | ⟨_, _, _, _, _, _, hstop, _⟩ := stop_cases server
  · have hplace (pc : AcceptorPc) : acceptorsAt (server.acceptors.modify k
        (fun acceptor => { acceptor with closed := true })) pc =
        acceptorsAt server.acceptors pc :=
      countP_modify_of_keeps server.acceptors k fun _ => rfl
    rw [hstop, Counted, live, between]
    simp only [hplace]
    exact h
  · rw [hstop]
    exact h

/-! ## The coroutines that are not spawned yet -/

/-- The coroutines that `run()` has still to spawn have not begun. -/
def Unspawned (server : HttpsServerState) : Prop :=
  ∀ k, server.runPc = .spawning k → ∀ i acceptor, k ≤ i → server.acceptors[i]? = some acceptor →
    acceptor.pc = .unspawned

/-- A move of a coroutine that has begun. -/
theorem Unspawned.goto {server : HttpsServerState} (h : Unspawned server) {k : Nat}
    {acceptor : Acceptor} (hk : server.acceptors[k]? = some acceptor)
    (hpc : acceptor.pc ≠ .unspawned) (target : AcceptorPc) : Unspawned (server.goto k target) := by
  intro place hplace i other hi hother
  rcases eq_or_ne k i with rfl | hne
  · exact absurd (h place hplace k acceptor hi hk) hpc
  · exact h place hplace i other hi ((getElem?_modify_of_ne _ hne).symm.trans hother)

/-- A step of `run()`: it spawns the coroutines in order. -/
theorem Unspawned.run {server : HttpsServerState} (h : Unspawned server) :
    Unspawned server.run := by
  obtain ⟨k, hrun, _, hstep⟩ | ⟨_, _, _, hstep, hpast⟩ := run_cases server
  · rw [hstep]
    intro place hplace i acceptor hi hacceptor
    obtain rfl : k + 1 = place := RunPc.spawning.inj hplace
    exact h k hrun i acceptor (by omega)
      ((getElem?_modify_of_ne _ (by omega)).symm.trans hacceptor)
  · rw [hstep]
    exact fun place hplace => absurd hplace (hpast place)

theorem Counted.run {server : HttpsServerState} (h : Counted server)
    (hunspawned : Unspawned server) : Counted server.run := by
  obtain ⟨k, hrun, hk, hstep⟩ | ⟨_, _, _, hstep, _⟩ := run_cases server
  · have hget := List.getElem?_eq_getElem hk
    have hpc := hunspawned k hrun k _ (Nat.le_refl k) hget
    rw [hstep]
    exact h.goto hget (by rw [hpc]; exact ⟨rfl, rfl⟩) ⟨rfl, rfl⟩
  · rw [hstep]
    exact h

theorem Unspawned.coroutine {server after : HttpsServerState} (h : Unspawned server)
    (hmove : CoroutineMove server after) : Unspawned after := by
  cases hmove with
  | stays => exact h
  | idles hk hfrom hto => exact h.goto hk (AcceptorPc.ne_of_idle hfrom rfl) _
  | arrives hk => exact h.goto hk (by simp) _
  | counts hk => exact h.goto hk (by simp) _
  | rejects hk => exact h.goto hk (by simp) _
  | admits hk => exact h.goto hk (by simp) _
  | starts hj => exact h
  | notifies hj => exact h
  | releases hj => exact h

theorem Unspawned.stop {server : HttpsServerState} (h : Unspawned server) :
    Unspawned server.stop := by
  obtain ⟨k, _, hstop⟩ | ⟨_, _, _, _, _, _, hstop, _⟩ := stop_cases server
  · rw [hstop]
    intro place hplace i acceptor hi hacceptor
    obtain ⟨old, hold, rfl⟩ := Option.map_eq_some_iff.mp
      ((List.getElem?_modify _ k server.acceptors i).symm.trans hacceptor)
    have hpc := h place hplace i old hi hold
    split <;> exact hpc
  · rw [hstop]
    exact h

/-- Every step keeps both. -/
theorem counted_step {server : HttpsServerState} (h : Counted server ∧ Unspawned server)
    (event : Event) : Counted (step server event) ∧ Unspawned (step server event) := by
  obtain ⟨hcounted, hunspawned⟩ := h
  have hmoves := @step_movesThread server event
  have hcoroutine := @step_movesCoroutine server event
  cases event with
  | run => exact ⟨hcounted.run hunspawned, hunspawned.run⟩
  | stop => exact ⟨hcounted.stop, hunspawned.stop⟩
  | acceptLoop k | complete k connected | handlerStep j | releaseConnection j =>
      exact ⟨hcounted.coroutine (hcoroutine rfl), hunspawned.coroutine (hcoroutine rfl)⟩
  | runThrows | stopTimeout | stopWakes | stats | statsTimeout | statsWakes =>
      obtain ⟨runPc, stopPc, statsPc, hstep, hrun, _⟩ := hmoves rfl
      rw [hstep]
      refine ⟨hcounted, fun place hplace => ?_⟩
      rcases hrun with rfl | rfl
      · exact hunspawned place hplace
      · cases hplace

/-- The start. -/
theorem counted_initialized (maxConnections : Int) (ioContexts acceptors : Nat) :
    Counted (initialized maxConnections ioContexts acceptors) ∧
      Unspawned (initialized maxConnections ioContexts acceptors) := by
  have hnone (pc : AcceptorPc) (hpc : pc ≠ .unspawned) :
      acceptorsAt (List.replicate acceptors ⟨.unspawned, false⟩) pc = 0 := by
    rw [acceptorsAt, List.countP_eq_zero]
    intro acceptor hacceptor
    rw [List.eq_of_mem_replicate hacceptor]
    simpa using Ne.symm hpc
  refine ⟨?_, fun k _ i acceptor _ hacceptor => ?_⟩
  · show (0 : Int) = ((acceptorsAt (List.replicate acceptors ⟨.unspawned, false⟩) .admitting + 0 :
        Nat) : Int) + acceptorsAt (List.replicate acceptors ⟨.unspawned, false⟩) .rejecting ∧
      acceptorsAt (List.replicate acceptors ⟨.unspawned, false⟩) .admitting + 0 ≤
        maxConnections.toNat
    rw [hnone .admitting (by decide), hnone .rejecting (by decide)]
    exact ⟨rfl, Nat.zero_le _⟩
  · rw [List.eq_of_mem_replicate (List.mem_of_getElem? hacceptor)]

/-- The limit is never changed. -/
theorem step_maxConnections (server : HttpsServerState) (event : Event) :
    (step server event).maxConnections = server.maxConnections := by
  have hmoves := @step_movesThread server event
  have hcoroutine := @step_movesCoroutine server event
  cases event with
  | run =>
      show server.run.maxConnections = _
      obtain ⟨_, _, _, hstep⟩ | ⟨_, _, _, hstep, _⟩ := run_cases server
      · rw [hstep]
        rfl
      · rw [hstep]
  | stop =>
      show server.stop.maxConnections = _
      obtain ⟨_, _, hstop⟩ | ⟨_, _, _, _, _, _, hstop, _⟩ := stop_cases server
      · rw [hstop]
      · rw [hstop]
  | acceptLoop k | complete k connected | handlerStep j | releaseConnection j =>
      obtain ⟨_, _, _, _, hstep⟩ := (hcoroutine rfl).frame
      rw [hstep]
  | runThrows | stopTimeout | stopWakes | stats | statsTimeout | statsWakes =>
      obtain ⟨_, _, _, hstep, _⟩ := hmoves rfl
      rw [hstep]

/-- In every state of every run, the connections that live are within the limit, the counter is
their number and that of the acceptors about to reject one, and it is 0 when there are neither. -/
theorem connection_limit {maxConnections : Int} (hmax : 1 ≤ maxConnections)
    (ioContexts acceptors : Nat) (events : List Event) :
    let server := runFrom step (initialized maxConnections ioContexts acceptors) events
    (server.live : Int) ≤ maxConnections ∧
      server.connectionCount = server.live + server.between ∧ 0 ≤ server.connectionCount ∧
      (server.live = 0 → server.between = 0 → server.connectionCount = 0) := by
  intro server
  have hcounted : Counted server ∧ Unspawned server :=
    runFrom_invariant (fun server => Counted server ∧ Unspawned server)
      (counted_initialized maxConnections ioContexts acceptors)
      fun event _ _ h => counted_step h event
  have hlimit : server.maxConnections = maxConnections :=
    runFrom_invariant (fun server => server.maxConnections = maxConnections) rfl
      fun event _ server h => (step_maxConnections server event).trans h
  obtain ⟨⟨hcount, hlive⟩, _⟩ := hcounted
  rw [hlimit] at hlive
  refine ⟨by omega, hcount, by omega, fun hnone hbetween => ?_⟩
  rw [hcount, hnone, hbetween]
  rfl

/-- Two acceptors and a limit of one: a connection is admitted, and one is rejected. -/
theorem connection_limit_one :
    let server := runFrom step (initialized 1 2 2) [.run, .run, .acceptLoop 0, .acceptLoop 1,
      .complete 0 true, .complete 1 true, .acceptLoop 0, .acceptLoop 1]
    (server.live : Int) ≤ 1 ∧
      server.connectionCount = server.live + server.between ∧ 0 ≤ server.connectionCount ∧
      (server.live = 0 → server.between = 0 → server.connectionCount = 0) :=
  connection_limit (by decide) 2 2 _

end HttpsServerState

end Brazier
