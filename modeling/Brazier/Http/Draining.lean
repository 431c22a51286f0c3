import Brazier.Http.ConnectionLimit

/-!
# Whether draining is final

When the wait of `stop()` sees no connections, the acceptors have been closed, but a coroutine may
hold the socket of an `async_accept` that completed before. It raises the counter later and spawns
the handler. Draining is final exactly when there is no such coroutine.
-/

namespace Brazier

open ProofLib

/-- `stop()` has stored `shutting_down_`. -/
def StopPc.shut : StopPc → Bool
  | .storing => false
  | .shutting => false
  | _ => true

/-- How many of the acceptors `stop()` has closed. -/
def StopPc.closedUpTo (acceptors : Nat) : StopPc → Nat
  | .storing => 0
  | .shutting => 0
  | .notifying => 0
  | .closing k => k
  | _ => acceptors

/-- What `stop()` has done so far. -/
structure Closing (stopPc : StopPc) (shuttingDown stopped : Bool) (acceptors : List Acceptor) :
    Prop where
  shuttingDown : stopPc.shut = true → shuttingDown = true
  closed : ∀ i acceptor, i < stopPc.closedUpTo acceptors.length → acceptors[i]? = some acceptor →
    acceptor.closed = true
  stopped : stopped = true → stopPc = .returned

section

variable {stopPc : StopPc} {shuttingDown stopped : Bool} {acceptors : List Acceptor}

/-- A change of an acceptor that does not open it. -/
theorem Closing.modify (h : Closing stopPc shuttingDown stopped acceptors) (k : Nat)
    {f : Acceptor → Acceptor}
    (hf : ∀ acceptor, acceptor.closed = true → (f acceptor).closed = true) :
    Closing stopPc shuttingDown stopped (acceptors.modify k f) where
  shuttingDown := h.shuttingDown
  closed i acceptor hi hacceptor := by
    rw [List.length_modify] at hi
    obtain ⟨old, hold, rfl⟩ := Option.map_eq_some_iff.mp
      ((List.getElem?_modify f k acceptors i).symm.trans hacceptor)
    have hclosed := h.closed i old hi hold
    split
    next => exact hf old hclosed
    next => exact hclosed
  stopped := h.stopped

/-- `stop()` goes on with nothing more to do for the flags or the acceptors. -/
theorem Closing.next (h : Closing stopPc shuttingDown stopped acceptors) {nextPc : StopPc}
    (hpc : stopPc ≠ .returned) (hshut : nextPc.shut = true → stopPc.shut = true)
    (hclosed : nextPc.closedUpTo acceptors.length ≤ stopPc.closedUpTo acceptors.length) :
    Closing nextPc shuttingDown stopped acceptors where
  shuttingDown hnext := h.shuttingDown (hshut hnext)
  closed i acceptor hi := h.closed i acceptor (Nat.lt_of_lt_of_le hi hclosed)
  stopped hs := absurd (h.stopped hs) hpc

/-- The wait of `stop()` is notified. -/
theorem Closing.notified (h : Closing stopPc shuttingDown stopped acceptors) :
    Closing stopPc.notified shuttingDown stopped acceptors := by
  cases stopPc with
  | draining asleep => exact h.next (by simp) id (Nat.le_refl _)
  | _ => exact h

end

namespace HttpsServerState

/-- What `stop()` has done so far, in a state of the server. -/
abbrev IsClosing (server : HttpsServerState) : Prop :=
  Closing server.stopPc server.shuttingDown server.stopped server.acceptors

theorem isClosing_goto {server : HttpsServerState} (h : server.IsClosing) (k : Nat)
    (pc : AcceptorPc) : (server.goto k pc).IsClosing :=
  Closing.modify h k fun _ hclosed => hclosed

theorem isClosing_coroutine {server after : HttpsServerState} (h : server.IsClosing)
    (hmove : CoroutineMove server after) : after.IsClosing := by
  cases hmove with
  | stays => exact h
  | idles hk hfrom hto => exact isClosing_goto h _ _
  | arrives hk => exact isClosing_goto h _ _
  | counts hk => exact isClosing_goto h _ _
  | rejects hk => exact isClosing_goto h _ _
  | admits hk => exact isClosing_goto h _ _
  | starts hj => exact h
  | notifies hj => exact Closing.notified h
  | releases hj => exact h

theorem isClosing_run {server : HttpsServerState} (h : server.IsClosing) :
    server.run.IsClosing := by
  obtain ⟨k, _, _, hstep⟩ | ⟨_, _, _, hstep, _⟩ := run_cases server
  · rw [hstep]
    exact isClosing_goto h k .test
  · rw [hstep]
    exact h

/-- A step of `stop()`. -/
theorem isClosing_stop {server : HttpsServerState} (h : server.IsClosing) :
    server.stop.IsClosing := by
  have hclosing : Closing server.stopPc server.shuttingDown server.stopped server.acceptors := h
  rw [stop.eq_def]
  cases hpc : server.stopPc with
  | storing =>
      rw [hpc] at hclosing
      exact hclosing.next (by simp) id (Nat.le_refl 0)
  | shutting =>
      rw [hpc] at hclosing
      exact ⟨fun _ => rfl, hclosing.closed, fun hs => StopPc.noConfusion (hclosing.stopped hs)⟩
  | notifying =>
      rw [hpc] at hclosing
      show IsClosing (if _ then _ else _)
      split
      next => exact h
      next => exact hclosing.next (by simp) id (Nat.le_refl 0)
  | closing k =>
      rw [hpc] at hclosing
      show IsClosing (if _ then _ else _)
      split
      next hk =>
        refine ⟨fun _ => hclosing.shuttingDown rfl, fun i acceptor hi hacceptor => ?_,
          fun hs => StopPc.noConfusion (hclosing.stopped hs)⟩
        obtain ⟨old, hold, rfl⟩ := Option.map_eq_some_iff.mp
          ((List.getElem?_modify _ k server.acceptors i).symm.trans hacceptor)
        split
        next => rfl
        next hne => exact hclosing.closed i old (by have : i < k + 1 := hi; show i < k; omega) hold
      next hk => exact hclosing.next (by simp) id (Nat.le_of_not_lt hk)
  | resetting =>
      rw [hpc] at hclosing
      exact hclosing.next (by simp) id (Nat.le_refl _)
  | draining asleep =>
      rw [hpc] at hclosing
      cases asleep with
      | true => exact h
      | false =>
          show IsClosing (if _ then _ else _)
          split
          next => exact hclosing.next (by simp) id (Nat.le_refl _)
          next => exact hclosing.next (by simp) id (Nat.le_refl _)
  | stopping drained =>
      rw [hpc] at hclosing
      exact ⟨fun _ => hclosing.shuttingDown rfl, hclosing.closed, fun _ => rfl⟩
  | returned => exact h

theorem isClosing_step {server : HttpsServerState} (h : server.IsClosing) (event : Event) :
    (step server event).IsClosing := by
  have hmoves := @step_movesThread server event
  have hcoroutine := @step_movesCoroutine server event
  cases event with
  | run => exact isClosing_run h
  | stop => exact isClosing_stop h
  | acceptLoop k | complete k connected | handlerStep j | releaseConnection j =>
      exact isClosing_coroutine h (hcoroutine rfl)
  | runThrows | stopTimeout | stopWakes | stats | statsTimeout | statsWakes =>
      obtain ⟨runPc, stopPc, statsPc, hstep, _, hstop⟩ := hmoves rfl
      rw [hstep]
      have hclosing : Closing server.stopPc server.shuttingDown server.stopped server.acceptors := h
      show Closing stopPc server.shuttingDown server.stopped server.acceptors
      rcases hstop with rfl | ⟨hpc, hnext⟩
      · exact hclosing
      · rw [hpc] at hclosing
        rcases hnext with rfl | ⟨drained, rfl⟩
        · exact hclosing.next (by simp) id (Nat.le_refl _)
        · exact hclosing.next (by simp) id (Nat.le_refl _)

theorem isClosing_initialized (maxConnections : Int) (ioContexts acceptors : Nat) :
    (initialized maxConnections ioContexts acceptors).IsClosing :=
  ⟨fun hshut => Bool.noConfusion hshut, fun i _ hi => absurd hi (Nat.not_lt_zero i),
    fun hs => Bool.noConfusion hs⟩

/-! ## After the wait -/

/-- The `handle_connection` coroutines that have started. -/
def started (server : HttpsServerState) : Nat :=
  server.handlers.countP (fun handler => handler ≠ .spawned)

/-- The wait of `stop()` tests its predicate, and there are no connections. -/
def Observes (server : HttpsServerState) (event : Event) : Prop :=
  server.connectionCount = 0 ∧
    (server.stopPc = .draining false ∧ event = .stop ∨
      server.stopPc = .draining true ∧ event = .stopTimeout)

instance (server : HttpsServerState) (event : Event) : Decidable (server.Observes event) :=
  inferInstanceAs (Decidable (_ ∧ _))

/-- From the observation on no handler starts, and there is no connection to cut off. -/
def Final (server : HttpsServerState) (event : Event) : Prop :=
  Observes server event → ∀ rest : List Event,
    (runFrom step (step server event) rest).started = server.started ∧
      (runFrom step (step server event) rest).live = 0

/-- At the observation no acceptor holds a socket that it has not counted, or there is no room for
one. -/
def NoneAccepted (server : HttpsServerState) (event : Event) : Prop :=
  Observes server event → 0 < server.maxConnections →
    ∀ acceptor ∈ server.acceptors, acceptor.pc ≠ .accepted

/-- A closed acceptor whose coroutine will spawn no handler. -/
def Harmless (maxConnections : Int) (acceptor : Acceptor) : Prop :=
  acceptor.closed = true ∧ acceptor.pc ≠ .admitting ∧
    (acceptor.pc = .accepted → maxConnections ≤ 0)

/-- The server is drained for good. -/
def Drained (count : Nat) (server : HttpsServerState) : Prop :=
  server.shuttingDown = true ∧
    (∀ acceptor ∈ server.acceptors, Harmless server.maxConnections acceptor) ∧
    (∀ handler ∈ server.handlers, handler.live = false) ∧ server.started = count

section

variable {count : Nat} {server : HttpsServerState}

/-- An acceptor moves to a harmless place. -/
theorem Drained.goto (h : Drained count server) (k : Nat) {target : AcceptorPc}
    (hadmitting : target ≠ .admitting) (haccepted : target ≠ .accepted) :
    Drained count (server.goto k target) :=
  ⟨h.1, forall_mem_modify_of_keeps k (fun _ hold =>
    ⟨hold.1, hadmitting, fun heq => absurd heq haccepted⟩) h.2.1, h.2.2⟩

/-- A step of a coroutine: an acceptor rejects or finds that the server shuts down, as no
`async_accept` of a closed acceptor can succeed, and a handler finishes its notification. -/
theorem Drained.coroutine {after : HttpsServerState} (h : Drained count server)
    (hcount : 0 ≤ server.connectionCount) (hmove : CoroutineMove server after) :
    Drained count after := by
  cases hmove with
  | stays => exact h
  | idles hk hfrom hto =>
      exact h.goto _ (AcceptorPc.ne_of_idle hto rfl) (AcceptorPc.ne_of_idle hto rfl)
  | arrives hk => exact absurd (h.2.1 _ (List.mem_of_getElem? hk)).1 (by simp)
  | counts hk =>
      -- there is no room, as the limit is not positive
      have hroom : server.maxConnections ≤ server.connectionCount :=
        Int.le_trans ((h.2.1 _ (List.mem_of_getElem? hk)).2.2 rfl) hcount
      rw [if_pos hroom]
      exact h.goto _ (by simp) (by simp)
  | rejects hk => exact h.goto _ (by simp) (by simp)
  | admits hk => exact absurd rfl (h.2.1 _ (List.mem_of_getElem? hk)).2.1
  | starts hj => exact absurd (h.2.2.1 _ (List.mem_of_getElem? hj)) (by simp [HandlerPc.live])
  | notifies hj =>
      refine ⟨h.1, h.2.1, fun handler hhandler => ?_, ?_⟩
      · rcases List.mem_or_eq_of_mem_set hhandler with hold | rfl
        · exact h.2.2.1 handler hold
        · rfl
      · have hset := countP_set (p := fun handler => decide (handler ≠ HandlerPc.spawned))
          HandlerPc.finished hj
        exact (Nat.add_right_cancel hset).trans h.2.2.2
  | releases hj => exact absurd (h.2.2.1 _ (List.mem_of_getElem? hj)) (by simp [HandlerPc.live])

theorem Drained.run (h : Drained count server) : Drained count server.run := by
  obtain ⟨k, _, _, hstep⟩ | ⟨_, _, _, hstep, _⟩ := run_cases server
  · rw [hstep]
    exact h.goto k (by simp) (by simp)
  · rw [hstep]
    exact h

theorem Drained.stop (h : Drained count server) : Drained count server.stop := by
  obtain ⟨k, _, hstop⟩ | ⟨_, shuttingDown, _, _, _, _, hstop, _, hshutting⟩ := stop_cases server
  · rw [hstop]
    exact ⟨h.1, forall_mem_modify_of_keeps k (fun _ hold => ⟨rfl, hold.2⟩) h.2.1, h.2.2⟩
  · rw [hstop]
    have hshut : shuttingDown = true := by
      rcases hshutting with rfl | rfl
      · exact h.1
      · rfl
    exact ⟨hshut, h.2⟩

theorem Drained.step (h : Drained count server) (hcounted : Counted server) (event : Event) :
    Drained count (step server event) := by
  have hmoves := @step_movesThread server event
  have hcoroutine := @step_movesCoroutine server event
  have hbooks := hcounted.1
  cases event with
  | run => exact h.run
  | stop => exact h.stop
  | acceptLoop k | complete k connected | handlerStep j | releaseConnection j =>
      exact h.coroutine (by omega) (hcoroutine rfl)
  | runThrows | stopTimeout | stopWakes | stats | statsTimeout | statsWakes =>
      obtain ⟨runPc, stopPc, statsPc, hstep, _, _⟩ := hmoves rfl
      rw [hstep]
      exact h

end

/-- The observation moves `stop()` on. -/
theorem step_observes {server : HttpsServerState} {event : Event} (h : Observes server event) :
    ∃ drained, step server event = { server with stopPc := .stopping drained } := by
  obtain ⟨hcount, ⟨hpc, rfl⟩ | ⟨hpc, rfl⟩⟩ := h
  · refine ⟨true, ?_⟩
    show server.stop = _
    rw [stop.eq_def, hpc]
    exact if_pos hcount
  · refine ⟨decide (server.connectionCount = 0), ?_⟩
    show server.stopTimeout = _
    rw [stopTimeout, hpc]

/-- At the observation `stop()` has closed the acceptors. -/
theorem closed_of_observes {server : HttpsServerState} {event : Event}
    (hclosing : server.IsClosing) (h : Observes server event) :
    server.shuttingDown = true ∧ server.stopped = false ∧
      ∀ acceptor ∈ server.acceptors, acceptor.closed = true := by
  have hclosing' : Closing server.stopPc server.shuttingDown server.stopped server.acceptors :=
    hclosing
  obtain ⟨asleep, hpc⟩ : ∃ asleep, server.stopPc = .draining asleep := by
    obtain ⟨_, ⟨hpc, _⟩ | ⟨hpc, _⟩⟩ := h
    · exact ⟨false, hpc⟩
    · exact ⟨true, hpc⟩
  rw [hpc] at hclosing'
  refine ⟨hclosing'.shuttingDown rfl, ?_, fun acceptor hacceptor => ?_⟩
  · rw [Bool.eq_false_iff]
    exact fun hs => StopPc.noConfusion (hclosing'.stopped hs)
  · obtain ⟨i, hi⟩ := List.mem_iff_getElem?.mp hacceptor
    exact hclosing'.closed i acceptor (List.getElem?_eq_some_iff.mp hi).1 hi

/-- A counter of 0 means that nothing is counted. -/
theorem none_of_count {server : HttpsServerState} (h : Counted server)
    (hcount : server.connectionCount = 0) :
    (∀ acceptor ∈ server.acceptors, acceptor.pc ≠ .admitting) ∧
      ∀ handler ∈ server.handlers, handler.live = false := by
  have hbooks := h.1
  rw [live] at hbooks
  have hadmitting : acceptorsAt server.acceptors .admitting = 0 := by omega
  have hhandlers : server.handlers.countP HandlerPc.live = 0 := by omega
  refine ⟨fun acceptor hacceptor hpc => ?_, fun handler hhandler => ?_⟩
  · rw [acceptorsAt, List.countP_eq_zero] at hadmitting
    exact hadmitting acceptor hacceptor (decide_eq_true hpc)
  · exact Bool.eq_false_iff.mpr (List.countP_eq_zero.mp hhandlers handler hhandler)

/-- With no uncounted socket, the observation leaves a drained server. -/
theorem drained_of_observes {server : HttpsServerState} {event : Event} (hcounted : Counted server)
    (hclosing : server.IsClosing) (hnone : NoneAccepted server event) (h : Observes server event) :
    Drained server.started (step server event) := by
  obtain ⟨hshutting, _, hclosed⟩ := closed_of_observes hclosing h
  obtain ⟨hadmitting, hhandlers⟩ := none_of_count hcounted h.1
  obtain ⟨drained, hstep⟩ := step_observes h
  rw [hstep]
  refine ⟨hshutting, fun acceptor hacceptor => ?_, hhandlers, rfl⟩
  refine ⟨hclosed acceptor hacceptor, hadmitting acceptor hacceptor, fun haccepted => ?_⟩
  by_contra hmax
  exact hnone h (Int.not_le.mp hmax) acceptor hacceptor haccepted

/-- A drained server has no connections. -/
theorem Drained.live {count : Nat} {server : HttpsServerState} (h : Drained count server) :
    server.live = 0 := by
  have hadmitting : acceptorsAt server.acceptors .admitting = 0 := by
    rw [acceptorsAt, List.countP_eq_zero]
    intro acceptor hacceptor
    simpa using (h.2.1 acceptor hacceptor).2.1
  have hhandlers : server.handlers.countP HandlerPc.live = 0 := by
    rw [List.countP_eq_zero]
    intro handler hhandler
    simp [h.2.2.1 handler hhandler]
  rw [HttpsServerState.live, hadmitting, hhandlers]

/-- Draining is final when no acceptor holds a socket at the observation. -/
theorem final_of_noneAccepted {server : HttpsServerState} {event : Event}
    (hcounted : Counted server ∧ Unspawned server) (hclosing : server.IsClosing)
    (hnone : NoneAccepted server event) : Final server event := by
  intro hobserves rest
  have hrest : (Counted (runFrom step (step server event) rest) ∧
      Unspawned (runFrom step (step server event) rest)) ∧
        Drained server.started (runFrom step (step server event) rest) :=
    runFrom_invariant
      (fun after => (Counted after ∧ Unspawned after) ∧ Drained server.started after)
      ⟨counted_step hcounted event, drained_of_observes hcounted.1 hclosing hnone hobserves⟩
      fun next _ _ h => ⟨counted_step h.1 next, h.2.step h.1.1 next⟩
  exact ⟨hrest.2.2.2.2, hrest.2.live⟩

/-- The step that counts a socket when there is room. -/
theorem acceptLoop_accepted {server : HttpsServerState} {k : Nat} {closed : Bool}
    (hk : server.acceptors[k]? = some ⟨.accepted, closed⟩)
    (hroom : server.connectionCount < server.maxConnections) :
    server.acceptLoop k = { server.goto k .admitting with
      connectionCount := server.connectionCount + 1 } := by
  rw [acceptLoop, hk]
  simp [Int.not_le.mpr hroom]

/-- The step that spawns the handler. -/
theorem acceptLoop_admitting {server : HttpsServerState} {k : Nat} {closed : Bool}
    (hk : server.acceptors[k]? = some ⟨.admitting, closed⟩) :
    server.acceptLoop k = { server.goto k .test with
      handlers := server.handlers ++ [.spawned] } := by
  rw [acceptLoop, hk]

/-- The step that starts the handler. -/
theorem handlerStep_spawned {server : HttpsServerState} {j : Nat}
    (hj : server.handlers[j]? = some .spawned) (hstopped : server.stopped = false) :
    server.handlerStep j = { server with handlers := server.handlers.set j .running } := by
  rw [handlerStep, hj]
  simp [hstopped]

theorem getElem?_goto {server : HttpsServerState} {k : Nat} {acceptor : Acceptor}
    (hk : server.acceptors[k]? = some acceptor) (pc : AcceptorPc) :
    (server.goto k pc).acceptors[k]? = some { acceptor with pc := pc } := by
  show (server.acceptors.modify k _)[k]? = _
  rw [List.getElem?_modify_eq, hk]
  rfl

/-- An uncounted socket gets its handler when there is room. -/
theorem started_of_accepted {server : HttpsServerState} {k : Nat} {closed : Bool}
    (hk : server.acceptors[k]? = some ⟨.accepted, closed⟩)
    (hroom : server.connectionCount < server.maxConnections) (hstopped : server.stopped = false) :
    (runFrom step server [.acceptLoop k, .acceptLoop k,
      .handlerStep server.handlers.length]).started = server.started + 1 := by
  obtain ⟨hadmitting, hcounted, hruns⟩ :
      (server.acceptLoop k).acceptors[k]? = some ⟨.admitting, closed⟩ ∧
        (server.acceptLoop k).handlers = server.handlers ∧
        (server.acceptLoop k).stopped = false := by
    rw [acceptLoop_accepted hk hroom]
    exact ⟨getElem?_goto hk .admitting, rfl, hstopped⟩
  obtain ⟨hhandlers, hruns'⟩ :
      ((server.acceptLoop k).acceptLoop k).handlers = server.handlers ++ [.spawned] ∧
        ((server.acceptLoop k).acceptLoop k).stopped = false := by
    rw [acceptLoop_admitting hadmitting, hcounted]
    exact ⟨rfl, hruns⟩
  have hspawned : ((server.acceptLoop k).acceptLoop k).handlers[server.handlers.length]? =
      some .spawned := by
    rw [hhandlers]
    exact List.getElem?_concat_length
  show (((server.acceptLoop k).acceptLoop k).handlerStep server.handlers.length).started = _
  rw [handlerStep_spawned hspawned hruns', HttpsServerState.started, hhandlers]
  show ((server.handlers ++ [HandlerPc.spawned]).set server.handlers.length .running).countP _ = _
  rw [set_length_append, List.countP_append]
  rfl

/-- Draining that is final has left no acceptor with an uncounted socket. -/
theorem noneAccepted_of_final {server : HttpsServerState} {event : Event}
    (hclosing : server.IsClosing) (hfinal : Final server event) : NoneAccepted server event := by
  intro hobserves hmax acceptor hacceptor hpc
  obtain ⟨_, hstopped, _⟩ := closed_of_observes hclosing hobserves
  obtain ⟨drained, hstep⟩ := step_observes hobserves
  obtain ⟨k, hk⟩ := List.mem_iff_getElem?.mp hacceptor
  obtain ⟨pc, closed⟩ := acceptor
  obtain rfl : pc = .accepted := hpc
  have hroom : server.connectionCount < server.maxConnections := hobserves.1 ▸ hmax
  have hstarts := @started_of_accepted { server with stopPc := .stopping drained } k closed hk hroom
    hstopped
  have hsame := (hfinal hobserves [.acceptLoop k, .acceptLoop k,
    .handlerStep server.handlers.length]).1
  rw [hstep, hstarts] at hsame
  exact absurd hsame (Nat.succ_ne_self _)

/-- Every time the wait of `stop()` sees no connections in a run, no handler starts from there on
and none is left, exactly when no acceptor holds a socket that it has not counted (or the limit
lets no connection in). -/
theorem draining_final_iff (maxConnections : Int) (ioContexts acceptors : Nat)
    (events : List Event) :
    Throughout step Final (initialized maxConnections ioContexts acceptors) events ↔
      Throughout step NoneAccepted (initialized maxConnections ioContexts acceptors) events := by
  refine throughout_iff (fun server => (Counted server ∧ Unspawned server) ∧ server.IsClosing)
    ⟨counted_initialized maxConnections ioContexts acceptors,
      isClosing_initialized maxConnections ioContexts acceptors⟩ ?_ ?_ events
  · exact fun server event h _ => ⟨counted_step h.1 event, isClosing_step h.2 event⟩
  · exact fun server event h => ⟨noneAccepted_of_final h.2, final_of_noneAccepted h.1 h.2⟩

/-- `run()` has started the thread of the context. A connection arrives just before its acceptor is
closed, and is counted after the wait. -/
theorem late_connection_cut_off :
    ¬ Throughout step Final (initialized 10 1 1)
      ([.run, .run, .run, .acceptLoop 0, .complete 0 true] ++
        [.stop, .stop, .stop, .stop, .stop, .stop, .stop]) := by
  rw [throughout_iff_split]
  intro h
  have hfinal := h ([.run, .run, .run, .acceptLoop 0, .complete 0 true] ++
    [.stop, .stop, .stop, .stop, .stop, .stop]) .stop [] rfl (by decide)
    [.acceptLoop 0, .acceptLoop 0]
  exact absurd hfinal.2 (by decide)

end HttpsServerState

end Brazier
