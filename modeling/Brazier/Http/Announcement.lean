import Brazier.Http.ConnectionLimit

/-!
# Who announces that there are no connections

The wait of `stop()` is woken by `shutdown_cv_.notify_all()`. `release_connection` calls it when
its decrement has found a 1. The decrement of a rejection does not look at what it finds, and it
can be the last one: a connection is rejected while the last one that lives is released.
`announced_iff` says that this is the only way for the counter to become 0 in silence.
-/

namespace Brazier

open ProofLib

namespace HttpsServerState

/-- The threads and coroutines of the machine. -/
inductive Party where
  | runThread
  | stopThread
  | statsThread
  | acceptor (k : Nat)
  | handler (j : Nat)
  deriving DecidableEq

/-- Whose step an event is. -/
def Event.actor : Event → Party
  | .run => .runThread
  | .runThrows => .runThread
  | .stop => .stopThread
  | .stopTimeout => .stopThread
  | .stopWakes => .stopThread
  | .stats => .statsThread
  | .statsTimeout => .statsThread
  | .statsWakes => .statsThread
  | .acceptLoop k => .acceptor k
  | .complete k _ => .acceptor k
  | .handlerStep j => .handler j
  | .releaseConnection j => .handler j

/-- The event is a call of `shutdown_cv_.notify_all()`. -/
def Notifies (server : HttpsServerState) (event : Event) : Prop :=
  ∃ j, event = .handlerStep j ∧ server.handlers[j]? = some .announcing

/-- If the step takes the counter from 1 to 0, the next step of its actor is the notification,
whatever the others do before it, and the notification leaves `stop()` awake. -/
def Announced (server : HttpsServerState) (event : Event) : Prop :=
  server.connectionCount = 1 → (step server event).connectionCount = 0 →
    ∃ call : Event, call.actor = event.actor ∧
      ∀ others : List Event, (∀ other ∈ others, other.actor ≠ event.actor) →
        Notifies (runFrom step (step server event) others) call ∧
          (step (runFrom step (step server event) others) call).stopPc ≠ .draining true

/-- When an acceptor takes a rejected connection off the counter, another connection lives or is
being rejected. -/
def RejectsInCompany (server : HttpsServerState) (event : Event) : Prop :=
  ∀ k closed, event = .acceptLoop k → server.acceptors[k]? = some ⟨.rejecting, closed⟩ →
    0 < server.live ∨ 1 < server.between

/-! ## The decrements -/

theorem acceptLoop_rejecting {server : HttpsServerState} {k : Nat} {closed : Bool}
    (hk : server.acceptors[k]? = some ⟨.rejecting, closed⟩) :
    server.acceptLoop k =
      { server.goto k .test with connectionCount := server.connectionCount - 1 } := by
  rw [acceptLoop, hk]

theorem releaseConnection_running {server : HttpsServerState} {j : Nat}
    (hj : server.handlers[j]? = some .running) :
    server.releaseConnection j =
      { server with
        connectionCount := server.connectionCount - 1
        handlers := server.handlers.set j
          (if server.connectionCount = 1 then .announcing else .finished) } := by
  rw [releaseConnection, hj]

/-- Only a rejection takes an acceptor down. -/
theorem rejecting_of_acceptLoop_lt {server : HttpsServerState} {k : Nat}
    (hlt : (server.acceptLoop k).connectionCount < server.connectionCount) :
    ∃ closed, server.acceptors[k]? = some ⟨.rejecting, closed⟩ := by
  rw [acceptLoop] at hlt
  cases hk : server.acceptors[k]? with
  | none =>
      rw [hk] at hlt
      exact absurd hlt (Int.lt_irrefl _)
  | some acceptor =>
      obtain ⟨pc, closed⟩ := acceptor
      rw [hk] at hlt
      cases pc with
      | rejecting => exact ⟨closed, rfl⟩
      | accepted =>
          have hup : server.connectionCount + 1 < server.connectionCount := hlt
          omega
      | waiting =>
          have hsame : (if closed && !server.stopped then server.goto k (.failed true)
              else server).connectionCount < server.connectionCount := hlt
          split at hsame <;> exact absurd hsame (Int.lt_irrefl _)
      | _ => exact absurd hlt (Int.lt_irrefl _)

/-- A connection that completes moves its acceptor only. -/
theorem complete_frame (server : HttpsServerState) (k : Nat) (connected : Bool) :
    ∃ acceptors, server.complete k connected = { server with acceptors := acceptors } := by
  rw [complete]
  split
  next =>
    split
    next => exact ⟨server.acceptors, rfl⟩
    next => exact ⟨_, rfl⟩
  next => exact ⟨server.acceptors, rfl⟩

/-- A step of a handler moves the handler and may wake `stop()`. -/
theorem handlerStep_frame (server : HttpsServerState) (i : Nat) :
    ∃ handlers stopPc, server.handlerStep i =
        { server with handlers := handlers, stopPc := stopPc } ∧
      ∀ j, i ≠ j → handlers[j]? = server.handlers[j]? := by
  rw [handlerStep]
  split
  next =>
    split
    next => exact ⟨server.handlers, server.stopPc, rfl, fun _ _ => rfl⟩
    next => exact ⟨_, server.stopPc, rfl, fun _ hne => List.getElem?_set_ne hne⟩
  next => exact ⟨_, _, rfl, fun _ hne => List.getElem?_set_ne hne⟩
  next => exact ⟨server.handlers, server.stopPc, rfl, fun _ _ => rfl⟩

/-- An acceptor keeps the handlers, and may spawn another. -/
theorem acceptLoop_handlers (server : HttpsServerState) (k : Nat) :
    ∃ spawned, (server.acceptLoop k).handlers = server.handlers ++ spawned := by
  have hsame : ∃ spawned, server.handlers = server.handlers ++ spawned :=
    ⟨[], (List.append_nil _).symm⟩
  rw [acceptLoop]
  cases server.acceptors[k]? with
  | none => exact hsame
  | some acceptor =>
      obtain ⟨pc, closed⟩ := acceptor
      cases pc with
      | admitting => exact ⟨[.spawned], rfl⟩
      | waiting =>
          show ∃ spawned, (if closed && !server.stopped then server.goto k (.failed true)
            else server).handlers = _
          split <;> exact hsame
      | _ => exact hsame

/-- A step that lowers the counter is that of a rejection or that of a release. -/
theorem step_lowers {server : HttpsServerState} {event : Event}
    (hlt : (step server event).connectionCount < server.connectionCount) :
    (∃ k closed, event = .acceptLoop k ∧ server.acceptors[k]? = some ⟨.rejecting, closed⟩) ∨
      ∃ j, event = .releaseConnection j ∧ server.handlers[j]? = some .running := by
  have hmoves := @step_movesThread server event
  cases event with
  | acceptLoop k =>
      obtain ⟨closed, hk⟩ := rejecting_of_acceptLoop_lt hlt
      exact Or.inl ⟨k, closed, rfl, hk⟩
  | releaseConnection j =>
      have hrelease : (server.releaseConnection j).connectionCount < server.connectionCount := hlt
      rw [releaseConnection] at hrelease
      split at hrelease
      next hj => exact Or.inr ⟨j, rfl, hj⟩
      next => exact absurd hrelease (Int.lt_irrefl _)
  | complete k connected =>
      have hsame : (server.complete k connected).connectionCount < server.connectionCount := hlt
      obtain ⟨_, hstep⟩ := complete_frame server k connected
      rw [hstep] at hsame
      exact absurd hsame (Int.lt_irrefl _)
  | handlerStep j =>
      have hsame : (server.handlerStep j).connectionCount < server.connectionCount := hlt
      obtain ⟨_, _, hstep, -⟩ := handlerStep_frame server j
      rw [hstep] at hsame
      exact absurd hsame (Int.lt_irrefl _)
  | run =>
      have hsame : server.run.connectionCount < server.connectionCount := hlt
      obtain ⟨k, _, _, hstep⟩ | ⟨_, _, _, hstep, _⟩ := run_cases server
      · rw [hstep] at hsame
        exact absurd hsame (Int.lt_irrefl _)
      · rw [hstep] at hsame
        exact absurd hsame (Int.lt_irrefl _)
  | stop =>
      have hsame : server.stop.connectionCount < server.connectionCount := hlt
      obtain ⟨k, _, hstep⟩ | ⟨_, _, _, _, _, _, hstep, _⟩ := stop_cases server
      · rw [hstep] at hsame
        exact absurd hsame (Int.lt_irrefl _)
      · rw [hstep] at hsame
        exact absurd hsame (Int.lt_irrefl _)
  | runThrows | stopTimeout | stopWakes | stats | statsTimeout | statsWakes =>
      obtain ⟨_, _, _, hstep, _⟩ := hmoves rfl
      rw [hstep] at hlt
      exact absurd hlt (Int.lt_irrefl _)

/-! ## A handler that is about to notify -/

/-- The steps of the others leave the handler where it is. -/
theorem announcing_step {server : HttpsServerState} {j : Nat}
    (hj : server.handlers[j]? = some .announcing) {event : Event}
    (hother : event.actor ≠ .handler j) :
    (step server event).handlers[j]? = some .announcing := by
  have hmoves := @step_movesThread server event
  cases event with
  | acceptLoop k =>
      show (server.acceptLoop k).handlers[j]? = _
      obtain ⟨spawned, hstep⟩ := acceptLoop_handlers server k
      rw [hstep, List.getElem?_append_left (List.getElem?_eq_some_iff.mp hj).1]
      exact hj
  | complete k connected =>
      show (server.complete k connected).handlers[j]? = _
      obtain ⟨_, hstep⟩ := complete_frame server k connected
      rw [hstep]
      exact hj
  | handlerStep i =>
      have hne : i ≠ j := fun heq => hother (congrArg Party.handler heq)
      show (server.handlerStep i).handlers[j]? = _
      obtain ⟨_, _, hstep, hothers⟩ := handlerStep_frame server i
      rw [hstep]
      exact (hothers j hne).trans hj
  -- a release of another connection
  | releaseConnection i =>
      have hne : i ≠ j := fun heq => hother (congrArg Party.handler heq)
      show (server.releaseConnection i).handlers[j]? = _
      rw [releaseConnection]
      split
      next => exact (List.getElem?_set_ne hne).trans hj
      next => exact hj
  | run =>
      show server.run.handlers[j]? = _
      obtain ⟨k, _, _, hstep⟩ | ⟨_, _, _, hstep, _⟩ := run_cases server
      · rw [hstep]
        exact hj
      · rw [hstep]
        exact hj
  | stop =>
      show server.stop.handlers[j]? = _
      obtain ⟨k, _, hstep⟩ | ⟨_, _, _, _, _, _, hstep, _⟩ := stop_cases server
      · rw [hstep]
        exact hj
      · rw [hstep]
        exact hj
  | runThrows | stopTimeout | stopWakes | stats | statsTimeout | statsWakes =>
      obtain ⟨_, _, _, hstep, _⟩ := hmoves rfl
      rw [hstep]
      exact hj

/-- Notifying leaves no sleep. -/
theorem notified_ne (stopPc : StopPc) : stopPc.notified ≠ .draining true := by
  cases stopPc with
  | draining asleep => exact fun h => Bool.noConfusion (StopPc.draining.inj h)
  | _ => exact fun h => StopPc.noConfusion h

/-- The notification wakes the wait of `stop()`. -/
theorem stopPc_handlerStep {server : HttpsServerState} {j : Nat}
    (hj : server.handlers[j]? = some .announcing) :
    (step server (.handlerStep j)).stopPc = server.stopPc.notified := by
  show (server.handlerStep j).stopPc = _
  rw [handlerStep, hj]

/-- A release that finds a 1 is announced. -/
theorem announced_release {server : HttpsServerState} {j : Nat}
    (hj : server.handlers[j]? = some .running) : Announced server (.releaseConnection j) := by
  intro hone _
  have hat : (step server (.releaseConnection j)).handlers[j]? = some .announcing := by
    show (server.releaseConnection j).handlers[j]? = _
    rw [releaseConnection_running hj, if_pos hone]
    exact List.getElem?_set_self (List.getElem?_eq_some_iff.mp hj).1
  -- the same handler notifies next, wherever the others have got to meanwhile
  refine ⟨.handlerStep j, rfl, fun others hothers => ?_⟩
  have hstays : (runFrom step (step server (.releaseConnection j)) others).handlers[j]? =
      some .announcing :=
    runFrom_invariant (fun later : HttpsServerState => later.handlers[j]? = some .announcing) hat
      fun other hmem later hlater => announcing_step hlater (hothers other hmem)
  refine ⟨⟨j, rfl, hstays⟩, ?_⟩
  rw [stopPc_handlerStep hstays]
  exact notified_ne _

/-! ## Runs -/

/-- An acceptor that is rejecting counts. -/
theorem between_pos {server : HttpsServerState} {k : Nat} {closed : Bool}
    (hk : server.acceptors[k]? = some ⟨.rejecting, closed⟩) : 0 < server.between :=
  List.countP_pos_iff.mpr ⟨_, List.mem_of_getElem? hk, decide_eq_true rfl⟩

/-- The announcement of a step is missing exactly when a rejection takes the last count. -/
theorem announced_iff_company {server : HttpsServerState} (hcounted : Counted server)
    (event : Event) : Announced server event ↔ RejectsInCompany server event := by
  have hbooks := hcounted.1
  constructor
  · intro hannounced k closed hevent hk
    subst hevent
    have hbetween := between_pos hk
    by_contra halone
    have hone : server.connectionCount = 1 := by omega
    have hzero : (step server (.acceptLoop k)).connectionCount = 0 := by
      show (server.acceptLoop k).connectionCount = 0
      rw [acceptLoop_rejecting hk]
      show server.connectionCount - 1 = 0
      omega
    -- the actor is an acceptor, and acceptors do not notify
    obtain ⟨call, hactor, hcall⟩ := hannounced hone hzero
    obtain ⟨⟨j, rfl, _⟩, _⟩ := hcall [] (fun _ hmem => absurd hmem List.not_mem_nil)
    cases hactor
  · intro hcompany hone hzero
    have hlowers : (step server event).connectionCount < server.connectionCount := by omega
    obtain ⟨k, closed, rfl, hk⟩ | ⟨j, rfl, hj⟩ := step_lowers hlowers
    · have hothers := hcompany k closed rfl hk
      have hbetween := between_pos hk
      omega
    · exact announced_release hj hone hzero

/-- Every step of a run that takes the counter from 1 to 0 is announced exactly when no rejection
of the run takes the last count. -/
theorem announced_iff (maxConnections : Int) (ioContexts acceptors : Nat) (events : List Event) :
    Throughout step Announced (initialized maxConnections ioContexts acceptors) events ↔
      Throughout step RejectsInCompany (initialized maxConnections ioContexts acceptors)
        events := by
  refine throughout_iff (fun server => Counted server ∧ Unspawned server)
    (counted_initialized maxConnections ioContexts acceptors) ?_ ?_ events
  · exact fun server event h _ => counted_step h event
  · exact fun server event h => announced_iff_company h.1 event

/-- `run()` has spawned two acceptors and started the thread of the context. There is a connection
on each and a limit of 1: the second connection is being rejected when the first one is released,
and `stop()` waits. -/
def crossing : List Event :=
  [.run, .run, .run, .run, .acceptLoop 0, .acceptLoop 1, .complete 0 true, .acceptLoop 0,
    .acceptLoop 0, .handlerStep 0, .complete 1 true, .acceptLoop 1, .stop, .stop, .stop, .stop,
    .stop, .stop, .stop, .stop, .releaseConnection 0]

/-- The rejection takes the last count, and nothing wakes `stop()`. -/
theorem rejection_not_announced :
    ¬ Throughout step Announced (initialized 1 1 2) (crossing ++ [.acceptLoop 1]) ∧
      (runFrom step (initialized 1 1 2) (crossing ++ [.acceptLoop 1])).connectionCount = 0 ∧
      (runFrom step (initialized 1 1 2) (crossing ++ [.acceptLoop 1])).stopPc =
        .draining true := by
  refine ⟨fun hrun => ?_, by decide, by decide⟩
  have hannounced := throughout_iff_split.mp hrun crossing (.acceptLoop 1) [] rfl
  obtain ⟨call, hactor, hcall⟩ := hannounced (by decide) (by decide)
  obtain ⟨⟨j, rfl, _⟩, _⟩ := hcall [] (fun _ hmem => absurd hmem List.not_mem_nil)
  cases hactor

end HttpsServerState

end Brazier
