import Brazier.ProofLib.Runs

/-!
# The life of an `HttpsServer`

`run()` and `stop()`, the statistics thread, the acceptor coroutines and the handlers of
connections, as one machine. An event is a step of one of them, and each access to an atomic
member is a step of its own; a list of events is an interleaving. The machine starts when `run()`
has been called, and `stop()` begins with the first of its steps.

An `io_context` that `stop()` has stopped runs no completion any more. A coroutine may also step
before `run()` has started the thread of its context, so there are more runs than real ones. The
counter is an integer: each connection that is counted holds a socket, so an `int` does not
overflow.
-/

namespace Brazier

/-- Where an `accept_loop` or an `accept_and_dispatch` is. They differ in the context that they
spawn the handler on. -/
inductive AcceptorPc where
  /-- Before `run()` has spawned the coroutine. -/
  | unspawned
  /-- At the test of `shutting_down_`. -/
  | test
  /-- In `async_accept`. -/
  | waiting
  /-- `async_accept` has completed with an error, `operation_aborted` or another one. -/
  | failed (aborted : Bool)
  /-- `async_accept` has completed with a socket, which has not been counted. -/
  | accepted
  /-- After the increment, when the limit was reached. -/
  | rejecting
  /-- After the increment, when there was room: at `co_spawn`. -/
  | admitting
  | returned
  deriving DecidableEq

/-- The coroutine of an acceptor holds no socket. -/
def AcceptorPc.idle : AcceptorPc → Bool
  | .test => true
  | .waiting => true
  | .failed _ => true
  | .returned => true
  | _ => false

theorem AcceptorPc.ne_of_idle {pc other : AcceptorPc} (h : pc.idle = true)
    (hother : other.idle = false) : pc ≠ other := by
  rintro rfl
  rw [h] at hother
  cases hother

/-- An acceptor with its coroutine. -/
structure Acceptor where
  pc : AcceptorPc
  closed : Bool
  deriving DecidableEq

/-- Where a `handle_connection` is. -/
inductive HandlerPc where
  | spawned
  /-- The `ConnectionGuard` is alive. -/
  | running
  /-- In `release_connection`, after the decrement from 1. -/
  | announcing
  | finished
  deriving DecidableEq

/-- Where `run()` is. -/
inductive RunPc where
  /-- At the `co_spawn` for an acceptor. -/
  | spawning (k : Nat)
  /-- At the start of the thread for an `io_context`. -/
  | starting (k : Nat)
  /-- At `shutdown_flag_.store(false)`. -/
  | resetting
  /-- At the start of the statistics thread. -/
  | startingStats
  | joining
  | joiningStats
  | returned
  /-- Left by an exception. -/
  | thrown
  deriving DecidableEq

/-- Where `stop()` is. -/
inductive StopPc where
  /-- At `shutdown_flag_.store(true)`. -/
  | storing
  /-- At `shutting_down_.store(true)`. -/
  | shutting
  /-- At the notification of the statistics thread. -/
  | notifying
  | closing (k : Nat)
  /-- At the reset of the work guards. -/
  | resetting
  /-- In the wait for the connections: at the test of the predicate, or asleep. -/
  | draining (asleep : Bool)
  /-- At the stop of the contexts, after a wait that saw no connections or timed out. -/
  | stopping (drained : Bool)
  | returned
  deriving DecidableEq

/-- Where the statistics thread is. -/
inductive StatsPc where
  | unstarted
  /-- Without the mutex: at its start, and while it writes to the log. -/
  | unlocked
  /-- At the condition of the loop. -/
  | test
  /-- In the wait: at the test of the predicate, or asleep. -/
  | waiting (asleep : Bool)
  | ended
  deriving DecidableEq

/-- `shutdown_cv_.notify_all()`. -/
def StopPc.notified : StopPc → StopPc
  | .draining _ => .draining false
  | pc => pc

/-- `stats_cv_.notify_all()`. -/
def StatsPc.notified : StatsPc → StatsPc
  | .waiting _ => .waiting false
  | pc => pc

/-- The members of an `HttpsServer` that the steps read and write, and where each party is. -/
structure HttpsServerState where
  maxConnections : Int
  ioContexts : Nat
  connectionCount : Int
  shutdownFlag : Bool
  shuttingDown : Bool
  guardsReset : Bool
  stopped : Bool
  acceptors : List Acceptor
  handlers : List HandlerPc
  runPc : RunPc
  stopPc : StopPc
  statsPc : StatsPc
  deriving DecidableEq

namespace HttpsServerState

/-- An initialized server whose `run()` has been called. -/
def initialized (maxConnections : Int) (ioContexts acceptors : Nat) : HttpsServerState where
  maxConnections := maxConnections
  ioContexts := ioContexts
  connectionCount := 0
  shutdownFlag := false
  shuttingDown := false
  guardsReset := false
  stopped := false
  acceptors := List.replicate acceptors ⟨.unspawned, false⟩
  handlers := []
  runPc := .spawning 0
  stopPc := .storing
  statsPc := .unstarted

/-- An acceptor coroutine gets to a place. -/
def goto (server : HttpsServerState) (k : Nat) (pc : AcceptorPc) : HttpsServerState :=
  { server with
    acceptors := server.acceptors.modify k (fun acceptor => { acceptor with pc := pc }) }

@[simp] theorem goto_handlers (server : HttpsServerState) (k : Nat) (pc : AcceptorPc) :
    (server.goto k pc).handlers = server.handlers := rfl

@[simp] theorem goto_connectionCount (server : HttpsServerState) (k : Nat) (pc : AcceptorPc) :
    (server.goto k pc).connectionCount = server.connectionCount := rfl

/-! ## The acceptors and the handlers -/

/-- The next step of an `accept_loop`. -/
def acceptLoop (server : HttpsServerState) (k : Nat) : HttpsServerState :=
  match server.acceptors[k]? with
  | none => server
  | some acceptor =>
      match acceptor.pc with
      | .unspawned => server
      | .test => server.goto k (if server.shuttingDown then .returned else .waiting)
      | .waiting =>
          -- `close()` of the acceptor aborts the wait, as long as completions run
          if acceptor.closed && !server.stopped then server.goto k (.failed true) else server
      | .failed aborted =>
          server.goto k (if aborted || server.shuttingDown then .returned else .test)
      | .accepted =>
          -- `fetch_add` returns the count in front of the increment
          { server.goto k (if server.maxConnections ≤ server.connectionCount then .rejecting
              else .admitting) with
            connectionCount := server.connectionCount + 1 }
      | .rejecting =>
          { server.goto k .test with connectionCount := server.connectionCount - 1 }
      | .admitting => { server.goto k .test with handlers := server.handlers ++ [.spawned] }
      | .returned => server

/-- `async_accept` completes: with a connection, or with an error that is no abort. -/
def complete (server : HttpsServerState) (k : Nat) (connected : Bool) : HttpsServerState :=
  match server.acceptors[k]? with
  | some ⟨.waiting, closed⟩ =>
      if server.stopped || (connected && closed) then server
      else server.goto k (if connected then .accepted else .failed false)
  | _ => server

/-- A handler starts, or notifies the wait of `stop()`. -/
def handlerStep (server : HttpsServerState) (j : Nat) : HttpsServerState :=
  match server.handlers[j]? with
  | some .spawned =>
      if server.stopped then server else { server with handlers := server.handlers.set j .running }
  | some .announcing =>
      { server with
        handlers := server.handlers.set j .finished, stopPc := server.stopPc.notified }
  | _ => server

/-- The body of a handler ends, in whatever way, and the guard calls `release_connection`. -/
def releaseConnection (server : HttpsServerState) (j : Nat) : HttpsServerState :=
  match server.handlers[j]? with
  | some .running =>
      { server with
        connectionCount := server.connectionCount - 1
        handlers := server.handlers.set j
          -- `fetch_sub` returned 1: this was the last connection
          (if server.connectionCount = 1 then .announcing else .finished) }
  | _ => server

/-! ## `run()`, `stop()` and the statistics thread -/

/-- The threads of the contexts have ended: the contexts are stopped, or have no work left. -/
def workersEnded (server : HttpsServerState) : Bool :=
  server.stopped || (server.guardsReset &&
    server.acceptors.all (fun acceptor => acceptor.pc = .returned) &&
    server.handlers.all (fun handler => handler = .finished))

/-- The next step of `run()`. -/
def run (server : HttpsServerState) : HttpsServerState :=
  match server.runPc with
  | .spawning k =>
      if k < server.acceptors.length then { server.goto k .test with runPc := .spawning (k + 1) }
      else { server with runPc := .starting 0 }
  | .starting k =>
      if k < server.ioContexts then { server with runPc := .starting (k + 1) }
      else { server with runPc := .resetting }
  | .resetting => { server with shutdownFlag := false, runPc := .startingStats }
  | .startingStats => { server with statsPc := .unlocked, runPc := .joining }
  | .joining => if server.workersEnded then { server with runPc := .joiningStats } else server
  | .joiningStats =>
      if server.statsPc = .ended then { server with runPc := .returned } else server
  | .returned => server
  | .thrown => server

/-- `co_spawn` or the start of a thread throws. -/
def runThrows (server : HttpsServerState) : HttpsServerState :=
  match server.runPc with
  | .spawning _ => { server with runPc := .thrown }
  | .starting _ => { server with runPc := .thrown }
  | .startingStats => { server with runPc := .thrown }
  | _ => server

/-- The statistics thread holds `stats_mutex_`. -/
def statsLocked (server : HttpsServerState) : Bool :=
  match server.statsPc with
  | .test => true
  | .waiting asleep => !asleep
  | _ => false

/-- The next step of `stop()`. -/
def stop (server : HttpsServerState) : HttpsServerState :=
  match server.stopPc with
  | .storing => { server with shutdownFlag := true, stopPc := .shutting }
  | .shutting => { server with shuttingDown := true, stopPc := .notifying }
  | .notifying =>
      -- `stats_mutex_` is taken for the notification
      if server.statsLocked then server
      else { server with statsPc := server.statsPc.notified, stopPc := .closing 0 }
  | .closing k =>
      if k < server.acceptors.length then
        { server with
          acceptors := server.acceptors.modify k (fun acceptor => { acceptor with closed := true })
          stopPc := .closing (k + 1) }
      else { server with stopPc := .resetting }
  | .resetting => { server with guardsReset := true, stopPc := .draining false }
  -- asleep: only a notification, the time or a spurious wakeup goes on
  | .draining true => server
  | .draining false =>
      if server.connectionCount = 0 then { server with stopPc := .stopping true }
      else { server with stopPc := .draining true }
  | .stopping _ => { server with stopped := true, stopPc := .returned }
  | .returned => server

/-- The ten seconds of the wait in `stop()` are over: the predicate is tested once more. -/
def stopTimeout (server : HttpsServerState) : HttpsServerState :=
  match server.stopPc with
  | .draining true => { server with stopPc := .stopping (server.connectionCount = 0) }
  | _ => server

/-- The wait in `stop()` wakes up on its own. -/
def stopWakes (server : HttpsServerState) : HttpsServerState :=
  match server.stopPc with
  | .draining true => { server with stopPc := .draining false }
  | _ => server

/-- The condition of the loop of the statistics thread. -/
def statsCondition (server : HttpsServerState) : Bool := !server.shutdownFlag

/-- The next step of the statistics thread. -/
def stats (server : HttpsServerState) : HttpsServerState :=
  match server.statsPc with
  | .unstarted => server
  | .unlocked => { server with statsPc := .test }
  | .test => { server with statsPc := if server.statsCondition then .waiting false else .ended }
  | .waiting true => server
  | .waiting false =>
      { server with statsPc := if server.shutdownFlag then .ended else .waiting true }
  | .ended => server

/-- The ten seconds of the wait in the statistics thread are over. -/
def statsTimeout (server : HttpsServerState) : HttpsServerState :=
  match server.statsPc with
  | .waiting true => { server with statsPc := if server.shutdownFlag then .ended else .unlocked }
  | _ => server

/-- The wait in the statistics thread wakes up on its own. -/
def statsWakes (server : HttpsServerState) : HttpsServerState :=
  match server.statsPc with
  | .waiting true => { server with statsPc := .waiting false }
  | _ => server

/-- Who takes the next step. -/
inductive Event where
  | run
  | runThrows
  | stop
  | stopTimeout
  | stopWakes
  | stats
  | statsTimeout
  | statsWakes
  | acceptLoop (k : Nat)
  | complete (k : Nat) (connected : Bool)
  | handlerStep (j : Nat)
  | releaseConnection (j : Nat)
  deriving DecidableEq

/-- One step. -/
def step (server : HttpsServerState) : Event → HttpsServerState
  | .run => server.run
  | .runThrows => server.runThrows
  | .stop => server.stop
  | .stopTimeout => server.stopTimeout
  | .stopWakes => server.stopWakes
  | .stats => server.stats
  | .statsTimeout => server.statsTimeout
  | .statsWakes => server.statsWakes
  | .acceptLoop k => server.acceptLoop k
  | .complete k connected => server.complete k connected
  | .handlerStep j => server.handlerStep j
  | .releaseConnection j => server.releaseConnection j

/-! ## What the steps leave alone -/

/-- The event moves a thread and changes nothing else. -/
def Event.movesThread : Event → Bool
  | .runThrows => true
  | .stopTimeout => true
  | .stopWakes => true
  | .stats => true
  | .statsTimeout => true
  | .statsWakes => true
  | _ => false

/-- What such an event does: `run()` is left where it is or thrown out, and `stop()` is left where
it is, or was in its wait and has not gone back. -/
theorem step_movesThread (server : HttpsServerState) {event : Event}
    (h : event.movesThread = true) :
    ∃ runPc stopPc statsPc,
      step server event = { server with runPc := runPc, stopPc := stopPc, statsPc := statsPc } ∧
      (runPc = server.runPc ∨ runPc = .thrown) ∧
      (stopPc = server.stopPc ∨ server.stopPc = .draining true ∧
        (stopPc = .draining false ∨ ∃ drained, stopPc = .stopping drained)) := by
  cases event with
  | runThrows =>
      show ∃ _ _ _, server.runThrows = _ ∧ _
      rw [runThrows]
      split
      next => exact ⟨_, _, _, rfl, Or.inr rfl, Or.inl rfl⟩
      next => exact ⟨_, _, _, rfl, Or.inr rfl, Or.inl rfl⟩
      next => exact ⟨_, _, _, rfl, Or.inr rfl, Or.inl rfl⟩
      next => exact ⟨_, _, _, rfl, Or.inl rfl, Or.inl rfl⟩
  | stopTimeout =>
      show ∃ _ _ _, server.stopTimeout = _ ∧ _
      rw [stopTimeout]
      split
      next hpc => exact ⟨_, _, _, rfl, Or.inl rfl, Or.inr ⟨hpc, Or.inr ⟨_, rfl⟩⟩⟩
      next => exact ⟨_, _, _, rfl, Or.inl rfl, Or.inl rfl⟩
  | stopWakes =>
      show ∃ _ _ _, server.stopWakes = _ ∧ _
      rw [stopWakes]
      split
      next hpc => exact ⟨_, _, _, rfl, Or.inl rfl, Or.inr ⟨hpc, Or.inl rfl⟩⟩
      next => exact ⟨_, _, _, rfl, Or.inl rfl, Or.inl rfl⟩
  | stats =>
      show ∃ _ _ _, server.stats = _ ∧ _
      rw [stats]
      split <;> exact ⟨_, _, _, rfl, Or.inl rfl, Or.inl rfl⟩
  | statsTimeout =>
      show ∃ _ _ _, server.statsTimeout = _ ∧ _
      rw [statsTimeout]
      split <;> exact ⟨_, _, _, rfl, Or.inl rfl, Or.inl rfl⟩
  | statsWakes =>
      show ∃ _ _ _, server.statsWakes = _ ∧ _
      rw [statsWakes]
      split <;> exact ⟨_, _, _, rfl, Or.inl rfl, Or.inl rfl⟩
  | _ => cases h

/-- The event is a step of a coroutine. -/
def Event.movesCoroutine : Event → Bool
  | .acceptLoop _ => true
  | .complete _ _ => true
  | .handlerStep _ => true
  | .releaseConnection _ => true
  | _ => false

/-- What a step of a coroutine can do. -/
inductive CoroutineMove (server : HttpsServerState) : HttpsServerState → Prop where
  | stays : CoroutineMove server server
  | idles {k : Nat} {acceptor : Acceptor} {target : AcceptorPc}
      (hk : server.acceptors[k]? = some acceptor) (hfrom : acceptor.pc.idle = true)
      (hto : target.idle = true) : CoroutineMove server (server.goto k target)
  | arrives {k : Nat} (hk : server.acceptors[k]? = some ⟨.waiting, false⟩) :
      CoroutineMove server (server.goto k .accepted)
  | counts {k : Nat} {closed : Bool} (hk : server.acceptors[k]? = some ⟨.accepted, closed⟩) :
      CoroutineMove server
        { server.goto k (if server.maxConnections ≤ server.connectionCount then .rejecting
            else .admitting) with
          connectionCount := server.connectionCount + 1 }
  | rejects {k : Nat} {closed : Bool} (hk : server.acceptors[k]? = some ⟨.rejecting, closed⟩) :
      CoroutineMove server
        { server.goto k .test with connectionCount := server.connectionCount - 1 }
  | admits {k : Nat} {closed : Bool} (hk : server.acceptors[k]? = some ⟨.admitting, closed⟩) :
      CoroutineMove server
        { server.goto k .test with handlers := server.handlers ++ [.spawned] }
  | starts {j : Nat} (hj : server.handlers[j]? = some .spawned) :
      CoroutineMove server { server with handlers := server.handlers.set j .running }
  | notifies {j : Nat} (hj : server.handlers[j]? = some .announcing) :
      CoroutineMove server
        { server with
          handlers := server.handlers.set j .finished, stopPc := server.stopPc.notified }
  | releases {j : Nat} (hj : server.handlers[j]? = some .running) :
      CoroutineMove server
        { server with
          connectionCount := server.connectionCount - 1
          handlers := server.handlers.set j
            (if server.connectionCount = 1 then .announcing else .finished) }

theorem coroutineMove_acceptLoop (server : HttpsServerState) (k : Nat) :
    CoroutineMove server (server.acceptLoop k) := by
  rw [acceptLoop]
  cases hk : server.acceptors[k]? with
  | none => exact .stays
  | some acceptor =>
      obtain ⟨pc, closed⟩ := acceptor
      cases pc with
      | unspawned => exact .stays
      | test =>
          refine .idles hk rfl ?_
          split <;> rfl
      | waiting =>
          show CoroutineMove server (if _ then server.goto k (.failed true) else server)
          split
          next => exact .idles hk rfl rfl
          next => exact .stays
      | failed aborted =>
          refine .idles hk rfl ?_
          split <;> rfl
      | accepted => exact .counts hk
      | rejecting => exact .rejects hk
      | admitting => exact .admits hk
      | returned => exact .stays

theorem coroutineMove_complete (server : HttpsServerState) (k : Nat) (connected : Bool) :
    CoroutineMove server (server.complete k connected) := by
  rw [complete]
  split
  next closed hk =>
    split
    next => exact .stays
    next hopen =>
      cases connected with
      | false => exact .idles hk rfl rfl
      | true =>
          cases closed with
          | false => exact .arrives hk
          | true => exact absurd (Bool.or_true _) hopen
  next => exact .stays

theorem coroutineMove_handlerStep (server : HttpsServerState) (j : Nat) :
    CoroutineMove server (server.handlerStep j) := by
  rw [handlerStep]
  split
  next hj =>
    split
    next => exact .stays
    next => exact .starts hj
  next hj => exact .notifies hj
  next => exact .stays

theorem coroutineMove_releaseConnection (server : HttpsServerState) (j : Nat) :
    CoroutineMove server (server.releaseConnection j) := by
  rw [releaseConnection]
  split
  next hj => exact .releases hj
  next => exact .stays

theorem step_movesCoroutine (server : HttpsServerState) {event : Event}
    (h : event.movesCoroutine = true) : CoroutineMove server (step server event) := by
  cases event with
  | acceptLoop k => exact coroutineMove_acceptLoop server k
  | complete k connected => exact coroutineMove_complete server k connected
  | handlerStep j => exact coroutineMove_handlerStep server j
  | releaseConnection j => exact coroutineMove_releaseConnection server j
  | _ => cases h

/-- A coroutine changes the counter, the coroutines, and the sleep of `stop()`. -/
theorem CoroutineMove.frame {server after : HttpsServerState} (h : CoroutineMove server after) :
    ∃ count acceptors handlers stopPc, after =
      { server with
        connectionCount := count, acceptors := acceptors, handlers := handlers,
        stopPc := stopPc } := by
  cases h <;> exact ⟨_, _, _, _, rfl⟩

/-- A step of `run()` spawns the next coroutine, or it touches the flag and the threads only and
is past the coroutines. -/
theorem run_cases (server : HttpsServerState) :
    (∃ k, server.runPc = .spawning k ∧ k < server.acceptors.length ∧
      server.run = { server.goto k .test with runPc := .spawning (k + 1) }) ∨
    ∃ flag runPc statsPc,
      server.run = { server with shutdownFlag := flag, runPc := runPc, statsPc := statsPc } ∧
      ∀ k, runPc ≠ .spawning k := by
  rw [run.eq_def]
  cases hrun : server.runPc with
  | spawning k =>
      by_cases hk : k < server.acceptors.length
      · exact Or.inl ⟨k, rfl, hk, if_pos hk⟩
      · exact Or.inr ⟨_, _, _, if_neg hk, by simp⟩
  | starting k =>
      by_cases hk : k < server.ioContexts
      · exact Or.inr ⟨_, _, _, if_pos hk, by simp⟩
      · exact Or.inr ⟨_, _, _, if_neg hk, by simp⟩
  | resetting => exact Or.inr ⟨_, _, _, rfl, by simp⟩
  | startingStats => exact Or.inr ⟨_, _, _, rfl, by simp⟩
  | joining =>
      by_cases hended : server.workersEnded = true
      · exact Or.inr ⟨_, _, _, if_pos hended, by simp⟩
      · exact Or.inr ⟨_, _, _, if_neg hended, by simp [hrun]⟩
  | joiningStats =>
      by_cases hended : server.statsPc = .ended
      · exact Or.inr ⟨_, _, _, if_pos hended, by simp⟩
      · exact Or.inr ⟨_, _, _, if_neg hended, by simp [hrun]⟩
  | returned => exact Or.inr ⟨_, _, _, rfl, by simp [hrun]⟩
  | thrown => exact Or.inr ⟨_, _, _, rfl, by simp [hrun]⟩

/-- A step of `stop()` closes the next acceptor, or it touches the flags and the threads only and
clears none of the two shutdown flags. -/
theorem stop_cases (server : HttpsServerState) :
    (∃ k, server.stopPc = .closing k ∧ server.stop =
      { server with
        acceptors := server.acceptors.modify k (fun acceptor => { acceptor with closed := true })
        stopPc := .closing (k + 1) }) ∨
    ∃ flag shuttingDown guardsReset stopped stopPc statsPc, server.stop =
        { server with
          shutdownFlag := flag, shuttingDown := shuttingDown, guardsReset := guardsReset,
          stopped := stopped, stopPc := stopPc, statsPc := statsPc } ∧
      (flag = server.shutdownFlag ∨ flag = true) ∧
      (shuttingDown = server.shuttingDown ∨ shuttingDown = true) := by
  rw [stop.eq_def]
  cases hstop : server.stopPc with
  | storing => exact Or.inr ⟨_, _, _, _, _, _, rfl, Or.inr rfl, Or.inl rfl⟩
  | shutting => exact Or.inr ⟨_, _, _, _, _, _, rfl, Or.inl rfl, Or.inr rfl⟩
  | notifying =>
      by_cases hlocked : server.statsLocked = true
      · exact Or.inr ⟨_, _, _, _, _, _, if_pos hlocked, Or.inl rfl, Or.inl rfl⟩
      · exact Or.inr ⟨_, _, _, _, _, _, if_neg hlocked, Or.inl rfl, Or.inl rfl⟩
  | closing k =>
      by_cases hk : k < server.acceptors.length
      · exact Or.inl ⟨k, rfl, if_pos hk⟩
      · exact Or.inr ⟨_, _, _, _, _, _, if_neg hk, Or.inl rfl, Or.inl rfl⟩
  | resetting => exact Or.inr ⟨_, _, _, _, _, _, rfl, Or.inl rfl, Or.inl rfl⟩
  | draining asleep =>
      cases asleep with
      | true => exact Or.inr ⟨_, _, _, _, _, _, rfl, Or.inl rfl, Or.inl rfl⟩
      | false =>
          by_cases hcount : server.connectionCount = 0
          · exact Or.inr ⟨_, _, _, _, _, _, if_pos hcount, Or.inl rfl, Or.inl rfl⟩
          · exact Or.inr ⟨_, _, _, _, _, _, if_neg hcount, Or.inl rfl, Or.inl rfl⟩
  | stopping drained => exact Or.inr ⟨_, _, _, _, _, _, rfl, Or.inl rfl, Or.inl rfl⟩
  | returned => exact Or.inr ⟨_, _, _, _, _, _, rfl, Or.inl rfl, Or.inl rfl⟩

end HttpsServerState

end Brazier
