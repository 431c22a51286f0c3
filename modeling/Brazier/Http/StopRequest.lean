import Brazier.Http.HttpsServer
import Brazier.Http.Server

/-!
# Whether a stop request is kept

`run()` stores false in `shutdown_flag_` after it has spawned the accept coroutines and started the
worker threads. A `stop()` that stores true before that is forgotten, and the statistics thread
goes round its loop for ever. A later one is kept.
-/

namespace Brazier

open ProofLib

/-- `run()` will not store false any more. -/
def RunPc.settled : RunPc → Bool
  | .spawning _ => false
  | .starting _ => false
  | .resetting => false
  | _ => true

/-- `Server::run()` will not store false any more. -/
def ServerRunPc.settled : ServerRunPc → Bool
  | .spawning => false
  | .starting _ => false
  | .resetting => false
  | _ => true

namespace HttpsServerState

/-- The step is the one of `stop()` that stores true. -/
def Requests (server : HttpsServerState) (event : Event) : Prop :=
  server.stopPc = .storing ∧ event = .stop

/-- The flag is set, and `run()` will not reset it. -/
theorem settled_run {server : HttpsServerState} (hflag : server.statsCondition = false)
    (hsettled : server.runPc.settled = true) :
    server.run.statsCondition = false ∧ server.run.runPc.settled = true := by
  rw [run.eq_def]
  cases hrun : server.runPc with
  | startingStats => exact ⟨hflag, rfl⟩
  | joining =>
      show (if _ then _ else server : HttpsServerState).statsCondition = false ∧
        (if _ then _ else server : HttpsServerState).runPc.settled = true
      split
      next => exact ⟨hflag, rfl⟩
      next => exact ⟨hflag, hsettled⟩
  | joiningStats =>
      show (if _ then _ else server : HttpsServerState).statsCondition = false ∧
        (if _ then _ else server : HttpsServerState).runPc.settled = true
      split
      next => exact ⟨hflag, rfl⟩
      next => exact ⟨hflag, hsettled⟩
  | returned => exact ⟨hflag, hsettled⟩
  | thrown => exact ⟨hflag, hsettled⟩
  | _ =>
      rw [hrun] at hsettled
      cases hsettled

/-- No step of `stop()` clears the flag or moves `run()`. -/
theorem settled_stop {server : HttpsServerState} (hflag : server.statsCondition = false) :
    server.stop.statsCondition = false ∧ server.stop.runPc = server.runPc := by
  obtain ⟨_, _, hstop⟩ | ⟨_, _, _, _, _, _, hstop, hkept, _⟩ := stop_cases server
  · rw [hstop]
    exact ⟨hflag, rfl⟩
  · rw [hstop]
    refine ⟨?_, rfl⟩
    rcases hkept with rfl | rfl
    · exact hflag
    · rfl

/-- A flag that is set stays so once `run()` has settled. -/
theorem settled_step (server : HttpsServerState) (event : Event)
    (h : server.statsCondition = false ∧ server.runPc.settled = true) :
    (step server event).statsCondition = false ∧ (step server event).runPc.settled = true := by
  have hmoves := @step_movesThread server event
  have hcoroutine := @step_movesCoroutine server event
  cases event with
  | run => exact settled_run h.1 h.2
  | stop => exact ⟨(settled_stop h.1).1, (settled_stop h.1).2 ▸ h.2⟩
  | acceptLoop k | complete k connected | handlerStep j | releaseConnection j =>
      obtain ⟨_, _, _, _, hstep⟩ := (hcoroutine rfl).frame
      rw [hstep]
      exact h
  | runThrows | stopTimeout | stopWakes | stats | statsTimeout | statsWakes =>
      obtain ⟨runPc, stopPc, statsPc, hstep, hrun, _⟩ := hmoves rfl
      rw [hstep]
      refine ⟨h.1, ?_⟩
      rcases hrun with rfl | rfl
      · exact h.2
      · rfl

/-- `run()` can go on until it has stored false. -/
abbrev Resets (server : HttpsServerState) : Prop :=
  CanReach step (fun server : HttpsServerState => ¬ server.statsCondition = false) server

theorem resets_of_run {server : HttpsServerState} (h : Resets server.run) : Resets server :=
  .of_step .run h

theorem resets_of_resetting {server : HttpsServerState} (h : server.runPc = .resetting) :
    Resets server := by
  refine resets_of_run (.of_holds ?_)
  rw [run.eq_def, h]
  exact Bool.noConfusion

theorem resets_of_starting {server : HttpsServerState} {k : Nat} (h : server.runPc = .starting k) :
    Resets server := by
  induction hleft : server.ioContexts - k generalizing server k with
  | zero =>
      refine resets_of_run (resets_of_resetting ?_)
      rw [run.eq_def, h]
      show (if _ then _ else _ : HttpsServerState).runPc = _
      rw [if_neg (by omega)]
  | succ left ih =>
      have hrun : server.run = { server with runPc := .starting (k + 1) } := by
        rw [run.eq_def, h]
        exact if_pos (by omega)
      refine resets_of_run (ih (k := k + 1) ?_ ?_)
      · rw [hrun]
      · rw [hrun]
        show server.ioContexts - (k + 1) = left
        omega

theorem resets_of_spawning {server : HttpsServerState} {k : Nat} (h : server.runPc = .spawning k) :
    Resets server := by
  induction hleft : server.acceptors.length - k generalizing server k with
  | zero =>
      refine resets_of_run (resets_of_starting (k := 0) ?_)
      rw [run.eq_def, h]
      show (if _ then _ else _ : HttpsServerState).runPc = _
      rw [if_neg (by omega)]
  | succ left ih =>
      have hrun : server.run = { server.goto k .test with runPc := .spawning (k + 1) } := by
        rw [run.eq_def, h]
        exact if_pos (by omega)
      refine resets_of_run (ih (k := k + 1) ?_ ?_)
      · rw [hrun]
      · rw [hrun]
        show (server.acceptors.modify k _).length - (k + 1) = left
        rw [List.length_modify]
        omega

/-- A run of `run()` that has not settled gets to its store. -/
theorem resets_of_not_settled {server : HttpsServerState} (h : ¬ server.runPc.settled = true) :
    Resets server := by
  cases hrun : server.runPc with
  | spawning k => exact resets_of_spawning hrun
  | starting k => exact resets_of_starting hrun
  | resetting => exact resets_of_resetting hrun
  | _ =>
      rw [hrun] at h
      exact absurd rfl h

/-- Every stop request of a run is kept for good exactly when `run()` had settled before it. -/
theorem stop_kept_iff (maxConnections : Int) (ioContexts acceptors : Nat) (events : List Event) :
    Throughout step (fun server event => Requests server event →
        ∀ rest, (runFrom step (step server event) rest).statsCondition = false)
      (initialized maxConnections ioContexts acceptors) events ↔
    Throughout step (fun server event => Requests server event → server.runPc.settled = true)
      (initialized maxConnections ioContexts acceptors) events := by
  refine throughout_final_iff (fun server : HttpsServerState => server.statsCondition = false)
    (fun server => server.runPc.settled = true) ?_ settled_step ?_ _ events
  · rintro server event ⟨hpc, rfl⟩ hsettled
    show server.stop.statsCondition = false ∧ server.stop.runPc.settled = true
    rw [stop.eq_def, hpc]
    exact ⟨rfl, hsettled⟩
  · rintro server event ⟨hpc, rfl⟩ hsettled
    have hsame : server.stop.runPc = server.runPc := by
      rw [stop.eq_def, hpc]
    have hunsettled : ¬ server.stop.runPc.settled = true := hsame ▸ hsettled
    exact resets_of_not_settled hunsettled

end HttpsServerState

namespace ServerState

/-- The step is the one of `stop()` that stores true. -/
def Requests (server : ServerState) (event : Event) : Prop :=
  server.stopPc = .storing ∧ event = .stop

/-- A flag that is set stays so once `run()` has settled. -/
theorem settled_step (server : ServerState) (event : Event)
    (h : server.statsCondition = false ∧ server.runPc.settled = true) :
    (step server event).statsCondition = false ∧ (step server event).runPc.settled = true := by
  obtain ⟨hflag, hsettled⟩ := h
  cases event with
  | run =>
      show server.run.statsCondition = false ∧ server.run.runPc.settled = true
      rw [run.eq_def]
      cases hrun : server.runPc with
      | startingStats => exact ⟨hflag, rfl⟩
      | joining =>
          show (if _ then _ else server : ServerState).statsCondition = false ∧
            (if _ then _ else server : ServerState).runPc.settled = true
          split
          next => exact ⟨hflag, rfl⟩
          next => exact ⟨hflag, hsettled⟩
      | returned => exact ⟨hflag, hsettled⟩
      | thrown => exact ⟨hflag, hsettled⟩
      | _ =>
          rw [hrun] at hsettled
          cases hsettled
  | runThrows =>
      show server.runThrows.statsCondition = false ∧ server.runThrows.runPc.settled = true
      rw [runThrows]
      split
      next => exact ⟨hflag, rfl⟩
      next => exact ⟨hflag, rfl⟩
      next => exact ⟨hflag, rfl⟩
      next => exact ⟨hflag, hsettled⟩
  | stop =>
      show server.stop.statsCondition = false ∧ server.stop.runPc.settled = true
      rw [stop.eq_def]
      split
      next => exact ⟨rfl, hsettled⟩
      next => exact ⟨hflag, hsettled⟩
      next => exact ⟨hflag, hsettled⟩
      next =>
        split <;> exact ⟨hflag, hsettled⟩
      next => exact ⟨hflag, hsettled⟩
  | stats =>
      show server.stats.statsCondition = false ∧ server.stats.runPc.settled = true
      rw [stats.eq_def]
      split <;> exact ⟨hflag, hsettled⟩

/-- `run()` can go on until it has stored false. -/
abbrev Resets (server : ServerState) : Prop :=
  CanReach step (fun server : ServerState => ¬ server.statsCondition = false) server

theorem resets_of_run {server : ServerState} (h : Resets server.run) : Resets server :=
  .of_step .run h

theorem resets_of_resetting {server : ServerState} (h : server.runPc = .resetting) :
    Resets server := by
  refine resets_of_run (.of_holds ?_)
  rw [run.eq_def, h]
  exact Bool.noConfusion

theorem resets_of_starting {server : ServerState} {k : Nat} (h : server.runPc = .starting k) :
    Resets server := by
  induction hleft : server.threads - k generalizing server k with
  | zero =>
      refine resets_of_run (resets_of_resetting ?_)
      rw [run.eq_def, h]
      show (if _ then _ else _ : ServerState).runPc = _
      rw [if_neg (by omega)]
  | succ left ih =>
      have hrun : server.run = { server with runPc := .starting (k + 1) } := by
        rw [run.eq_def, h]
        exact if_pos (by omega)
      refine resets_of_run (ih (k := k + 1) ?_ ?_)
      · rw [hrun]
      · rw [hrun]
        show server.threads - (k + 1) = left
        omega

/-- A run of `run()` that has not settled gets to its store. -/
theorem resets_of_not_settled {server : ServerState} (h : ¬ server.runPc.settled = true) :
    Resets server := by
  cases hrun : server.runPc with
  | spawning =>
      refine resets_of_run (resets_of_starting (k := 0) ?_)
      rw [run.eq_def, hrun]
  | starting k => exact resets_of_starting hrun
  | resetting => exact resets_of_resetting hrun
  | _ =>
      rw [hrun] at h
      exact absurd rfl h

/-- Every stop request of a run is kept for good exactly when `run()` had settled before it. -/
theorem stop_kept_iff (threads : Nat) (events : List Event) :
    Throughout step (fun server event => Requests server event →
        ∀ rest, (runFrom step (step server event) rest).statsCondition = false)
      (initialized threads) events ↔
    Throughout step (fun server event => Requests server event → server.runPc.settled = true)
      (initialized threads) events := by
  refine throughout_final_iff (fun server : ServerState => server.statsCondition = false)
    (fun server => server.runPc.settled = true) ?_ settled_step ?_ _ events
  · rintro server event ⟨hpc, rfl⟩ hsettled
    show server.stop.statsCondition = false ∧ server.stop.runPc.settled = true
    rw [stop.eq_def, hpc]
    exact ⟨rfl, hsettled⟩
  · rintro server event ⟨hpc, rfl⟩ hsettled
    have hsame : server.stop.runPc = server.runPc := by
      rw [stop.eq_def, hpc]
    have hunsettled : ¬ server.stop.runPc.settled = true := hsame ▸ hsettled
    exact resets_of_not_settled hunsettled

end ServerState

/-- For both servers: the condition of the statistics loop is false for good after the stop request
of a run, exactly when `run()` had stored false before the request, or had been left by an
exception. -/
theorem stop_request_kept_iff (threads : Nat) (serverEvents : List ServerState.Event)
    (maxConnections : Int) (ioContexts acceptors : Nat) (events : List HttpsServerState.Event) :
    (Throughout ServerState.step (fun server event => server.Requests event →
        ∀ rest, (runFrom ServerState.step (server.step event) rest).statsCondition = false)
      (.initialized threads) serverEvents ↔
    Throughout ServerState.step (fun server event => server.Requests event →
      server.runPc.settled = true) (.initialized threads) serverEvents) ∧
    (Throughout HttpsServerState.step (fun server event => server.Requests event →
        ∀ rest, (runFrom HttpsServerState.step (server.step event) rest).statsCondition = false)
      (.initialized maxConnections ioContexts acceptors) events ↔
    Throughout HttpsServerState.step (fun server event => server.Requests event →
      server.runPc.settled = true) (.initialized maxConnections ioContexts acceptors) events) :=
  ⟨ServerState.stop_kept_iff threads serverEvents,
    HttpsServerState.stop_kept_iff maxConnections ioContexts acceptors events⟩

/-- `stop()` stores true when the worker threads have not been started. -/
theorem early_stop_forgotten :
    (¬ Throughout ServerState.step (fun server event => server.Requests event →
        ∀ rest, (runFrom ServerState.step (server.step event) rest).statsCondition = false)
      (.initialized 1) [.run, .stop]) ∧
    ¬ Throughout HttpsServerState.step (fun server event => server.Requests event →
        ∀ rest, (runFrom HttpsServerState.step (server.step event) rest).statsCondition = false)
      (.initialized 10 1 1) [.run, .stop] := by
  refine ⟨fun h => ?_, fun h => ?_⟩
  · have hkept := h.2.1 ⟨rfl, rfl⟩ [.run, .run, .run]
    exact absurd hkept (by decide)
  · have hkept := h.2.1 ⟨rfl, rfl⟩ [.run, .run, .run, .run]
    exact absurd hkept (by decide)

end Brazier
