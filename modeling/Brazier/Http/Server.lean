import Brazier.ProofLib.Runs

/-!
# The life of a `Server`

`run()` and `stop()` of the plain server with its statistics thread, in steps as those of an
`HttpsServer`. `stop()` does not wait for connections here, and it is `stop()` that joins the
statistics thread. The accept coroutine and the handlers touch none of the members below.
-/

namespace Brazier

/-- Where `Server::run()` is. -/
inductive ServerRunPc where
  /-- At the `co_spawn` of `accept_loop`. -/
  | spawning
  /-- At the start of a worker thread. -/
  | starting (k : Nat)
  /-- At `shutdown_flag_.store(false)`. -/
  | resetting
  /-- At the start of the statistics thread. -/
  | startingStats
  | joining
  | returned
  /-- Left by an exception. -/
  | thrown
  deriving DecidableEq

/-- Where `Server::stop()` is. -/
inductive ServerStopPc where
  /-- At `shutdown_flag_.store(true)`. -/
  | storing
  /-- At the reset of the work guard. -/
  | resetting
  /-- At the stop of the context. -/
  | stopping
  /-- At the join of the statistics thread, if it is joinable. -/
  | joining
  | returned
  deriving DecidableEq

/-- Where the statistics thread is. -/
inductive ServerStatsPc where
  | unstarted
  /-- At the condition of the loop. -/
  | test
  | sleeping
  /-- At the test after the sleep. -/
  | retest
  | logging
  | ended
  deriving DecidableEq

/-- The members of a `Server` that the steps read and write, and where each party is. -/
structure ServerState where
  threads : Nat
  shutdownFlag : Bool
  guardReset : Bool
  stopped : Bool
  runPc : ServerRunPc
  stopPc : ServerStopPc
  statsPc : ServerStatsPc
  deriving DecidableEq

namespace ServerState

/-- An initialized server whose `run()` has been called. -/
def initialized (threads : Nat) : ServerState where
  threads := threads
  shutdownFlag := false
  guardReset := false
  stopped := false
  runPc := .spawning
  stopPc := .storing
  statsPc := .unstarted

/-- The next step of `run()`. The accept coroutine keeps the context at work until it is stopped. -/
def run (server : ServerState) : ServerState :=
  match server.runPc with
  | .spawning => { server with runPc := .starting 0 }
  | .starting k =>
      if k < server.threads then { server with runPc := .starting (k + 1) }
      else { server with runPc := .resetting }
  | .resetting => { server with shutdownFlag := false, runPc := .startingStats }
  | .startingStats => { server with statsPc := .test, runPc := .joining }
  | .joining => if server.stopped then { server with runPc := .returned } else server
  | .returned => server
  | .thrown => server

/-- `co_spawn` or the start of a thread throws. -/
def runThrows (server : ServerState) : ServerState :=
  match server.runPc with
  | .spawning => { server with runPc := .thrown }
  | .starting _ => { server with runPc := .thrown }
  | .startingStats => { server with runPc := .thrown }
  | _ => server

/-- The next step of `stop()`. -/
def stop (server : ServerState) : ServerState :=
  match server.stopPc with
  | .storing => { server with shutdownFlag := true, stopPc := .resetting }
  | .resetting => { server with guardReset := true, stopPc := .stopping }
  | .stopping => { server with stopped := true, stopPc := .joining }
  | .joining =>
      if server.statsPc = .unstarted ∨ server.statsPc = .ended then
        { server with stopPc := .returned }
      else server
  | .returned => server

/-- The condition of the loop of the statistics thread. -/
def statsCondition (server : ServerState) : Bool := !server.shutdownFlag

/-- The next step of the statistics thread. -/
def stats (server : ServerState) : ServerState :=
  match server.statsPc with
  | .unstarted => server
  | .test => { server with statsPc := if server.statsCondition then .sleeping else .ended }
  | .sleeping => { server with statsPc := .retest }
  | .retest => { server with statsPc := if server.shutdownFlag then .ended else .logging }
  | .logging => { server with statsPc := .test }
  | .ended => server

/-- Who takes the next step. -/
inductive Event where
  | run
  | runThrows
  | stop
  | stats
  deriving DecidableEq

/-- One step. -/
def step (server : ServerState) : Event → ServerState
  | .run => server.run
  | .runThrows => server.runThrows
  | .stop => server.stop
  | .stats => server.stats

end ServerState

end Brazier
