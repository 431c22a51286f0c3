import Brazier.Text
import Brazier.ProofLib.Runs

/-!
# WebSocket sessions

`WebSocketSession`, `WebSocketManager` and `WebSocketServer::handle_websocket` as one machine. An
event is a step of a connection coroutine, a call of `send`, `broadcast` or `close` from some
handler, or a step of a coroutine that such a call has spawned; a list of events is an
interleaving. A session object is owned by the vector `sessions_`, by its connection coroutine, and
by the coroutines spawned for it. It is destroyed when the last owner goes.
-/

namespace Brazier

/-- A message as it goes over the stream. -/
structure Frame where
  binary : Bool
  payload : Text
  deriving DecidableEq

/-- How far a spawned coroutine is: not started, in its `async_write` or `async_close`, ended. -/
inductive Phase where
  | spawned
  | running
  | done
  deriving DecidableEq

/-- The coroutine of a `send` or `send_binary`, with the message it was called for. -/
structure Writer where
  frame : Frame
  phase : Phase
  deriving DecidableEq

/-- How far `handle_websocket` is with a session: before the handshake, before `add_session`, in
`run()`, past `run()`, or left by a failed handshake, lookup or connect handler. -/
inductive Stage where
  | created
  | connecting
  | running
  | finished
  | failed
  deriving DecidableEq

/-- The coroutine that holds the session has not ended. -/
def Stage.holds : Stage → Bool
  | .created => true
  | .connecting => true
  | .running => true
  | .finished => false
  | .failed => false

/-- `add_session` was called. -/
def Stage.added : Stage → Bool
  | .created => false
  | .connecting => false
  | .running => true
  | .finished => true
  | .failed => false

/-- A `WebSocketSession`. The writers and closers are the coroutines of its calls, in call order. -/
structure WebSocketSession where
  stage : Stage
  isOpen : Bool
  binarySetting : Bool
  closeHandler : Bool
  writers : List Writer
  closers : List Phase
  frames : List Frame
  closeCalls : Nat
  destroyed : Bool
  deriving DecidableEq

namespace WebSocketSession

/-- The constructor: `ws_.binary(true)`, and no close handler. -/
def new : WebSocketSession where
  stage := .created
  isOpen := false
  binarySetting := true
  closeHandler := false
  writers := []
  closers := []
  frames := []
  closeCalls := 0
  destroyed := false

/-- What `send` and `send_binary` do: an open session gets a coroutine for the frame. -/
def sendFrame (session : WebSocketSession) (frame : Frame) : WebSocketSession :=
  if session.isOpen then { session with writers := session.writers ++ [⟨frame, .spawned⟩] }
  else session

/-- `send`. -/
def send (session : WebSocketSession) (message : Text) : WebSocketSession :=
  session.sendFrame ⟨false, message⟩

/-- `send_binary`. -/
def sendBinary (session : WebSocketSession) (data : Text) : WebSocketSession :=
  session.sendFrame ⟨true, data⟩

/-- `close`. -/
def close (session : WebSocketSession) : WebSocketSession :=
  if session.isOpen then { session with closers := session.closers ++ [.spawned] } else session

/-- The coroutine of a send goes on: it starts its `async_write`, with the setting of the stream,
or the write ends. -/
def turnWriter (session : WebSocketSession) (k : Nat) : WebSocketSession :=
  match session.writers[k]? with
  | some ⟨frame, .spawned⟩ =>
      { session with
        writers := session.writers.set k ⟨frame, .running⟩
        frames := session.frames ++ [⟨session.binarySetting, frame.payload⟩] }
  | some ⟨frame, .running⟩ => { session with writers := session.writers.set k ⟨frame, .done⟩ }
  | some ⟨_, .done⟩ => session
  | none => session

/-- The coroutine of a close goes on. -/
def turnCloser (session : WebSocketSession) (k : Nat) : WebSocketSession :=
  match session.closers[k]? with
  | some .spawned => { session with closers := session.closers.set k .running }
  | some .running => { session with closers := session.closers.set k .done }
  | some .done => session
  | none => session

/-- The spawned coroutines that have not ended. -/
def unfinished (session : WebSocketSession) : Nat :=
  session.writers.countP (fun writer => writer.phase ≠ .done) +
    session.closers.countP (fun phase => phase ≠ .done)

/-- `run()` has finished and the coroutines have ended. -/
def Ended (session : WebSocketSession) : Prop :=
  session.stage = .finished ∧ session.unfinished = 0

instance (session : WebSocketSession) : Decidable session.Ended :=
  inferInstanceAs (Decidable (_ ∧ _))

end WebSocketSession

/-- The sessions there have been, by number, and the `WebSocketManager`: the numbers of the sessions
in `sessions_`, and `session_count_`. -/
structure WebSocketServer where
  sessions : List WebSocketSession
  registry : List Nat
  sessionCount : Nat
  terminated : Bool
  deriving DecidableEq

namespace WebSocketServer

/-- A server without sessions. -/
def empty : WebSocketServer := ⟨[], [], 0, false⟩

/-- Change a session. -/
def onSession (server : WebSocketServer) (id : Nat) (f : WebSocketSession → WebSocketSession) :
    WebSocketServer :=
  { server with sessions := server.sessions.modify id f }

/-- A call on a session that someone still refers to. -/
def onLive (server : WebSocketServer) (id : Nat) (f : WebSocketSession → WebSocketSession) :
    WebSocketServer :=
  server.onSession id (fun session => if session.destroyed then session else f session)

/-- `add_session`. -/
def addSession (server : WebSocketServer) (id : Nat) : WebSocketServer :=
  { server with
    registry := server.registry ++ [id]
    sessionCount := (server.registry ++ [id]).length }

/-- The loop of `remove_session`: the last element takes the place of the one that is removed. -/
def swapRemove (id : Nat) (registry : List Nat) : List Nat :=
  match registry.idxOf? id with
  | some place => (registry.set place (registry.getLast?.getD id)).dropLast
  | none => registry

/-- `remove_session`. -/
def removeSession (server : WebSocketServer) (id : Nat) : WebSocketServer :=
  { server with
    registry := swapRemove id server.registry
    sessionCount := (swapRemove id server.registry).length }

/-- The owners of a session. -/
def owners (server : WebSocketServer) (id : Nat) (session : WebSocketSession) : Nat :=
  server.registry.count id + (if session.stage.holds then 1 else 0) + session.unfinished

/-- `shared_from_this()`: it throws when there is no owner. -/
def sharedFromThis (owners : Nat) : Bool := 0 < owners

/-- The close handler that `handle_websocket` sets. -/
def closeHandler (server : WebSocketServer) (id : Nat) : WebSocketServer :=
  (server.onSession id (fun session =>
    { session with closeCalls := session.closeCalls + 1 })).removeSession id

/-- The destructor. What it throws terminates the process. -/
def destroy (server : WebSocketServer) (id : Nat) (session : WebSocketSession) : WebSocketServer :=
  let destroyed := server.onSession id (fun session => { session with destroyed := true })
  if session.closeHandler then
    if sharedFromThis (server.owners id session) then destroyed.closeHandler id
    else { destroyed with terminated := true }
  else destroyed

/-- An owner of a session has gone: the object is destroyed when it was the last one. -/
def release (server : WebSocketServer) (id : Nat) : WebSocketServer :=
  match server.sessions[id]? with
  | none => server
  | some session =>
      if session.destroyed || 0 < server.owners id session then server
      else server.destroy id session

/-- `broadcast` and `broadcast_binary`: a call for every session of the vector. -/
def forEach (server : WebSocketServer) (f : WebSocketSession → WebSocketSession) :
    WebSocketServer :=
  server.registry.foldl (fun server id => server.onSession id f) server

/-- What a call keeps for each session, the loop over the vector keeps. -/
theorem forEach_invariant (Inv : WebSocketServer → Prop) {f : WebSocketSession → WebSocketSession}
    (hf : ∀ server id, Inv server → Inv (server.onSession id f)) {server : WebSocketServer}
    (h : Inv server) : Inv (server.forEach f) := by
  rw [forEach]
  generalize server.registry = ids
  induction ids generalizing server with
  | nil => exact h
  | cons id ids ih => exact ih (hf server id h)

/-- What happens next. -/
inductive Event where
  /-- An upgrade request was read, and a session made for it. -/
  | upgrade
  /-- The handshake of a session ends; when it succeeds the handlers are set. -/
  | handshake (id : Nat) (ok : Bool)
  /-- The handshake succeeds, and the lookup of the route throws before they are all set. -/
  | lookupThrows (id : Nat)
  /-- The connect handler ends; when it returns, `add_session` and `run()` follow. -/
  | connect (id : Nat) (returns : Bool)
  /-- The stream of a session is closed. -/
  | closed (id : Nat)
  /-- `run()` ends, by the end of the stream or an exception of a handler. -/
  | finish (id : Nat)
  | send (id : Nat) (message : Text)
  | sendBinary (id : Nat) (data : Text)
  | broadcast (message : Text)
  | broadcastBinary (data : Text)
  | close (id : Nat)
  | closeAll
  /-- A spawned coroutine goes on. -/
  | turnWriter (id k : Nat)
  | turnCloser (id k : Nat)
  deriving DecidableEq

/-- The handshake of `handle_websocket`. -/
def handshake (ok : Bool) (session : WebSocketSession) : WebSocketSession :=
  if session.stage = .created then
    if ok then { session with stage := .connecting, isOpen := true, closeHandler := true }
    else { session with stage := .failed }
  else session

/-- The end of `handle_websocket` by an exception of the lookup, with no close handler yet. -/
def failLookup (session : WebSocketSession) : WebSocketSession :=
  if session.stage = .created then { session with stage := .failed, isOpen := true } else session

/-- The end of `handle_websocket` by an exception of the connect handler. -/
def failConnect (session : WebSocketSession) : WebSocketSession :=
  if session.stage = .connecting then { session with stage := .failed } else session

/-- The end of `run()`. -/
def finish (session : WebSocketSession) : WebSocketSession :=
  if session.stage = .running then { session with stage := .finished } else session

/-- The stage of a session. -/
def stageOf (server : WebSocketServer) (id : Nat) : Option Stage :=
  server.sessions[id]?.map WebSocketSession.stage

/-- One step. Once the process is terminated there are no more. -/
def step (server : WebSocketServer) (event : Event) : WebSocketServer :=
  if server.terminated then server
  else
    match event with
    | .upgrade => { server with sessions := server.sessions ++ [.new] }
    | .handshake id ok => (server.onSession id (handshake ok)).release id
    | .lookupThrows id => (server.onSession id failLookup).release id
    | .connect id true =>
        if server.stageOf id = some .connecting then
          (server.onSession id (fun session => { session with stage := .running })).addSession id
        else server
    | .connect id false => (server.onSession id failConnect).release id
    | .closed id => server.onSession id (fun session => { session with isOpen := false })
    | .finish id => (server.onSession id finish).release id
    | .send id message => server.onLive id (fun session => session.send message)
    | .sendBinary id data => server.onLive id (fun session => session.sendBinary data)
    | .broadcast message => server.forEach (fun session => session.send message)
    | .broadcastBinary data => server.forEach (fun session => session.sendBinary data)
    | .close id => server.onLive id WebSocketSession.close
    | .closeAll => server.forEach WebSocketSession.close
    | .turnWriter id k => (server.onSession id (fun session => session.turnWriter k)).release id
    | .turnCloser id k => (server.onSession id (fun session => session.turnCloser k)).release id

end WebSocketServer

end Brazier
