import Brazier.ProofLib.Runs
import Brazier.ProofLib.Slots

/-!
# The connection count

`handle_connection`, `handle_websocket` and `accept_loop` of `src/WebSocketServer.cpp`, as far as
they change `connection_count_`. Every accepted socket has a coroutine, and an event is a coroutine
that goes on to its next `co_await` or out of a call. An exception that leaves `handle_websocket`
ends the coroutine at once, without the decrement, and `net::detached` drops it. `count_exact_iff`
says that the count is exact throughout a run exactly when that never happens.
-/

namespace Brazier

open ProofLib

/-- How far a `handle_connection` is: not resumed yet, in the `async_read` of the request, in the
`async_write` of the refusal, past the handshake, in `run()`, past `handle_websocket`, ended, or
left by an exception. -/
inductive HandlingStage where
  | spawned
  | reading
  | refusing
  | connecting
  | running
  | returned
  | ended
  | left
  deriving DecidableEq

/-- The coroutine has started and not yet ended. -/
def HandlingStage.live : HandlingStage → Bool
  | .reading | .refusing | .connecting | .running | .returned => true
  | .spawned | .ended | .left => false

/-- How a call or an awaited operation ends. When its exception destroys a session that has its
close handler already, the destructor throws and the process is terminated. -/
inductive CallEnd where
  | returns
  | throws
  | terminates
  deriving DecidableEq

/-- What is read from the socket: nothing, as the request is malformed or truncated, a request
without upgrade, or an upgrade request, whose handshake succeeds or not. -/
inductive RequestRead where
  | throws
  | plain
  | upgrade (accepted : Bool)
  deriving DecidableEq

/-- What happens next. -/
inductive CountEvent where
  /-- `accept_loop` spawns a coroutine for a socket. -/
  | accept
  /-- A coroutine starts. -/
  | start (k : Nat)
  | read (k : Nat) (request : RequestRead)
  /-- The response 400 is written. -/
  | refuse (k : Nat) (written : Bool)
  /-- The route is looked up, its connect handler called and the session added. -/
  | connect (k : Nat) (how : CallEnd)
  /-- `run()` ends. It handles the exceptions that are an `std::exception`, not those of the error
  handler. -/
  | run (k : Nat) (how : CallEnd)
  /-- `handle_connection` goes on behind `handle_websocket`. -/
  | finish (k : Nat)
  deriving DecidableEq

/-- The coroutines in the order of their sockets, and `connection_count_`. -/
structure ConnectionCount where
  handlings : List HandlingStage := []
  connectionCount : Int := 0
  terminated : Bool := false
  deriving DecidableEq

namespace ConnectionCount

variable {s : ConnectionCount}

/-- The coroutine is at a stage. -/
def At (s : ConnectionCount) (k : Nat) (stage : HandlingStage) : Prop :=
  s.handlings[k]? = some stage

instance (k : Nat) (stage : HandlingStage) : Decidable (s.At k stage) :=
  inferInstanceAs (Decidable (_ = _))

/-- The coroutine goes on to a stage. -/
def goTo (s : ConnectionCount) (k : Nat) (stage : HandlingStage) : ConnectionCount :=
  { s with handlings := s.handlings.modify k fun _ => stage }

/-- A step of `handle_websocket`, from one stage to another. -/
def move (s : ConnectionCount) (k : Nat) (before after : HandlingStage) : ConnectionCount :=
  if s.At k before then s.goTo k after else s

/-- What a call does that ends somehow. -/
def endCall (s : ConnectionCount) (k : Nat) (before after : HandlingStage) :
    CallEnd → ConnectionCount
  | .returns => s.move k before after
  | .throws => s.move k before .left
  | .terminates => if s.At k before then { s with terminated := true } else s

/-- One step. In a process that is terminated there are none. -/
def step (s : ConnectionCount) (event : CountEvent) : ConnectionCount :=
  if s.terminated then s
  else
    match event with
    | .accept => { s with handlings := s.handlings ++ [.spawned] }
    | .start k =>
        if s.At k .spawned then
          { s.goTo k .reading with connectionCount := s.connectionCount + 1 }
        else s
    | .read k .throws => s.move k .reading .left
    | .read k .plain => s.move k .reading .refusing
    | .read k (.upgrade false) => s.move k .reading .returned
    | .read k (.upgrade true) => s.move k .reading .connecting
    | .refuse k true => s.move k .refusing .returned
    | .refuse k false => s.move k .refusing .left
    | .connect k how => s.endCall k .connecting .running how
    | .run k how => s.endCall k .running .returned how
    | .finish k =>
        if s.At k .returned then
          { s.goTo k .ended with connectionCount := s.connectionCount - 1 }
        else s

/-- The number of coroutines that have started and not yet ended. -/
def live (s : ConnectionCount) : Nat := s.handlings.countP HandlingStage.live

/-- The count is the number of the coroutines that have started and not yet ended, and so 0 when
there are none. -/
def Exact (s : ConnectionCount) : Prop :=
  s.connectionCount = s.live ∧ (s.live = 0 → s.connectionCount = 0)

/-- The operation that the event ends by an exception, with the coroutine. -/
def exceptionOf : CountEvent → Option (Nat × HandlingStage)
  | .read k .throws => some (k, .reading)
  | .refuse k false => some (k, .refusing)
  | .connect k .throws => some (k, .connecting)
  | .run k .throws => some (k, .running)
  | _ => none

/-- An exception leaves `handle_websocket`. -/
def Escapes (s : ConnectionCount) (event : CountEvent) : Prop :=
  s.terminated = false ∧ ∃ k stage, exceptionOf event = some (k, stage) ∧ s.At k stage

/-- What ends without an exception lets none escape. -/
theorem not_escapes {event : CountEvent} (h : exceptionOf event = none) : ¬ s.Escapes event := by
  intro hescapes
  obtain ⟨-, k, stage, hsome, -⟩ := hescapes
  rw [h] at hsome
  cases hsome

/-- An exception escapes from the coroutine that is at the operation. -/
theorem escapes_iff (hterminated : s.terminated = false) {event : CountEvent} {k : Nat}
    {stage : HandlingStage} (h : exceptionOf event = some (k, stage)) :
    s.Escapes event ↔ s.At k stage := by
  simp [Escapes, hterminated, h]

theorem exact_iff : s.Exact ↔ s.connectionCount = s.live := by
  refine ⟨fun h => h.1, fun h => ⟨h, fun hzero => ?_⟩⟩
  rw [h, hzero]
  rfl

/-- The live coroutines after one has moved. -/
theorem live_goTo {k : Nat} {before : HandlingStage} (h : s.At k before) (after : HandlingStage) :
    (s.goTo k after).live + before.live.toNat = s.live + after.live.toNat :=
  countP_modify (fun _ => after) h

/-- A step between two stages of a coroutine that is live before it. -/
theorem exact_move_iff (hs : s.Exact) (k : Nat) {before : HandlingStage}
    (hbefore : before.live = true) (after : HandlingStage) :
    (s.move k before after).Exact ↔ (s.At k before → after.live = true) := by
  unfold move
  split
  · next hat =>
      have hlive := live_goTo hat after
      have hcount : (s.goTo k after).connectionCount = s.live := hs.1
      rw [exact_iff, hcount]
      rw [hbefore, Bool.toNat_true] at hlive
      cases hafter : after.live with
      | true =>
          rw [hafter, Bool.toNat_true] at hlive
          exact iff_of_true (by omega) fun _ => rfl
      | false =>
          rw [hafter, Bool.toNat_false] at hlive
          exact iff_of_false (by omega) fun h => nomatch h hat
  · next hat => exact iff_of_true hs fun h => absurd h hat

/-- A coroutine that starts is counted. -/
theorem exact_start (hs : s.Exact) {k : Nat} (hat : s.At k .spawned) :
    { s.goTo k .reading with connectionCount := s.connectionCount + 1 }.Exact := by
  have hlive : (s.goTo k .reading).live = s.live + 1 := live_goTo hat .reading
  have hcount : s.connectionCount = s.live := hs.1
  refine exact_iff.mpr ?_
  change s.connectionCount + 1 = ((s.goTo k .reading).live : Int)
  omega

/-- A coroutine that ends is taken off the count. -/
theorem exact_finish (hs : s.Exact) {k : Nat} (hat : s.At k .returned) :
    { s.goTo k .ended with connectionCount := s.connectionCount - 1 }.Exact := by
  have hlive : (s.goTo k .ended).live + 1 = s.live := live_goTo hat .ended
  have hcount : s.connectionCount = s.live := hs.1
  refine exact_iff.mpr ?_
  change s.connectionCount - 1 = ((s.goTo k .ended).live : Int)
  omega

/-- A step that the coroutine does not leave keeps the count exact. -/
theorem exact_move (hs : s.Exact) (k : Nat) {before after : HandlingStage}
    (hbefore : before.live = true) (hafter : after.live = true) : (s.move k before after).Exact :=
  (exact_move_iff hs k hbefore after).mpr fun _ => hafter

/-- A step by which the coroutine is left breaks it. -/
theorem exact_move_left_iff (hs : s.Exact) (k : Nat) {before : HandlingStage}
    (hbefore : before.live = true) : (s.move k before .left).Exact ↔ ¬ s.At k before := by
  rw [exact_move_iff hs k hbefore]
  exact ⟨fun h hat => Bool.false_ne_true (h hat), fun h hat => absurd hat h⟩

/-- A terminated process keeps its count. -/
theorem exact_terminated (hs : s.Exact) (k : Nat) (before after : HandlingStage) :
    (s.endCall k before after .terminates).Exact := by
  unfold endCall
  dsimp only
  split
  · exact hs
  · exact hs

/-- A step keeps the count exact unless an exception leaves `handle_websocket`. -/
theorem exact_step_iff (hs : s.Exact) (event : CountEvent) :
    (s.step event).Exact ↔ ¬ s.Escapes event := by
  unfold step
  cases hterminated : s.terminated with
  | true =>
      refine iff_of_true hs fun h => ?_
      rw [h.1] at hterminated
      cases hterminated
  | false =>
      rw [if_neg Bool.false_ne_true]
      cases event with
      | accept =>
          refine iff_of_true (exact_iff.mpr ?_) (not_escapes rfl)
          have hcount : s.connectionCount = s.live := hs.1
          simpa [live, HandlingStage.live] using hcount
      | start k =>
          refine iff_of_true ?_ (not_escapes rfl)
          dsimp only
          split
          · next hat => exact exact_start hs hat
          · exact hs
      | read k request =>
          cases request with
          | throws =>
              rw [escapes_iff hterminated rfl]
              exact exact_move_left_iff hs k rfl
          | plain => exact iff_of_true (exact_move hs k rfl rfl) (not_escapes rfl)
          | upgrade accepted =>
              cases accepted with
              | true => exact iff_of_true (exact_move hs k rfl rfl) (not_escapes rfl)
              | false => exact iff_of_true (exact_move hs k rfl rfl) (not_escapes rfl)
      | refuse k written =>
          cases written with
          | true => exact iff_of_true (exact_move hs k rfl rfl) (not_escapes rfl)
          | false =>
              rw [escapes_iff hterminated rfl]
              exact exact_move_left_iff hs k rfl
      | connect k how =>
          cases how with
          | returns => exact iff_of_true (exact_move hs k rfl rfl) (not_escapes rfl)
          | throws =>
              rw [escapes_iff hterminated rfl]
              exact exact_move_left_iff hs k rfl
          | terminates => exact iff_of_true (exact_terminated hs k _ _) (not_escapes rfl)
      | run k how =>
          cases how with
          | returns => exact iff_of_true (exact_move hs k rfl rfl) (not_escapes rfl)
          | throws =>
              rw [escapes_iff hterminated rfl]
              exact exact_move_left_iff hs k rfl
          | terminates => exact iff_of_true (exact_terminated hs k _ _) (not_escapes rfl)
      | finish k =>
          refine iff_of_true ?_ (not_escapes rfl)
          dsimp only
          split
          · next hat => exact exact_finish hs hat
          · exact hs

/-- The count is exact in every state of a run exactly when no exception leaves `handle_websocket`
in it. -/
theorem count_exact_iff (events : List CountEvent) :
    Throughout step (fun s event => (s.step event).Exact) {} events ↔
      Throughout step (fun s event => ¬ s.Escapes event) {} events :=
  throughout_post_iff (exact_iff.mpr rfl) (fun _ event hs => exact_step_iff hs event) events

/-- A request that is not HTTP. -/
theorem malformed_request_counted :
    ¬ Throughout step (fun s event => (s.step event).Exact) {}
      [.accept, .start 0, .read 0 .throws] := by
  intro h
  obtain ⟨-, -, hexact, -⟩ := h
  exact absurd hexact.1 (by decide)

end ConnectionCount

end Brazier
