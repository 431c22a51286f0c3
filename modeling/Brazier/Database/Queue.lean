import Brazier.Text
import Brazier.ProofLib.Runs
import Mathlib.Logic.Function.Basic

/-!
# The queue

`Queue` of `src/Database/Queue.cpp` on a Redis server, where a queue is the list at its key. Keys
and values are formatted with `%s`, so the server gets them up to their first NUL. `push` does not
look at the type of the reply. `exactlyOnce_iff` says in which runs every queue hands out what was
pushed, each value once and in order.
-/

namespace Brazier

/-- A reply of the server. -/
inductive RedisReply where
  | integer (n : Int)
  | string (value : Text)
  | nil
  | error (message : Text)
  deriving DecidableEq

/-- The commands that are sent. -/
inductive RedisCommand where
  | rpush (key value : Text)
  | lpop (key : Text)
  | llen (key : Text)
  deriving DecidableEq

/-- What becomes of a command. One whose reply is lost may have been done. -/
inductive RedisOutcome where
  | done
  | refused (message : Text)
  | lost (executed : Bool)
  deriving DecidableEq

/-- The lists of a server, by their keys. -/
abbrev RedisServer := Text → List Text

/-- A command that is done. -/
def RedisServer.exec (server : RedisServer) : RedisCommand → RedisReply × RedisServer
  | .rpush key value =>
      (.integer (server key ++ [value]).length,
        Function.update server key (server key ++ [value]))
  | .lpop key =>
      match server key with
      | [] => (.nil, server)
      | value :: rest => (.string value, Function.update server key rest)
  | .llen key => (.integer (server key).length, server)

/-- The connection of the class: whether `context_` is set, and the server behind it. -/
structure Queue where
  context : Bool
  server : RedisServer

open ProofLib

namespace Queue

/-- `redisCommand`. A null reply is `none`. -/
def redisCommand (queue : Queue) (outcome : RedisOutcome) (command : RedisCommand) :
    Option RedisReply × Queue :=
  match outcome with
  | .done => (some (queue.server.exec command).1,
      { queue with server := (queue.server.exec command).2 })
  | .refused message => (some (.error message), queue)
  | .lost true => (none, { queue with server := (queue.server.exec command).2 })
  | .lost false => (none, queue)

/-- The first half of every method: the reply to its command. -/
def request (queue : Queue) (outcome : RedisOutcome) (name : Text) (command : RedisCommand) :
    Except Text RedisReply × Queue :=
  if queue.context then
    match queue.redisCommand outcome command with
    | (none, queue) =>
        (.error (("Failed to execute " : Text) ++ name ++ (" command." : Text)), queue)
    | (some reply, queue) => (.ok reply, queue)
  else (.error "Not connected to Redis.", queue)

/-- `push`. -/
def push (queue : Queue) (outcome : RedisOutcome) (queueName value : Text) :
    Except Text Unit × Queue :=
  let (reply, queue) :=
    queue.request outcome "RPUSH" (.rpush (cString queueName) (cString value))
  (reply.map (fun _ => ()), queue)

/-- The branches of `pop` on the type of the reply. -/
def result : RedisReply → Except Text Text
  | .string value => .ok value
  | .nil => .ok []
  | _ => .error "Unexpected reply type from Redis."

/-- `pop`. -/
def pop (queue : Queue) (outcome : RedisOutcome) (queueName : Text) : Except Text Text × Queue :=
  let (reply, queue) := queue.request outcome "LPOP" (.lpop (cString queueName))
  (reply.bind result, queue)

/-- `reply->integer`, which is zero for the other types. -/
def integerOf : RedisReply → Int
  | .integer n => n
  | _ => 0

/-- `length`. -/
def length (queue : Queue) (outcome : RedisOutcome) (queueName : Text) :
    Except Text Int × Queue :=
  let (reply, queue) := queue.request outcome "LLEN" (.llen (cString queueName))
  (reply.map integerOf, queue)

/-! ## Runs -/

/-- A call of a method. -/
inductive Call where
  | push (queueName value : Text)
  | pop (queueName : Text)
  | length (queueName : Text)
  deriving DecidableEq

/-- The connection with what has been pushed to each queue and popped from it, by the calls that
returned. A read of an empty queue pops nothing. -/
structure History where
  queue : Queue
  pushed : Text → List Text
  popped : Text → List Text

/-- The start of a run, with empty queues. -/
def History.start (context : Bool) : History := ⟨⟨context, fun _ => []⟩, fun _ => [], fun _ => []⟩

/-- Add a value to a record. -/
def record (lists : Text → List Text) (queueName value : Text) : Text → List Text :=
  Function.update lists queueName (lists queueName ++ [value])

/-- A call, and what is to be noted of it. -/
def History.step (h : History) : Call × RedisOutcome → History
  | (.push queueName value, outcome) =>
      let (returned, queue) := h.queue.push outcome queueName value
      match returned with
      | .ok () => { h with queue, pushed := record h.pushed queueName value }
      | .error _ => { h with queue }
  | (.pop queueName, outcome) =>
      let (reply, _) := h.queue.request outcome "LPOP" (.lpop (cString queueName))
      let (returned, queue) := h.queue.pop outcome queueName
      match reply, returned with
      | .ok (.string _), .ok value => { h with queue, popped := record h.popped queueName value }
      | _, _ => { h with queue }
  | (.length queueName, outcome) =>
      { h with queue := (h.queue.length outcome queueName).2 }

/-- What was pushed to a queue is what was popped from it and then what is queued, and the result
of a pop tells each queued value from an empty queue. -/
structure ExactlyOnce (h : History) : Prop where
  fifo : ∀ queueName, h.pushed queueName = h.popped queueName ++ h.queue.server queueName
  told : ∀ queueName, ∀ value ∈ h.queue.server queueName,
    result (.string value) ≠ result .nil

/-- A push that is done or answered was done and answered, with a name and a value that have no NUL,
and the value is not empty. A pop with a NUL in the name finds nothing under the name in front of
it, and so does one that is done without an answer. -/
def KeepsOrder (h : History) : Call × RedisOutcome → Prop
  | (.push queueName value, outcome) =>
      h.queue.context = true → outcome ≠ .lost false →
        outcome = .done ∧ '\x00' ∉ queueName ∧ '\x00' ∉ value ∧ value ≠ []
  | (.pop queueName, outcome) =>
      h.queue.context = true → outcome = .lost true ∨ outcome = .done ∧ '\x00' ∈ queueName →
        h.queue.server (cString queueName) = []
  | (.length _, _) => True

/-! ## One call -/

theorem exactlyOnce_start (context : Bool) : ExactlyOnce (History.start context) :=
  ⟨fun _ => rfl, fun _ _ hvalue => absurd hvalue List.not_mem_nil⟩

/-- The result of a pop tells a value from an empty queue unless the value is empty. -/
theorem told_iff (value : Text) : result (.string value) ≠ result .nil ↔ value ≠ [] := by
  show (Except.ok value : Except Text Text) ≠ Except.ok [] ↔ value ≠ []
  rw [ne_eq, Except.ok.injEq]

variable {h : History}

/-- A command on a connection that is not there, or that does not reach the server. -/
theorem request_of_not_reached {queue : Queue} {outcome : RedisOutcome}
    (hreach : queue.context = false ∨ outcome = .lost false) (name : Text)
    (command : RedisCommand) :
    ∃ e, queue.request outcome name command = (.error e, queue) := by
  rw [request]
  cases hcontext : queue.context with
  | false => exact ⟨_, rfl⟩
  | true =>
      obtain hfalse | rfl := hreach
      · rw [hcontext] at hfalse
        cases hfalse
      · exact ⟨_, rfl⟩

/-- A command that is answered with an error. -/
theorem request_refused {queue : Queue} (hcontext : queue.context = true) (message name : Text)
    (command : RedisCommand) :
    queue.request (.refused message) name command = (.ok (.error message), queue) := by
  rw [request, if_pos hcontext]
  rfl

/-- A command that is done. -/
theorem request_done {queue : Queue} (hcontext : queue.context = true) (name : Text)
    (command : RedisCommand) :
    queue.request .done name command =
      (.ok (queue.server.exec command).1,
        { queue with server := (queue.server.exec command).2 }) := by
  rw [request, if_pos hcontext]
  rfl

/-- A command that is done and not answered. -/
theorem request_lost {queue : Queue} (hcontext : queue.context = true) (name : Text)
    (command : RedisCommand) :
    ∃ e, queue.request (.lost true) name command =
      (.error e, { queue with server := (queue.server.exec command).2 }) := by
  rw [request, if_pos hcontext]
  exact ⟨_, rfl⟩

/-- A call that does not reach the server changes nothing. -/
theorem step_of_not_reached {outcome : RedisOutcome}
    (hreach : h.queue.context = false ∨ outcome = .lost false) (call : Call) :
    h.step (call, outcome) = h := by
  cases call with
  | push queueName value =>
      obtain ⟨e, hrequest⟩ := request_of_not_reached hreach "RPUSH"
        (.rpush (cString queueName) (cString value))
      rw [History.step, push, hrequest]
      rfl
  | pop queueName =>
      obtain ⟨e, hrequest⟩ := request_of_not_reached hreach "LPOP" (.lpop (cString queueName))
      rw [History.step, pop, hrequest]
  | length queueName =>
      obtain ⟨e, hrequest⟩ := request_of_not_reached hreach "LLEN" (.llen (cString queueName))
      rw [History.step, length, hrequest]

/-- A push that is answered with an error returns, and nothing is queued. -/
theorem step_push_refused (hcontext : h.queue.context = true) (queueName value message : Text) :
    h.step (.push queueName value, .refused message) =
      { h with pushed := record h.pushed queueName value } := by
  rw [History.step, push, request_refused hcontext]
  rfl

/-- A push that is done. -/
theorem step_push_done (hcontext : h.queue.context = true) (queueName value : Text) :
    h.step (.push queueName value, .done) =
      { h with
        queue.server := record h.queue.server (cString queueName) (cString value)
        pushed := record h.pushed queueName value } := by
  rw [History.step, push, request_done hcontext]
  rfl

/-- A push that is done and not answered throws, and the value is queued. -/
theorem step_push_lost (hcontext : h.queue.context = true) (queueName value : Text) :
    h.step (.push queueName value, .lost true) =
      { h with
        queue.server := record h.queue.server (cString queueName) (cString value) } := by
  obtain ⟨e, hrequest⟩ := request_lost hcontext "RPUSH"
    (.rpush (cString queueName) (cString value))
  rw [History.step, push, hrequest]
  rfl

/-- A pop that is done and not answered throws. -/
theorem step_pop_lost (hcontext : h.queue.context = true) (queueName : Text) :
    h.step (.pop queueName, .lost true) =
      { h with queue.server := (h.queue.server.exec (.lpop (cString queueName))).2 } := by
  obtain ⟨e, hrequest⟩ := request_lost hcontext "LPOP" (.lpop (cString queueName))
  rw [History.step, pop, hrequest]

/-- A pop that is answered with an error throws. -/
theorem step_pop_refused (hcontext : h.queue.context = true) (queueName message : Text) :
    h.step (.pop queueName, .refused message) = h := by
  rw [History.step, pop, request_refused hcontext]

/-- A pop of an empty queue. -/
theorem step_pop_empty (hcontext : h.queue.context = true) {queueName : Text}
    (hempty : h.queue.server (cString queueName) = []) :
    h.step (.pop queueName, .done) = h := by
  rw [History.step, pop, request_done hcontext, RedisServer.exec, hempty]

/-- A pop of a value. -/
theorem step_pop_value (hcontext : h.queue.context = true) {queueName value : Text}
    {rest : List Text} (hvalue : h.queue.server (cString queueName) = value :: rest) :
    h.step (.pop queueName, .done) =
      { h with
        queue.server := Function.update h.queue.server (cString queueName) rest
        popped := record h.popped queueName value } := by
  rw [History.step, pop, request_done hcontext, RedisServer.exec, hvalue]
  rfl

/-- `length` changes nothing. -/
theorem step_length (queueName : Text) (outcome : RedisOutcome) :
    h.step (.length queueName, outcome) = h := by
  cases hcontext : h.queue.context with
  | false => exact step_of_not_reached (Or.inl hcontext) _
  | true =>
      cases outcome with
      | lost executed =>
          cases executed with
          | false => exact step_of_not_reached (Or.inr rfl) _
          | true =>
              obtain ⟨e, hrequest⟩ := request_lost hcontext "LLEN" (.llen (cString queueName))
              rw [History.step, length, hrequest]
              rfl
      | refused message =>
          rw [History.step, length, request_refused hcontext]
      | done =>
          rw [History.step, length, request_done hcontext]
          rfl

/-! ## The order -/

theorem record_self (lists : Text → List Text) (queueName value : Text) :
    record lists queueName value queueName = lists queueName ++ [value] :=
  Function.update_self queueName _ lists

theorem record_of_ne (lists : Text → List Text) {queueName other : Text}
    (hne : other ≠ queueName) (value : Text) :
    record lists queueName value other = lists other :=
  Function.update_of_ne hne _ lists

/-- A name with a NUL is not the name that the server gets. -/
theorem cString_ne {text : Text} (hnul : '\x00' ∈ text) : text ≠ cString text := by
  intro heq
  exact not_mem_cString text (heq ▸ hnul)

/-- A push keeps the order when its name and its value are sent as they are, and the value can be
told from an empty queue. -/
theorem exactlyOnce_push_iff (honce : ExactlyOnce h) (hcontext : h.queue.context = true)
    (queueName value : Text) :
    ExactlyOnce (h.step (.push queueName value, .done)) ↔
      '\x00' ∉ queueName ∧ '\x00' ∉ value ∧ value ≠ [] := by
  rw [step_push_done hcontext]
  constructor
  · intro hafter
    have hfifo : record h.pushed queueName value queueName =
        h.popped queueName ++
          record h.queue.server (cString queueName) (cString value) queueName :=
      hafter.fifo queueName
    rw [record_self, honce.fifo queueName, List.append_assoc,
      List.append_cancel_left_eq] at hfifo
    have hname : '\x00' ∉ queueName := by
      intro hnul
      -- the value went to the queue whose name ends at the NUL
      rw [record_of_ne _ (cString_ne hnul)] at hfifo
      simp at hfifo
    rw [cString_of_not_mem hname, record_self, List.append_cancel_left_eq] at hfifo
    have hvalue : value = cString value := (List.cons.inj hfifo).1
    refine ⟨hname, fun hnul => cString_ne hnul hvalue, ?_⟩
    rw [← told_iff]
    refine hafter.told queueName value ?_
    show value ∈ record h.queue.server (cString queueName) (cString value) queueName
    rw [cString_of_not_mem hname, record_self, ← hvalue]
    exact List.mem_append_right _ (List.mem_singleton_self value)
  · intro ⟨hname, hvalue, hne⟩
    rw [cString_of_not_mem hname, cString_of_not_mem hvalue]
    constructor
    · intro other
      show record h.pushed queueName value other =
        h.popped other ++ record h.queue.server queueName value other
      by_cases hother : other = queueName
      · subst hother
        rw [record_self, record_self, honce.fifo other, List.append_assoc]
      · rw [record_of_ne _ hother, record_of_ne _ hother, honce.fifo other]
    · intro other queued hqueued
      have hmem : queued ∈ record h.queue.server queueName value other := hqueued
      by_cases hother : other = queueName
      · subst hother
        rw [record_self, List.mem_append, List.mem_singleton] at hmem
        obtain hmem | rfl := hmem
        · exact honce.told other queued hmem
        · exact (told_iff queued).mpr hne
      · rw [record_of_ne _ hother] at hmem
        exact honce.told other queued hmem

/-- A pop of a value keeps the order when the server gets the name as it is. -/
theorem exactlyOnce_pop_iff (honce : ExactlyOnce h) (hcontext : h.queue.context = true)
    {queueName value : Text} {rest : List Text}
    (hvalue : h.queue.server (cString queueName) = value :: rest) :
    ExactlyOnce (h.step (.pop queueName, .done)) ↔ '\x00' ∉ queueName := by
  rw [step_pop_value hcontext hvalue]
  constructor
  · intro hafter hnul
    have hfifo : h.pushed queueName = record h.popped queueName value queueName ++
        Function.update h.queue.server (cString queueName) rest queueName :=
      hafter.fifo queueName
    -- the value came from another queue, so one more was popped than was pushed
    rw [record_self, Function.update_of_ne (cString_ne hnul), honce.fifo queueName] at hfifo
    have hlength := congrArg List.length hfifo
    simp only [List.length_append, List.length_singleton] at hlength
    omega
  · intro hname
    rw [cString_of_not_mem hname] at hvalue ⊢
    constructor
    · intro other
      show h.pushed other = record h.popped queueName value other ++
        Function.update h.queue.server queueName rest other
      by_cases hother : other = queueName
      · subst hother
        rw [record_self, Function.update_self, honce.fifo other, hvalue, List.append_assoc]
        rfl
      · rw [record_of_ne _ hother, Function.update_of_ne hother, honce.fifo other]
    · intro other queued hqueued
      have hmem : queued ∈ Function.update h.queue.server queueName rest other := hqueued
      refine honce.told other queued ?_
      by_cases hother : other = queueName
      · subst hother
        rw [Function.update_self] at hmem
        rw [hvalue]
        exact List.mem_cons_of_mem value hmem
      · rwa [Function.update_of_ne hother] at hmem

/-- A push that is done and not answered has queued a value that no call has returned for. -/
theorem not_exactlyOnce_push_lost (honce : ExactlyOnce h) (hcontext : h.queue.context = true)
    (queueName value : Text) :
    ¬ ExactlyOnce (h.step (.push queueName value, .lost true)) := by
  rw [step_push_lost hcontext]
  intro hafter
  have hfifo : h.pushed (cString queueName) = h.popped (cString queueName) ++
      record h.queue.server (cString queueName) (cString value) (cString queueName) :=
    hafter.fifo (cString queueName)
  rw [record_self, honce.fifo, List.append_cancel_left_eq] at hfifo
  simp at hfifo

/-- A pop that is done and not answered keeps the order when there is nothing to pop. -/
theorem exactlyOnce_pop_lost_iff (honce : ExactlyOnce h) (hcontext : h.queue.context = true)
    (queueName : Text) :
    ExactlyOnce (h.step (.pop queueName, .lost true)) ↔
      h.queue.server (cString queueName) = [] := by
  rw [step_pop_lost hcontext, RedisServer.exec]
  cases hvalue : h.queue.server (cString queueName) with
  | nil => exact iff_of_true honce rfl
  | cons value rest =>
      refine iff_of_false (fun hafter => ?_) (List.cons_ne_nil value rest)
      have hfifo : h.pushed (cString queueName) = h.popped (cString queueName) ++
          Function.update h.queue.server (cString queueName) rest (cString queueName) :=
        hafter.fifo (cString queueName)
      -- the value is in no record and not on the server
      rw [Function.update_self, honce.fifo, hvalue, List.append_cancel_left_eq] at hfifo
      exact List.cons_ne_self value rest hfifo

/-- One call keeps the order exactly when `KeepsOrder` holds of it. -/
theorem exactlyOnce_step_iff (honce : ExactlyOnce h) (input : Call × RedisOutcome) :
    ExactlyOnce (h.step input) ↔ KeepsOrder h input := by
  obtain ⟨call, outcome⟩ := input
  cases hcontext : h.queue.context with
  | false =>
      rw [step_of_not_reached (Or.inl hcontext)]
      refine iff_of_true honce ?_
      have hno : ¬ h.queue.context = true := by simp [hcontext]
      cases call with
      | push queueName value => exact fun hyes => absurd hyes hno
      | pop queueName => exact fun hyes => absurd hyes hno
      | length queueName => trivial
  | true =>
      cases call with
      | length queueName =>
          rw [step_length]
          exact iff_of_true honce trivial
      | push queueName value =>
          cases outcome with
          | lost executed =>
              cases executed with
              | false =>
                  rw [step_of_not_reached (Or.inr rfl)]
                  exact iff_of_true honce fun _ hne => absurd rfl hne
              | true =>
                  refine iff_of_false (not_exactlyOnce_push_lost honce hcontext queueName value)
                    fun hkeep => ?_
                  cases (hkeep hcontext (by simp)).1
          | refused message =>
              rw [step_push_refused hcontext]
              refine iff_of_false ?_ fun hkeep => ?_
              · intro hafter
                have hfifo : record h.pushed queueName value queueName =
                    h.popped queueName ++ h.queue.server queueName := hafter.fifo queueName
                -- `push` has returned, but nothing was queued
                rw [record_self, ← honce.fifo queueName] at hfifo
                simp at hfifo
              · cases (hkeep hcontext (by simp)).1
          | done =>
              rw [exactlyOnce_push_iff honce hcontext]
              exact ⟨fun hkeep _ _ => ⟨rfl, hkeep⟩, fun hkeep => (hkeep hcontext (by simp)).2⟩
      | pop queueName =>
          cases outcome with
          | lost executed =>
              cases executed with
              | false =>
                  rw [step_of_not_reached (Or.inr rfl)]
                  exact iff_of_true honce fun _ hdone => by simp at hdone
              | true =>
                  rw [exactlyOnce_pop_lost_iff honce hcontext]
                  exact ⟨fun hempty _ _ => hempty, fun hkeep => hkeep hcontext (Or.inl rfl)⟩
          | refused message =>
              rw [step_pop_refused hcontext]
              exact iff_of_true honce fun _ hdone => by simp at hdone
          | done =>
              cases hvalue : h.queue.server (cString queueName) with
              | nil =>
                  rw [step_pop_empty hcontext hvalue]
                  exact iff_of_true honce fun _ _ => hvalue
              | cons value rest =>
                  rw [exactlyOnce_pop_iff honce hcontext hvalue]
                  constructor
                  · rintro hname - (hlost | ⟨-, hnul⟩)
                    · cases hlost
                    · exact absurd hnul hname
                  · intro hkeep hnul
                    rw [hkeep hcontext (Or.inr ⟨rfl, hnul⟩)] at hvalue
                    cases hvalue

/-- Every queue hands out what was pushed to it, each value once and in order, and each can be told
from an empty queue, after every call of a run exactly when `KeepsOrder` holds of every call. -/
theorem exactlyOnce_iff (context : Bool) (inputs : List (Call × RedisOutcome)) :
    Throughout History.step (fun h input => ExactlyOnce (h.step input)) (.start context) inputs ↔
      Throughout History.step KeepsOrder (.start context) inputs :=
  throughout_post_iff (exactlyOnce_start context)
    (fun _ input honce => exactlyOnce_step_iff honce input) inputs

/-- A push that is answered with an error returns, and its value is lost. -/
theorem refused_push_lost :
    ¬ Throughout History.step (fun h input => ExactlyOnce (h.step input)) (.start true)
      [(.push "jobs" "mail", .refused "OOM command not allowed")] := by
  intro ⟨hafter, _⟩
  have hfifo := hafter.fifo "jobs"
  rw [step_push_refused rfl] at hfifo
  cases hfifo

/-- The length of a queue is what was pushed and not yet popped. -/
theorem length_done (honce : ExactlyOnce h) (hcontext : h.queue.context = true) {queueName : Text}
    (hname : '\x00' ∉ queueName) :
    ∃ n : Int, (h.queue.length .done queueName).1 = .ok n ∧
      n + (h.popped queueName).length = (h.pushed queueName).length := by
  refine ⟨(h.queue.server queueName).length, ?_, ?_⟩
  · rw [length, request_done hcontext, cString_of_not_mem hname]
    rfl
  · rw [honce.fifo queueName, List.length_append]
    omega

end Queue

end Brazier
