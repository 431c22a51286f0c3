import Brazier.WebSocket.Sessions
import Brazier.ProofLib.Slots

/-!
# Whether sessions are released

A session leaves `sessions_` in its close handler, the close handler is called by its destructor,
and the destructor waits for the vector to let the session go. So a session that was added stays
there, and its close handler is never called.
-/

namespace Brazier

open ProofLib

namespace WebSocketServer

/-- What is promised: a session that has ended was closed once and is no longer registered, and the
count is that of the connections that live. -/
def Released (server : WebSocketServer) : Prop :=
  (∀ id session, server.sessions[id]? = some session → session.Ended →
    session.closeCalls = 1 ∧ id ∉ server.registry) ∧
  server.sessionCount =
    server.sessions.countP (fun session => session.stage.added && !decide session.Ended)

/-- What holds instead: the registered sessions are those that were ever added, each once, and no
close handler was called. -/
structure Registered (server : WebSocketServer) : Prop where
  nodup : server.registry.Nodup
  mem_iff : ∀ id, id ∈ server.registry ↔
    ∃ session, server.sessions[id]? = some session ∧ session.stage.added = true
  count : server.sessionCount = server.registry.length
  added : server.registry.length = server.sessions.countP (fun session => session.stage.added)
  uncalled : ∀ session ∈ server.sessions, session.closeCalls = 0

/-- A change of a session that neither adds it nor calls its close handler. -/
def Plain (f : WebSocketSession → WebSocketSession) : Prop :=
  ∀ session, (f session).stage.added = session.stage.added ∧
    (f session).closeCalls = session.closeCalls

theorem plain_sendFrame (frame : Frame) : Plain (fun session => session.sendFrame frame) := by
  intro session
  show (session.sendFrame frame).stage.added = _ ∧ (session.sendFrame frame).closeCalls = _
  rw [WebSocketSession.sendFrame]
  split <;> exact ⟨rfl, rfl⟩

theorem plain_close : Plain WebSocketSession.close := by
  intro session
  rw [WebSocketSession.close]
  split <;> exact ⟨rfl, rfl⟩

theorem plain_turnWriter (k : Nat) : Plain (fun session => session.turnWriter k) := by
  intro session
  show (session.turnWriter k).stage.added = _ ∧ (session.turnWriter k).closeCalls = _
  rw [WebSocketSession.turnWriter]
  split <;> exact ⟨rfl, rfl⟩

theorem plain_turnCloser (k : Nat) : Plain (fun session => session.turnCloser k) := by
  intro session
  show (session.turnCloser k).stage.added = _ ∧ (session.turnCloser k).closeCalls = _
  rw [WebSocketSession.turnCloser]
  split <;> exact ⟨rfl, rfl⟩

theorem plain_handshake (ok : Bool) : Plain (handshake ok) := by
  intro session
  rw [handshake]
  split
  next h => cases ok <;> exact ⟨by rw [h]; rfl, rfl⟩
  next => exact ⟨rfl, rfl⟩

theorem plain_failLookup : Plain failLookup := by
  intro session
  rw [failLookup]
  split
  next h => exact ⟨by rw [h]; rfl, rfl⟩
  next => exact ⟨rfl, rfl⟩

theorem plain_failConnect : Plain failConnect := by
  intro session
  rw [failConnect]
  split
  next h => exact ⟨by rw [h]; rfl, rfl⟩
  next => exact ⟨rfl, rfl⟩

theorem plain_finish : Plain finish := by
  intro session
  rw [finish]
  split
  next h => exact ⟨by rw [h]; rfl, rfl⟩
  next => exact ⟨rfl, rfl⟩

/-- A call on a live session changes what the call changes. -/
theorem Plain.live {f : WebSocketSession → WebSocketSession} (hf : Plain f) :
    Plain (fun session => if session.destroyed then session else f session) := by
  intro session
  show (if _ then session else f session).stage.added = _ ∧
    (if _ then session else f session).closeCalls = _
  split
  next => exact ⟨rfl, rfl⟩
  next => exact hf session

/-! ## The invariant -/

theorem registered_empty : Registered empty where
  nodup := List.nodup_nil
  mem_iff := by simp [empty]
  count := rfl
  added := rfl
  uncalled := by simp [empty]

/-- A plain change of a session. -/
theorem Registered.onSession {server : WebSocketServer} (h : Registered server) (id : Nat)
    {f : WebSocketSession → WebSocketSession} (hf : Plain f) :
    Registered (server.onSession id f) where
  nodup := h.nodup
  mem_iff place := by
    rw [show (server.onSession id f).registry = server.registry from rfl, h.mem_iff place]
    show _ ↔ ∃ session, (server.sessions.modify id f)[place]? = some session ∧ _
    rw [List.getElem?_modify]
    by_cases hid : id = place
    · simp [hid, (hf _).1]
    · simp [hid]
  count := h.count
  added := h.added.trans
    (countP_modify_of_keeps server.sessions id fun session => (hf session).1).symm
  uncalled := forall_mem_modify_of_keeps id (fun session hs => (hf session).2.trans hs) h.uncalled

/-- A call for every registered session. -/
theorem Registered.forEach {server : WebSocketServer} (h : Registered server)
    {f : WebSocketSession → WebSocketSession} (hf : Plain f) : Registered (server.forEach f) :=
  forEach_invariant Registered (fun _ id hregistered => hregistered.onSession id hf) h

/-- A new session. -/
theorem Registered.upgrade {server : WebSocketServer} (h : Registered server) :
    Registered { server with sessions := server.sessions ++ [.new] } where
  nodup := h.nodup
  mem_iff place := by
    rw [show ({ server with sessions := server.sessions ++ [.new] } : WebSocketServer).registry =
      server.registry from rfl, h.mem_iff place]
    constructor
    · intro ⟨session, hsession, hadded⟩
      have hplace : place < server.sessions.length := (List.getElem?_eq_some_iff.mp hsession).1
      exact ⟨session, List.getElem?_append_left hplace ▸ hsession, hadded⟩
    · intro ⟨session, hsession, hadded⟩
      rw [List.getElem?_append] at hsession
      split at hsession
      next => exact ⟨session, hsession, hadded⟩
      next =>
        obtain rfl := List.mem_singleton.mp (List.mem_of_getElem? hsession)
        cases hadded
  count := h.count
  added := by
    show server.registry.length = _
    rw [h.added]
    simp [WebSocketSession.new, Stage.added]
  uncalled session hs := by
    rw [List.mem_append, List.mem_singleton] at hs
    rcases hs with hs | rfl
    · exact h.uncalled session hs
    · rfl

/-- `add_session`. -/
theorem Registered.add {server : WebSocketServer} (h : Registered server) {id : Nat}
    (hstage : server.stageOf id = some .connecting) :
    Registered ((server.onSession id
      (fun session => { session with stage := .running })).addSession id) := by
  obtain ⟨session, hsession, hconnecting⟩ := Option.map_eq_some_iff.mp hstage
  have hnew : id ∉ server.registry := by
    rw [h.mem_iff]
    intro ⟨session', hsession', hadded⟩
    obtain rfl : session = session' := Option.some.inj (hsession.symm.trans hsession')
    rw [hconnecting] at hadded
    cases hadded
  refine ⟨?_, fun place => ?_, rfl, ?_, ?_⟩
  · refine List.nodup_append.mpr ⟨h.nodup, by simp, fun place hplace place' hplace' heq => ?_⟩
    exact hnew (List.mem_singleton.mp hplace' ▸ heq ▸ hplace)
  · show place ∈ server.registry ++ [id] ↔ ∃ session, (server.sessions.modify id _)[place]? =
      some session ∧ _
    rw [List.getElem?_modify, List.mem_append, List.mem_singleton, h.mem_iff]
    by_cases hid : id = place
    · subst hid
      simp [hsession, Stage.added]
    · simp [hid, Ne.symm hid]
  · show (server.registry ++ [id]).length = (server.sessions.modify id _).countP _
    have hcount := countP_modify (p := fun session => session.stage.added)
      (fun session => { session with stage := .running }) hsession
    rw [hconnecting] at hcount
    simp only [Stage.added] at hcount
    rw [List.length_append, h.added, List.length_singleton]
    exact hcount.symm
  · exact forall_mem_modify_of_keeps id (fun session hs => hs) h.uncalled

/-- The release of an owner leaves what is registered. -/
theorem Registered.release {server : WebSocketServer} (h : Registered server) (id : Nat) :
    Registered (server.release id) := by
  rw [WebSocketServer.release]
  cases hsession : server.sessions[id]? with
  | none => exact h
  | some session =>
      show Registered (if _ then server else server.destroy id session)
      split
      next => exact h
      next howners =>
        rw [Bool.or_eq_true, decide_eq_true_eq, not_or] at howners
        have hdestroyed := h.onSession id
          (f := fun session => { session with destroyed := true }) fun session => ⟨rfl, rfl⟩
        rw [destroy]
        split
        next =>
          -- the last owner has gone, so `shared_from_this` throws
          rw [sharedFromThis, if_neg (by simpa using howners.2)]
          exact ⟨hdestroyed.nodup, hdestroyed.mem_iff, hdestroyed.count, hdestroyed.added,
            hdestroyed.uncalled⟩
        next => exact hdestroyed

/-- Every step keeps the sessions registered. -/
theorem Registered.step {server : WebSocketServer} (h : Registered server) (event : Event) :
    Registered (step server event) := by
  rw [WebSocketServer.step.eq_def]
  split
  next => exact h
  next =>
    cases event with
    | upgrade => exact h.upgrade
    | handshake id ok => exact (h.onSession id (plain_handshake ok)).release id
    | lookupThrows id => exact (h.onSession id plain_failLookup).release id
    | connect id returns =>
        cases returns with
        | true =>
            show Registered (if _ then _ else server)
            split
            next hstage => exact h.add hstage
            next => exact h
        | false => exact (h.onSession id plain_failConnect).release id
    | closed id => exact h.onSession id fun session => ⟨rfl, rfl⟩
    | finish id => exact (h.onSession id plain_finish).release id
    | send id message => exact h.onSession id (plain_sendFrame ⟨false, message⟩).live
    | sendBinary id data => exact h.onSession id (plain_sendFrame ⟨true, data⟩).live
    | broadcast message => exact h.forEach (plain_sendFrame ⟨false, message⟩)
    | broadcastBinary data => exact h.forEach (plain_sendFrame ⟨true, data⟩)
    | close id => exact h.onSession id plain_close.live
    | closeAll => exact h.forEach plain_close
    | turnWriter id k => exact (h.onSession id (plain_turnWriter k)).release id
    | turnCloser id k => exact (h.onSession id (plain_turnCloser k)).release id

/-- The sessions of every run stay registered. -/
theorem registered_run (events : List Event) : Registered (runFrom step empty events) :=
  runFrom_invariant Registered registered_empty fun event _ _ h => h.step event

/-! ## The steps that end a session -/

/-- No session has ended. -/
def NoneEnded (server : WebSocketServer) : Prop :=
  ∀ session ∈ server.sessions, ¬ session.Ended

/-- The event is the last of a session: `run()` ends when the coroutines have, or a coroutine ends
as the last one after `run()`. -/
def LastEvent (server : WebSocketServer) : Event → Prop
  | .finish id => ∃ session, server.sessions[id]? = some session ∧
      session.stage = .running ∧ session.unfinished = 0
  | .turnWriter id k => ∃ session, server.sessions[id]? = some session ∧
      session.stage = .finished ∧ session.unfinished = 1 ∧
      session.writers[k]?.map Writer.phase = some .running
  | .turnCloser id k => ∃ session, server.sessions[id]? = some session ∧
      session.stage = .finished ∧ session.unfinished = 1 ∧ session.closers[k]? = some .running
  | _ => False

/-- The step ends a session. -/
def EndsSession (server : WebSocketServer) (event : Event) : Prop :=
  server.terminated = false ∧ server.LastEvent event

/-- `run()` is the last to end. -/
theorem ended_finish {session : WebSocketSession} (h : ¬ session.Ended) :
    (finish session).Ended ↔ session.stage = .running ∧ session.unfinished = 0 := by
  rw [finish]
  split
  next hstage => exact ⟨fun hended => ⟨hstage, hended.2⟩, fun hended => ⟨rfl, hended.2⟩⟩
  next hstage => exact ⟨fun hended => absurd hended h, fun hended => absurd hended.1 hstage⟩

/-- Only the end of a write makes fewer coroutines. -/
theorem unfinished_turnWriter (session : WebSocketSession) (k : Nat) :
    (session.turnWriter k).unfinished +
      (if session.writers[k]?.map Writer.phase = some .running then 1 else 0) =
        session.unfinished := by
  rw [WebSocketSession.turnWriter]
  cases hwriter : session.writers[k]? with
  | none => rfl
  | some writer =>
      obtain ⟨frame, phase⟩ := writer
      cases phase with
      | spawned =>
          have hcount := countP_set (p := fun writer : Writer => decide (writer.phase ≠ .done))
            ⟨frame, .running⟩ hwriter
          simp only [WebSocketSession.unfinished]
          simpa using hcount
      | running =>
          have hcount := countP_set (p := fun writer : Writer => decide (writer.phase ≠ .done))
            ⟨frame, .done⟩ hwriter
          simp only [WebSocketSession.unfinished]
          simp at hcount ⊢
          omega
      | done => rfl

/-- Only the end of a close makes fewer coroutines. -/
theorem unfinished_turnCloser (session : WebSocketSession) (k : Nat) :
    (session.turnCloser k).unfinished +
      (if session.closers[k]? = some .running then 1 else 0) = session.unfinished := by
  rw [WebSocketSession.turnCloser]
  cases hcloser : session.closers[k]? with
  | none => rfl
  | some phase =>
      cases phase with
      | spawned =>
          have hcount := countP_set (p := fun phase : Phase => decide (phase ≠ .done)) .running
            hcloser
          simp only [WebSocketSession.unfinished]
          simpa using hcount
      | running =>
          have hcount := countP_set (p := fun phase : Phase => decide (phase ≠ .done)) .done hcloser
          simp only [WebSocketSession.unfinished]
          simp at hcount ⊢
          omega
      | done => rfl

/-- A coroutine is the last to end: its step ends it, and no other is left. -/
theorem ended_of_unfinished {session session' : WebSocketSession} {ends : Prop} [Decidable ends]
    (h : ¬ session.Ended) (hstage : session'.stage = session.stage)
    (hunfinished : session'.unfinished + (if ends then 1 else 0) = session.unfinished) :
    session'.Ended ↔ session.stage = .finished ∧ session.unfinished = 1 ∧ ends := by
  rw [WebSocketSession.Ended, hstage]
  by_cases hends : ends
  · rw [if_pos hends] at hunfinished
    constructor
    · intro ⟨hfinished, hnone⟩
      exact ⟨hfinished, by omega, hends⟩
    · intro ⟨hfinished, hone, _⟩
      exact ⟨hfinished, by omega⟩
  · rw [if_neg hends] at hunfinished
    constructor
    · intro ⟨hfinished, hnone⟩
      exact absurd ⟨hfinished, by omega⟩ h
    · intro ⟨_, _, hends'⟩
      exact absurd hends' hends

theorem stage_turnWriter (session : WebSocketSession) (k : Nat) :
    (session.turnWriter k).stage = session.stage := by
  rw [WebSocketSession.turnWriter]
  split <;> rfl

theorem stage_turnCloser (session : WebSocketSession) (k : Nat) :
    (session.turnCloser k).stage = session.stage := by
  rw [WebSocketSession.turnCloser]
  split <;> rfl

/-- Nothing ends a session that leaves its stage and at least its coroutines. -/
theorem not_ended_of_le {session session' : WebSocketSession} (h : ¬ session.Ended)
    (hstage : session'.stage = session.stage) (hle : session.unfinished ≤ session'.unfinished) :
    ¬ session'.Ended := by
  intro ⟨hfinished, hnone⟩
  exact h ⟨hstage ▸ hfinished, by omega⟩

/-- A change that ends no session. -/
def Holds (f : WebSocketSession → WebSocketSession) : Prop :=
  ∀ session, ¬ session.Ended → ¬ (f session).Ended

theorem holds_sendFrame (frame : Frame) : Holds (fun session => session.sendFrame frame) := by
  intro session h
  show ¬ (session.sendFrame frame).Ended
  rw [WebSocketSession.sendFrame]
  split
  next => exact not_ended_of_le h rfl (by simp [WebSocketSession.unfinished])
  next => exact h

theorem holds_close : Holds WebSocketSession.close := by
  intro session h
  rw [WebSocketSession.close]
  split
  next => exact not_ended_of_le h rfl (by simp [WebSocketSession.unfinished, ← Nat.add_assoc])
  next => exact h

theorem holds_handshake (ok : Bool) : Holds (handshake ok) := by
  intro session h
  rw [handshake]
  split
  next =>
    cases ok with
    | true => exact fun hended => absurd hended.1 (by simp)
    | false => exact fun hended => absurd hended.1 (by simp)
  next => exact h

theorem holds_failLookup : Holds failLookup := by
  intro session h
  rw [failLookup]
  split
  next => exact fun hended => absurd hended.1 (by simp)
  next => exact h

theorem holds_failConnect : Holds failConnect := by
  intro session h
  rw [failConnect]
  split
  next => exact fun hended => absurd hended.1 (by simp)
  next => exact h

theorem Holds.live {f : WebSocketSession → WebSocketSession} (hf : Holds f) :
    Holds (fun session => if session.destroyed then session else f session) := by
  intro session h
  show ¬ (if _ then session else f session).Ended
  split
  next => exact h
  next => exact hf session h

theorem NoneEnded.onSession {server : WebSocketServer} (h : NoneEnded server) (id : Nat)
    {f : WebSocketSession → WebSocketSession} (hf : Holds f) : NoneEnded (server.onSession id f) :=
  forall_mem_modify_of_keeps id hf h

theorem NoneEnded.forEach {server : WebSocketServer} (h : NoneEnded server)
    {f : WebSocketSession → WebSocketSession} (hf : Holds f) : NoneEnded (server.forEach f) :=
  forEach_invariant NoneEnded (fun _ id hnone => hnone.onSession id hf) h

/-- The release of an owner changes at most whether a session is destroyed and how often its close
handler was called. -/
theorem forall_release {P : WebSocketSession → Prop}
    (hP : ∀ session calls gone,
      P { session with closeCalls := calls, destroyed := gone } ↔ P session)
    (server : WebSocketServer) (id : Nat) :
    (∀ session ∈ (server.release id).sessions, P session) ↔
      ∀ session ∈ server.sessions, P session := by
  rw [release]
  cases hlast : server.sessions[id]? with
  | none => exact Iff.rfl
  | some last =>
      show (∀ session ∈ (if (last.destroyed || decide (0 < server.owners id last)) = true
        then server else server.destroy id last).sessions, P session) ↔ _
      split
      next => exact Iff.rfl
      next =>
        have hdestroyed (sessions : List WebSocketSession) :
            (∀ session ∈ sessions.modify id (fun session => { session with destroyed := true }),
              P session) ↔ ∀ session ∈ sessions, P session :=
          forall_mem_modify_iff (fun session => hP session session.closeCalls true) sessions id
        have hcalled (sessions : List WebSocketSession) :
            (∀ session ∈ sessions.modify id
              (fun session => { session with closeCalls := session.closeCalls + 1 }),
                P session) ↔ ∀ session ∈ sessions, P session :=
          forall_mem_modify_iff
            (fun session => hP session (session.closeCalls + 1) session.destroyed) sessions id
        rw [destroy]
        split
        next =>
          split
          next => exact (hcalled _).trans (hdestroyed server.sessions)
          next => exact hdestroyed server.sessions
        next => exact hdestroyed server.sessions

/-- The release of an owner ends no session. -/
theorem noneEnded_release (server : WebSocketServer) (id : Nat) :
    NoneEnded (server.release id) ↔ NoneEnded server :=
  forall_release (fun _ _ _ => Iff.rfl) server id

/-- A step of a session ends a session when it ends this one. -/
theorem noneEnded_turn {server : WebSocketServer} (h : NoneEnded server) (id : Nat)
    (f : WebSocketSession → WebSocketSession) {ends : WebSocketSession → Prop}
    (hf : ∀ session, ¬ session.Ended → ((f session).Ended ↔ ends session)) :
    NoneEnded ((server.onSession id f).release id) ↔
      ¬ ∃ session, server.sessions[id]? = some session ∧ ends session := by
  rw [noneEnded_release]
  refine (forall_mem_modify h).trans ?_
  rw [not_exists]
  refine forall_congr' fun session => ?_
  rw [not_and]
  refine forall_congr' fun hsession => not_congr ?_
  exact hf session (h session (List.mem_of_getElem? hsession))

/-- A step leaves no session ended exactly when it is not the last of one. -/
theorem noneEnded_step {server : WebSocketServer} (h : NoneEnded server) (event : Event) :
    NoneEnded (step server event) ↔ ¬ EndsSession server event := by
  rw [WebSocketServer.step.eq_def, EndsSession]
  split
  next hterminated => simp [hterminated, h]
  next hterminated =>
    rw [and_iff_right (Bool.eq_false_iff.mpr hterminated)]
    have hnot {kept : Prop} (hkept : kept) : kept ↔ ¬ False := by simp [hkept]
    cases event with
    | upgrade =>
        refine hnot fun session hs => ?_
        rw [List.mem_append, List.mem_singleton] at hs
        rcases hs with hs | rfl
        · exact h session hs
        · exact fun hended => Stage.noConfusion hended.1
    | handshake id ok =>
        exact hnot ((noneEnded_release _ id).mpr (h.onSession id (holds_handshake ok)))
    | lookupThrows id =>
        exact hnot ((noneEnded_release _ id).mpr (h.onSession id holds_failLookup))
    | connect id returns =>
        cases returns with
        | true =>
            refine hnot ?_
            show NoneEnded (if _ then _ else server)
            split
            next => exact h.onSession id fun session hs hended => absurd hended.1 (by simp)
            next => exact h
        | false => exact hnot ((noneEnded_release _ id).mpr (h.onSession id holds_failConnect))
    | closed id => exact hnot (h.onSession id fun session hs hended => hs hended)
    | finish id => exact noneEnded_turn h id finish fun session hs => ended_finish hs
    | send id message => exact hnot (h.onSession id (holds_sendFrame ⟨false, message⟩).live)
    | sendBinary id data => exact hnot (h.onSession id (holds_sendFrame ⟨true, data⟩).live)
    | broadcast message => exact hnot (h.forEach (holds_sendFrame ⟨false, message⟩))
    | broadcastBinary data => exact hnot (h.forEach (holds_sendFrame ⟨true, data⟩))
    | close id => exact hnot (h.onSession id holds_close.live)
    | closeAll => exact hnot (h.forEach holds_close)
    | turnWriter id k =>
        exact noneEnded_turn h id _ fun session hs =>
          ended_of_unfinished hs (stage_turnWriter session k) (unfinished_turnWriter session k)
    | turnCloser id k =>
        exact noneEnded_turn h id _ fun session hs =>
          ended_of_unfinished hs (stage_turnCloser session k) (unfinished_turnCloser session k)

/-! ## The promise -/

/-- A registered session that has ended breaks the promise, and nothing else does. -/
theorem Registered.released_iff_noneEnded {server : WebSocketServer} (h : Registered server) :
    Released server ↔ NoneEnded server := by
  constructor
  · intro hreleased session hs hended
    obtain ⟨id, hid⟩ := List.mem_iff_getElem?.mp hs
    obtain ⟨hcalls, _⟩ := hreleased.1 id session hid hended
    rw [h.uncalled session hs] at hcalls
    exact absurd hcalls (by decide)
  · intro hnone
    refine ⟨fun id session hid hended => ?_, ?_⟩
    · exact absurd hended (hnone session (List.mem_of_getElem? hid))
    rw [h.count, h.added]
    refine List.countP_congr fun session hs => ?_
    simp [hnone session hs]

/-- A session that has ended is still registered, and its close handler was never called. -/
theorem ended_stays (events : List Event) {id : Nat} {session : WebSocketSession}
    (hsession : (runFrom step empty events).sessions[id]? = some session)
    (hended : session.Ended) :
    id ∈ (runFrom step empty events).registry ∧ session.closeCalls = 0 := by
  have h := registered_run events
  refine ⟨(h.mem_iff id).mpr ⟨session, hsession, ?_⟩, h.uncalled session
    (List.mem_of_getElem? hsession)⟩
  rw [hended.1]
  rfl

/-- After every step of a run the promise is kept, exactly when no step is the last of a
session. -/
theorem released_iff (events : List Event) :
    Throughout step (fun server event => Released (step server event)) empty events ↔
      Throughout step (fun server event => ¬ EndsSession server event) empty events := by
  refine throughout_iff (fun server => Registered server ∧ NoneEnded server)
    ⟨registered_empty, by simp [NoneEnded, empty]⟩ ?_ ?_ events
  · intro server event ⟨hregistered, hnone⟩ hends
    exact ⟨hregistered.step event, (noneEnded_step hnone event).mpr hends⟩
  · intro server event ⟨hregistered, hnone⟩
    exact (hregistered.step event).released_iff_noneEnded.trans (noneEnded_step hnone event)

/-- A connection that comes and goes. -/
theorem visitor_not_released : ¬ Released (runFrom step empty
    [.upgrade, .handshake 0 true, .connect 0 true, .closed 0, .finish 0]) := by
  intro ⟨hended, _⟩
  have h := hended 0 _ rfl (by decide)
  exact absurd h.1 (by decide)

end WebSocketServer

end Brazier
