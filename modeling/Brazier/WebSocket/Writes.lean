import Brazier.WebSocket.Release

/-!
# Writes on a WebSocket stream

Every call of `send` or `send_binary` spawns a coroutine that writes for itself, and the type of a
frame is the setting of the stream, which is binary. The writes of a session are exclusive, in call
order and of the right type under every scheduling exactly when each message is binary and is sent
after the write before it has ended.
-/

namespace Brazier

open ProofLib

namespace WebSocketSession

/-- The `async_write` calls that have not completed. -/
def outstanding (session : WebSocketSession) : Nat :=
  session.writers.countP (fun writer => writer.phase = .running)

/-- What is promised: one write at a time, and the messages go over the stream in call order, each
once and as a frame of its type. -/
def Orderly (session : WebSocketSession) : Prop :=
  session.outstanding ≤ 1 ∧ session.frames <+: session.writers.map Writer.frame ∧
    ((∀ writer ∈ session.writers, writer.phase = .done) →
      session.frames = session.writers.map Writer.frame)

/-- The writes have ended. -/
def Idle (session : WebSocketSession) : Prop :=
  ∀ writer ∈ session.writers, writer.phase = .done

/-- The call does nothing, or is for a binary frame when the writes have ended. -/
def Accepts (session : WebSocketSession) (frame : Frame) : Prop :=
  session.isOpen = true → frame.binary = true ∧ session.Idle

/-- The messages are binary, all writes but the last have ended, and the frames are those of the
writes that have begun. -/
structure Tidy (session : WebSocketSession) : Prop where
  setting : session.binarySetting = true
  binary : ∀ writer ∈ session.writers, writer.frame.binary = true
  ended : ∀ writer ∈ session.writers.dropLast, writer.phase = .done
  begun : session.frames =
    (session.writers.filter (fun writer => writer.phase ≠ .spawned)).map Writer.frame

/-- The writers of a tidy session, the last one apart. -/
theorem Tidy.writers_cases {session : WebSocketSession} (h : session.Tidy) :
    session.writers = [] ∧ session.frames = [] ∨
      ∃ settled last, session.writers = settled ++ [last] ∧
        (∀ writer ∈ settled, writer.phase = .done) ∧
        session.frames = settled.map Writer.frame ++
          (if last.phase = .spawned then [] else [last.frame]) := by
  have hbegun := h.begun
  have hended := h.ended
  rcases List.eq_nil_or_concat session.writers with hnil | ⟨settled, last, hsplit⟩
  · rw [hnil] at hbegun
    exact Or.inl ⟨hnil, hbegun⟩
  · rw [List.concat_eq_append] at hsplit
    rw [hsplit, List.dropLast_concat] at hended
    refine Or.inr ⟨settled, last, hsplit, hended, ?_⟩
    rw [hbegun, hsplit, List.filter_append, List.map_append]
    congr 1
    · rw [List.filter_eq_self.mpr]
      intro writer hwriter
      rw [hended writer hwriter]
      rfl
    · cases hphase : last.phase <;> simp [hphase]

/-- The writes of a tidy session are as promised. -/
theorem Tidy.orderly {session : WebSocketSession} (h : session.Tidy) : session.Orderly := by
  rw [Orderly, outstanding]
  rcases h.writers_cases with ⟨hwriters, hframes⟩ | ⟨settled, last, hwriters, hended, hframes⟩
  · rw [hwriters, hframes]
    exact ⟨Nat.zero_le 1, List.nil_prefix, fun _ => rfl⟩
  · rw [hwriters, hframes, List.map_append]
    refine ⟨?_, ?_, fun hdone => ?_⟩
    · have hzero : settled.countP (fun writer => decide (writer.phase = .running)) = 0 := by
        rw [List.countP_eq_zero]
        intro writer hwriter
        rw [hended writer hwriter]
        decide
      rw [List.countP_append, hzero, Nat.zero_add]
      exact List.countP_le_length
    · refine (List.prefix_append_right_inj _).mpr ?_
      split
      next => exact List.nil_prefix
      next => exact List.prefix_rfl
    · have hlast := hdone last (by simp)
      rw [hlast, if_neg (by decide)]
      rfl

/-- A new session. -/
theorem tidy_new : new.Tidy where
  setting := rfl
  binary := by simp [new]
  ended := by simp [new]
  begun := rfl

/-- A call that the session accepts. -/
theorem Tidy.sendFrame {session : WebSocketSession} (h : session.Tidy) {frame : Frame}
    (haccepts : session.Accepts frame) : (session.sendFrame frame).Tidy := by
  rw [WebSocketSession.sendFrame]
  split
  next hopen =>
    obtain ⟨hbinary, hidle⟩ := haccepts hopen
    refine ⟨h.setting, fun writer hwriter => ?_, fun writer hwriter => ?_, ?_⟩
    · rw [List.mem_append, List.mem_singleton] at hwriter
      rcases hwriter with hwriter | rfl
      · exact h.binary writer hwriter
      · exact hbinary
    · rw [List.dropLast_concat] at hwriter
      exact hidle writer hwriter
    · show session.frames = _
      rw [h.begun, List.filter_append]
      simp
  next => exact h

/-- A session is tidy when it is so but for its last write. -/
theorem tidy_of_split {session : WebSocketSession} {settled : List Writer} {last : Writer}
    (hsetting : session.binarySetting = true) (hwriters : session.writers = settled ++ [last])
    (hbinary : ∀ writer ∈ settled, writer.frame.binary = true)
    (hlast : last.frame.binary = true)
    (hended : ∀ writer ∈ settled, writer.phase = .done)
    (hframes : session.frames = settled.map Writer.frame ++
      (if last.phase = .spawned then [] else [last.frame])) : session.Tidy := by
  refine ⟨hsetting, fun writer hwriter => ?_, ?_, ?_⟩
  · rw [hwriters, List.mem_append, List.mem_singleton] at hwriter
    rcases hwriter with hwriter | rfl
    · exact hbinary writer hwriter
    · exact hlast
  · rw [hwriters, List.dropLast_concat]
    exact hended
  · rw [hframes, hwriters, List.filter_append, List.map_append]
    congr 1
    · rw [List.filter_eq_self.mpr]
      intro writer hwriter
      rw [hended writer hwriter]
      rfl
    · cases hphase : last.phase <;> simp [hphase]

/-- A write that has not ended is the last one. -/
theorem eq_last_of_not_done {settled : List Writer} {last writer : Writer} {k : Nat}
    (hended : ∀ writer ∈ settled, writer.phase = .done)
    (hwriter : (settled ++ [last])[k]? = some writer) (hphase : writer.phase ≠ .done) :
    k = settled.length ∧ writer = last := by
  rw [List.getElem?_append] at hwriter
  split at hwriter
  next => exact absurd (hended writer (List.mem_of_getElem? hwriter)) hphase
  next hk =>
    have hlength := (List.getElem?_eq_some_iff.mp hwriter).1
    rw [List.length_singleton] at hlength
    refine ⟨by omega, ?_⟩
    exact List.mem_singleton.mp (List.mem_of_getElem? hwriter)

/-- A step of a write. -/
theorem Tidy.turnWriter {session : WebSocketSession} (h : session.Tidy) (k : Nat) :
    (session.turnWriter k).Tidy := by
  rcases h.writers_cases with ⟨hwriters, _⟩ | ⟨settled, last, hwriters, hended, hframes⟩
  · rw [WebSocketSession.turnWriter, hwriters]
    exact h
  · obtain ⟨hbinary, hlast⟩ : (∀ writer ∈ settled, writer.frame.binary = true) ∧
        last.frame.binary = true := by
      have hall := h.binary
      rw [hwriters, List.forall_mem_append] at hall
      exact ⟨hall.1, hall.2 last (List.mem_singleton_self last)⟩
    rw [WebSocketSession.turnWriter, hwriters]
    split
    next frame hwriter =>
      obtain ⟨rfl, rfl⟩ := eq_last_of_not_done hended hwriter (by simp)
      -- the setting of the stream is the type of the message
      have htype : (⟨session.binarySetting, frame.payload⟩ : Frame) = frame := by
        rw [h.setting, ← hlast]
      refine tidy_of_split h.setting (set_length_append settled _ _) hbinary hlast hended ?_
      rw [htype, hframes]
      simp
    next frame hwriter =>
      obtain ⟨rfl, rfl⟩ := eq_last_of_not_done hended hwriter (by simp)
      exact tidy_of_split h.setting (set_length_append settled _ _) hbinary hlast hended hframes
    next => exact h
    next => exact h

/-- A change that has nothing to do with the writes. -/
def KeepsWrites (f : WebSocketSession → WebSocketSession) : Prop :=
  ∀ session, (f session).binarySetting = session.binarySetting ∧
    (f session).writers = session.writers ∧ (f session).frames = session.frames

theorem KeepsWrites.tidy {f : WebSocketSession → WebSocketSession} (hf : KeepsWrites f)
    {session : WebSocketSession} (h : session.Tidy) : (f session).Tidy := by
  obtain ⟨hsetting, hwriters, hframes⟩ := hf session
  exact ⟨hsetting.trans h.setting, hwriters ▸ h.binary, hwriters ▸ h.ended,
    hwriters ▸ hframes.trans h.begun⟩

/-- The step that begins a write. -/
theorem turnWriter_spawned {session : WebSocketSession} {k : Nat} {frame : Frame}
    (h : session.writers[k]? = some ⟨frame, .spawned⟩) :
    session.turnWriter k =
      { session with
        writers := session.writers.set k ⟨frame, .running⟩
        frames := session.frames ++ [⟨session.binarySetting, frame.payload⟩] } := by
  rw [turnWriter, h]

/-- Beginning a write while another one runs breaks the promise. -/
theorem not_orderly_of_two {session : WebSocketSession} (settled : List Writer)
    (frame frame' : Frame)
    (h : session.writers = settled ++ [⟨frame, .running⟩, ⟨frame', .running⟩]) :
    ¬ session.Orderly := by
  intro ⟨hone, _⟩
  rw [outstanding, h, List.countP_append] at hone
  simp at hone

/-- A frame of another type breaks the promise. -/
theorem not_orderly_of_type {session : WebSocketSession} (settled : List Frame)
    (frame frame' : Frame) (hcalls : session.writers.map Writer.frame = settled ++ [frame])
    (hframes : session.frames = settled ++ [frame']) (h : frame' ≠ frame) : ¬ session.Orderly := by
  intro ⟨_, hprefix, _⟩
  rw [hcalls, hframes] at hprefix
  have heq := hprefix.eq_of_length (by simp)
  exact h (by simpa using heq)

end WebSocketSession

namespace WebSocketServer

open WebSocketSession (KeepsWrites)

/-- The step is one of a spawned coroutine. -/
def Event.isTurn : Event → Bool
  | .turnWriter _ _ => true
  | .turnCloser _ _ => true
  | _ => false

/-- The writes on every stream are as promised. -/
def Orderly (server : WebSocketServer) : Prop :=
  ∀ session ∈ server.sessions, session.Orderly

/-- However the spawned coroutines are scheduled after a step, the writes are as promised. -/
def OrderlyUnder (server : WebSocketServer) (event : Event) : Prop :=
  ∀ schedule : List Event, (∀ turn ∈ schedule, turn.isTurn = true) →
    (runFrom step (step server event) schedule).Orderly

/-- The session, when it has not been destroyed, accepts the call. -/
def LiveAccepts (server : WebSocketServer) (id : Nat) (frame : Frame) : Prop :=
  ∀ session, server.sessions[id]? = some session → session.destroyed = false →
    session.Accepts frame

/-- The registered sessions accept the call. -/
def AllAccept (server : WebSocketServer) (frame : Frame) : Prop :=
  ∀ id ∈ server.registry, ∀ session, server.sessions[id]? = some session → session.Accepts frame

/-- The calls of the step are accepted. -/
def Accepted (server : WebSocketServer) : Event → Prop
  | .send id message => server.LiveAccepts id ⟨false, message⟩
  | .sendBinary id data => server.LiveAccepts id ⟨true, data⟩
  | .broadcast message => server.AllAccept ⟨false, message⟩
  | .broadcastBinary data => server.AllAccept ⟨true, data⟩
  | _ => True

/-- Every message that the step sends on an open stream is binary, and is sent when the writes
before it have ended. -/
def Calm (server : WebSocketServer) (event : Event) : Prop :=
  server.terminated = false → server.Accepted event

/-- The invariant of a calm run. -/
structure Quiescent (server : WebSocketServer) : Prop where
  registered : Registered server
  tidy : ∀ session ∈ server.sessions, session.Tidy

/-! ## Calm runs -/

theorem quiescent_empty : Quiescent empty where
  registered := registered_empty
  tidy := by simp [empty]

/-- The sessions stay tidy when one changes and an owner of it goes. -/
theorem tidy_release {server : WebSocketServer} (h : ∀ session ∈ server.sessions, session.Tidy)
    (id : Nat) {f : WebSocketSession → WebSocketSession}
    (hf : ∀ session : WebSocketSession, session.Tidy → (f session).Tidy) :
    ∀ session ∈ ((server.onSession id f).release id).sessions, session.Tidy :=
  (forall_release (P := WebSocketSession.Tidy) (fun _ _ _ => ⟨fun h => ⟨h.1, h.2, h.3, h.4⟩,
    fun h => ⟨h.1, h.2, h.3, h.4⟩⟩) _ id).mpr (forall_mem_modify_of_keeps id hf h)

/-- The sessions stay tidy when one that is live accepts a call. -/
theorem tidy_onLive {server : WebSocketServer} (h : ∀ session ∈ server.sessions, session.Tidy)
    {id : Nat} {frame : Frame} (haccepts : server.LiveAccepts id frame) :
    ∀ session ∈ (server.onLive id (fun session => session.sendFrame frame)).sessions,
      session.Tidy := by
  refine (forall_mem_modify h).mpr fun session hsession => ?_
  have htidy := h session (List.mem_of_getElem? hsession)
  show (if _ then session else session.sendFrame frame).Tidy
  split
  next => exact htidy
  next hlive =>
    exact htidy.sendFrame (haccepts session hsession (Bool.eq_false_iff.mpr hlive))

/-- What a call for every registered session leaves. -/
theorem sessions_forEach (server : WebSocketServer) (f : WebSocketSession → WebSocketSession) :
    (server.forEach f).sessions =
      server.registry.foldl (fun sessions id => sessions.modify id f) server.sessions := by
  rw [forEach]
  generalize server.registry = ids
  induction ids generalizing server with
  | nil => rfl
  | cons id ids ih => exact ih (server.onSession id f)

/-- The sessions stay tidy when the registered ones accept a call. -/
theorem tidy_forEach {server : WebSocketServer} (hregistered : Registered server)
    (h : ∀ session ∈ server.sessions, session.Tidy) {frame : Frame}
    (haccept : server.AllAccept frame) :
    ∀ session ∈ (server.forEach (fun session => session.sendFrame frame)).sessions,
      session.Tidy := by
  intro session hsession
  obtain ⟨id, hid⟩ := List.mem_iff_getElem?.mp hsession
  rw [sessions_forEach, getElem?_foldl_modify hregistered.nodup] at hid
  obtain ⟨old, hold, rfl⟩ := Option.map_eq_some_iff.mp hid
  have htidy := h old (List.mem_of_getElem? hold)
  split
  next hmem => exact htidy.sendFrame (haccept id hmem old hold)
  next => exact htidy

theorem keepsWrites_handshake (ok : Bool) : KeepsWrites (handshake ok) := by
  intro session
  rw [handshake]
  split
  next => cases ok <;> exact ⟨rfl, rfl, rfl⟩
  next => exact ⟨rfl, rfl, rfl⟩

theorem keepsWrites_failLookup : KeepsWrites failLookup := by
  intro session
  rw [failLookup]
  split <;> exact ⟨rfl, rfl, rfl⟩

theorem keepsWrites_failConnect : KeepsWrites failConnect := by
  intro session
  rw [failConnect]
  split <;> exact ⟨rfl, rfl, rfl⟩

theorem keepsWrites_finish : KeepsWrites finish := by
  intro session
  rw [finish]
  split <;> exact ⟨rfl, rfl, rfl⟩

theorem keepsWrites_close : KeepsWrites WebSocketSession.close := by
  intro session
  rw [WebSocketSession.close]
  split <;> exact ⟨rfl, rfl, rfl⟩

theorem keepsWrites_turnCloser (k : Nat) : KeepsWrites (fun session => session.turnCloser k) := by
  intro session
  show (session.turnCloser k).binarySetting = _ ∧ (session.turnCloser k).writers = _ ∧
    (session.turnCloser k).frames = _
  rw [WebSocketSession.turnCloser]
  split <;> exact ⟨rfl, rfl, rfl⟩

theorem tidy_forEach_keepsWrites {server : WebSocketServer}
    (h : ∀ session ∈ server.sessions, session.Tidy) {f : WebSocketSession → WebSocketSession}
    (hf : KeepsWrites f) : ∀ session ∈ (server.forEach f).sessions, session.Tidy :=
  forEach_invariant (fun server => ∀ session ∈ server.sessions, session.Tidy)
    (fun _ id htidy => forall_mem_modify_of_keeps id (fun _ => hf.tidy) htidy) h

/-- A calm step keeps the invariant. -/
theorem Quiescent.step {server : WebSocketServer} (h : Quiescent server) {event : Event}
    (hcalm : server.Calm event) : Quiescent (step server event) := by
  refine ⟨h.registered.step event, ?_⟩
  have htidy := h.tidy
  rw [WebSocketServer.step.eq_def]
  split
  next => exact htidy
  next hterminated =>
    have haccepted := hcalm (Bool.eq_false_iff.mpr hterminated)
    cases event with
    | upgrade =>
        intro session hs
        rw [List.mem_append, List.mem_singleton] at hs
        rcases hs with hs | rfl
        · exact htidy session hs
        · exact WebSocketSession.tidy_new
    | handshake id ok => exact tidy_release htidy id fun _ => (keepsWrites_handshake ok).tidy
    | lookupThrows id => exact tidy_release htidy id fun _ => keepsWrites_failLookup.tidy
    | connect id returns =>
        cases returns with
        | true =>
            show ∀ session ∈
              (if server.stageOf id = some .connecting then _ else server).sessions, _
            split
            next =>
              exact forall_mem_modify_of_keeps id (fun _ hs => ⟨hs.1, hs.2, hs.3, hs.4⟩) htidy
            next => exact htidy
        | false => exact tidy_release htidy id fun _ => keepsWrites_failConnect.tidy
    | closed id => exact forall_mem_modify_of_keeps id (fun _ hs => ⟨hs.1, hs.2, hs.3, hs.4⟩) htidy
    | finish id => exact tidy_release htidy id fun _ => keepsWrites_finish.tidy
    | send id message => exact tidy_onLive htidy haccepted
    | sendBinary id data => exact tidy_onLive htidy haccepted
    | broadcast message => exact tidy_forEach h.registered htidy haccepted
    | broadcastBinary data => exact tidy_forEach h.registered htidy haccepted
    | close id =>
        refine forall_mem_modify_of_keeps id (fun session hs => ?_) htidy
        show (if _ then session else session.close).Tidy
        split
        next => exact hs
        next => exact keepsWrites_close.tidy hs
    | closeAll => exact tidy_forEach_keepsWrites htidy keepsWrites_close
    | turnWriter id k => exact tidy_release htidy id fun _ hs => hs.turnWriter k
    | turnCloser id k => exact tidy_release htidy id fun _ => (keepsWrites_turnCloser k).tidy

/-- The writes of a calm run, and of whatever is scheduled after it, are as promised. -/
theorem Quiescent.orderlyUnder {server : WebSocketServer} (h : Quiescent server) {event : Event}
    (hcalm : server.Calm event) : server.OrderlyUnder event := by
  intro schedule hturns
  have hend :
      Quiescent (runFrom WebSocketServer.step (WebSocketServer.step server event) schedule) := by
    refine runFrom_invariant Quiescent (h.step hcalm) fun turn hturn server hserver => ?_
    have hcalmTurn : server.Calm turn := by
      intro _
      have hisTurn := hturns turn hturn
      cases turn with
      | turnWriter id k => trivial
      | turnCloser id k => trivial
      | _ => cases hisTurn
    exact hserver.step hcalmTurn
  exact fun session hsession => (hend.tidy session hsession).orderly

/-! ## A schedule that breaks the promise -/

/-- A session with an unfinished coroutine is not destroyed. -/
theorem release_of_unfinished {server : WebSocketServer} {id : Nat} {session : WebSocketSession}
    (hsession : server.sessions[id]? = some session) (h : 0 < session.unfinished) :
    server.release id = server := by
  have howners : 0 < server.owners id session := by
    rw [owners]
    omega
  rw [release, hsession]
  simp [howners]

/-- Scheduling a coroutine that has not started begins its write. -/
theorem step_begin {server : WebSocketServer} (hterminated : server.terminated = false) {id k : Nat}
    {session : WebSocketSession} {frame : Frame} (hsession : server.sessions[id]? = some session)
    (hwriter : session.writers[k]? = some ⟨frame, .spawned⟩) :
    (step server (.turnWriter id k)).terminated = false ∧
      (step server (.turnWriter id k)).sessions[id]? = some (session.turnWriter k) := by
  have hturned : (server.onSession id (fun session => session.turnWriter k)).sessions[id]? =
      some (session.turnWriter k) := by
    show (server.sessions.modify id _)[id]? = _
    rw [List.getElem?_modify_eq, hsession]
    rfl
  have hunfinished : 0 < (session.turnWriter k).unfinished := by
    have hsame := unfinished_turnWriter session k
    have hcount : 0 < session.writers.countP (fun writer => writer.phase ≠ .done) :=
      List.countP_pos_iff.mpr ⟨_, List.mem_of_getElem? hwriter, by simp⟩
    have hunfinished : 0 < session.unfinished := by
      rw [WebSocketSession.unfinished]
      omega
    rw [hwriter, if_neg (by simp)] at hsame
    omega
  have hstep : step server (.turnWriter id k) =
      server.onSession id (fun session => session.turnWriter k) := by
    rw [WebSocketServer.step.eq_def, if_neg (by simp [hterminated])]
    exact release_of_unfinished hturned hunfinished
  rw [hstep]
  exact ⟨hterminated, hturned⟩

/-- A second write begins while the first one runs. -/
theorem not_orderly_of_running {server : WebSocketServer} (hterminated : server.terminated = false)
    {id : Nat} {session : WebSocketSession} (hsession : server.sessions[id]? = some session)
    (settled : List Writer) (frame frame' : Frame)
    (hwriters : session.writers = settled ++ [⟨frame, .running⟩, ⟨frame', .spawned⟩]) :
    ¬ (runFrom step server [.turnWriter id (settled.length + 1)]).Orderly := by
  have hwriter : session.writers[settled.length + 1]? = some ⟨frame', .spawned⟩ := by
    rw [hwriters, List.getElem?_append_right (Nat.le_succ _)]
    simp
  have hbegin := step_begin hterminated hsession hwriter
  intro horderly
  refine WebSocketSession.not_orderly_of_two settled frame frame' ?_
    (horderly _ (List.mem_of_getElem? hbegin.2))
  rw [WebSocketSession.turnWriter_spawned hwriter]
  simp [hwriters]

/-- A call that a tidy session does not accept can be scheduled so that the promise is broken. -/
theorem exists_schedule {server : WebSocketServer} (hterminated : server.terminated = false)
    {id : Nat} {session : WebSocketSession} {frame : Frame}
    (hsession : server.sessions[id]? = some (session.sendFrame frame)) (htidy : session.Tidy)
    (hnot : ¬ session.Accepts frame) :
    ∃ schedule : List Event, (∀ turn ∈ schedule, turn.isTurn = true) ∧
      ¬ (runFrom step server schedule).Orderly := by
  rw [WebSocketSession.Accepts, Classical.not_imp] at hnot
  obtain ⟨hopen, hnot⟩ := hnot
  rw [WebSocketSession.sendFrame, if_pos hopen] at hsession
  by_cases hidle : session.Idle
  · -- the message is text, and the frame is binary
    have htext : ¬ frame.binary = true := fun hbinary => hnot ⟨hbinary, hidle⟩
    obtain ⟨_, _, hframes⟩ := htidy.orderly
    have hwriter : (session.writers ++ [(⟨frame, .spawned⟩ : Writer)])[session.writers.length]? =
        some ⟨frame, .spawned⟩ := List.getElem?_concat_length
    have hbegin := step_begin hterminated hsession hwriter
    refine ⟨[.turnWriter id session.writers.length], by simp [Event.isTurn], fun horderly => ?_⟩
    refine WebSocketSession.not_orderly_of_type (session.writers.map Writer.frame)
      frame ⟨true, frame.payload⟩ ?_ ?_ ?_
      (horderly _ (List.mem_of_getElem? hbegin.2))
    · rw [WebSocketSession.turnWriter_spawned hwriter]
      simp
    · rw [WebSocketSession.turnWriter_spawned hwriter]
      simp [hframes hidle, htidy.setting]
    · intro heq
      exact htext (congrArg Frame.binary heq).symm
  · rcases htidy.writers_cases with ⟨hwriters, _⟩ | ⟨settled, last, hwriters, hended, _⟩
    · exact absurd (by simp [WebSocketSession.Idle, hwriters]) hidle
    · obtain ⟨frame', phase⟩ := last
      cases phase with
      | spawned =>
          -- the write before has not begun: it begins first
          have hwriter : (session.writers ++ [(⟨frame, .spawned⟩ : Writer)])[settled.length]? =
              some ⟨frame', .spawned⟩ := by
            simp [hwriters]
          have hbegin := step_begin hterminated hsession hwriter
          refine ⟨[.turnWriter id settled.length, .turnWriter id (settled.length + 1)],
            by simp [Event.isTurn], ?_⟩
          refine not_orderly_of_running hbegin.1 hbegin.2 settled frame' frame ?_
          rw [WebSocketSession.turnWriter_spawned hwriter]
          simp [hwriters]
      | running =>
          refine ⟨[.turnWriter id (settled.length + 1)], by simp [Event.isTurn], ?_⟩
          exact not_orderly_of_running hterminated hsession settled frame' frame
            (by simp [hwriters])
      | done =>
          refine absurd (fun writer hwriter => ?_) hidle
          rw [hwriters, List.mem_append, List.mem_singleton] at hwriter
          rcases hwriter with hwriter | rfl
          · exact hended writer hwriter
          · rfl

/-- A session that does not accept a call for it. -/
theorem not_liveAccepts {server : WebSocketServer} {id : Nat} {frame : Frame}
    (h : ¬ server.LiveAccepts id frame) :
    ∃ session, server.sessions[id]? = some session ∧ session.destroyed = false ∧
      ¬ session.Accepts frame := by
  simpa [LiveAccepts] using h

/-- A registered session that does not accept a call for all. -/
theorem not_allAccept {server : WebSocketServer} {frame : Frame} (h : ¬ server.AllAccept frame) :
    ∃ id ∈ server.registry, ∃ session, server.sessions[id]? = some session ∧
      ¬ session.Accepts frame := by
  simpa [AllAccept] using h

/-- A call on a live session reaches it. -/
theorem onLive_live {server : WebSocketServer} {id : Nat} {session : WebSocketSession}
    {f : WebSocketSession → WebSocketSession} (hsession : server.sessions[id]? = some session)
    (hlive : session.destroyed = false) :
    (server.onLive id f).sessions[id]? = some (f session) := by
  show (server.sessions.modify id _)[id]? = _
  rw [List.getElem?_modify_eq, hsession]
  simp [hlive]

/-- A call for every registered session reaches each. -/
theorem forEach_registered {server : WebSocketServer} (h : Registered server) {id : Nat}
    {session : WebSocketSession} {f : WebSocketSession → WebSocketSession}
    (hmem : id ∈ server.registry) (hsession : server.sessions[id]? = some session) :
    (server.forEach f).sessions[id]? = some (f session) := by
  rw [sessions_forEach, getElem?_foldl_modify h.nodup, hsession]
  simp [hmem]

theorem terminated_forEach (server : WebSocketServer) (f : WebSocketSession → WebSocketSession) :
    (server.forEach f).terminated = server.terminated :=
  forEach_invariant (fun after => after.terminated = server.terminated) (fun _ _ h => h) rfl

/-- A step whose writes are as promised under every schedule is calm. -/
theorem Quiescent.calm_of_orderlyUnder {server : WebSocketServer} (h : Quiescent server)
    {event : Event} (horderly : server.OrderlyUnder event) : server.Calm event := by
  intro hterminated
  by_contra hnot
  -- some session gets a call that it does not accept
  obtain ⟨id, session, frame, hsession, hnotAccepts, hstep, hterminated'⟩ :
      ∃ id session frame, server.sessions[id]? = some session ∧
        ¬ WebSocketSession.Accepts session frame ∧
        (WebSocketServer.step server event).sessions[id]? = some (session.sendFrame frame) ∧
        (WebSocketServer.step server event).terminated = false := by
    rw [WebSocketServer.step.eq_def, if_neg (by simp [hterminated])]
    cases event with
    | send id message =>
        obtain ⟨session, hsession, hlive, haccepts⟩ := not_liveAccepts hnot
        exact ⟨id, session, _, hsession, haccepts, onLive_live hsession hlive, hterminated⟩
    | sendBinary id data =>
        obtain ⟨session, hsession, hlive, haccepts⟩ := not_liveAccepts hnot
        exact ⟨id, session, _, hsession, haccepts, onLive_live hsession hlive, hterminated⟩
    | broadcast message =>
        obtain ⟨id, hmem, session, hsession, haccepts⟩ := not_allAccept hnot
        exact ⟨id, session, _, hsession, haccepts,
          forEach_registered h.registered hmem hsession,
          (terminated_forEach server _).trans hterminated⟩
    | broadcastBinary data =>
        obtain ⟨id, hmem, session, hsession, haccepts⟩ := not_allAccept hnot
        exact ⟨id, session, _, hsession, haccepts,
          forEach_registered h.registered hmem hsession,
          (terminated_forEach server _).trans hterminated⟩
    | _ => exact absurd trivial hnot
  obtain ⟨schedule, hturns, hbroken⟩ := exists_schedule hterminated' hstep
    (h.tidy session (List.mem_of_getElem? hsession)) hnotAccepts
  exact hbroken (horderly schedule hturns)

/-- The writes are as promised after every step of a run and under every scheduling from there on,
exactly when each message on an open stream is binary and is sent when the writes of the session
have ended. -/
theorem writes_orderly_iff (events : List Event) :
    Throughout step OrderlyUnder empty events ↔ Throughout step Calm empty events :=
  throughout_iff Quiescent quiescent_empty (fun _ _ h hcalm => h.step hcalm)
    (fun _ _ h => ⟨h.calm_of_orderlyUnder, h.orderlyUnder⟩) events

/-- A text reply goes out as a binary frame, and a broadcast overlaps a reply. -/
theorem replies_not_orderly :
    ¬ OrderlyUnder (runFrom step empty [.upgrade, .handshake 0 true, .connect 0 true])
      (.send 0 "hi".toList) ∧
    ¬ OrderlyUnder (runFrom step empty [.upgrade, .handshake 0 true, .connect 0 true,
      .sendBinary 0 "hi".toList]) (.broadcastBinary "all".toList) := by
  refine ⟨fun h => ?_, fun h => ?_⟩
  · have hframes := (h [.turnWriter 0 0] (by decide) _ List.mem_cons_self).2.1
    exact absurd hframes (by decide)
  · have hone := (h [.turnWriter 0 0, .turnWriter 0 1] (by decide) _ List.mem_cons_self).1
    exact absurd hone (by decide)

end WebSocketServer

end Brazier
