import Brazier.ProofLib.Runs
import Brazier.ProofLib.Throwing
import Brazier.Text
import Mathlib.Logic.Function.Basic

/-!
# The cache

`Cache` of `src/Database/Cache.cpp`, and a Redis server as a map from byte strings to values that
may expire. The server may refuse a command with an error reply and then changes nothing, and
`redisCommand` may return a null pointer, whether the command was executed or not. Keys and values
are handed over by `c_str()` for `%s`. `round_trip_iff` says when what `set` has stored is what
`get` returns, whatever is done with other keys in between.
-/

namespace Brazier

open ProofLib

/-! ## The server -/

/-- A value, and the time in milliseconds from which on it is not there. -/
structure CacheEntry where
  value : Text
  deadline : Option Nat
  deriving DecidableEq

/-- What a server holds. -/
abbrev CacheServer := Text → Option CacheEntry

/-- A command with its arguments as they arrive. -/
inductive CacheCommand where
  | set (key value : Text) (seconds : Option Nat)
  | get (key : Text)
  | del (key : Text)
  | expire (key : Text) (seconds : Int)

/-- A `redisReply`. -/
inductive CacheReply where
  | status (text : Text)
  | string (text : Text)
  | integer (n : Nat)
  | nil
  | error (text : Text)

/-- How a command ends: it is executed, refused with an error reply, or there is no reply. -/
inductive CacheAnswer where
  | executed
  | refused (text : Text)
  | lost (executed : Bool)
  deriving DecidableEq

namespace CacheServer

/-- The entry of a key that has not expired. -/
def live (server : CacheServer) (now : Nat) (key : Text) : Option CacheEntry :=
  (server key).filter fun entry => entry.deadline.all (now < ·)

/-- What the server does for a command. -/
def execute (server : CacheServer) (now : Nat) : CacheCommand → CacheReply × CacheServer
  | .set key value seconds =>
      (.status "OK",
        Function.update server key (some ⟨value, seconds.map fun s => now + 1000 * s⟩))
  | .get key =>
      match server.live now key with
      | some entry => (.string entry.value, server)
      | none => (.nil, server)
  | .del key =>
      match server.live now key with
      | some _ => (.integer 1, Function.update server key none)
      | none => (.integer 0, server)
  | .expire key seconds =>
      match server.live now key with
      | some entry =>
          if 0 < seconds then
            (.integer 1,
              Function.update server key
                (some { entry with deadline := some (now + 1000 * seconds.toNat) }))
          else (.integer 1, Function.update server key none)
      | none => (.integer 0, server)

/-- `redisCommand`. A null pointer is no reply. -/
def command (server : CacheServer) (now : Nat) (answer : CacheAnswer) (c : CacheCommand) :
    Option CacheReply × CacheServer :=
  match answer with
  | .executed => ((execute server now c).1, (execute server now c).2)
  | .refused text => (some (.error text), server)
  | .lost true => (none, (execute server now c).2)
  | .lost false => (none, server)

end CacheServer

/-- The key of a command. -/
def CacheCommand.key : CacheCommand → Text
  | .set key _ _ => key
  | .get key => key
  | .del key => key
  | .expire key _ => key

namespace CacheServer

/-- What is done for a command changes the entry of its key only. -/
theorem execute_frame (server : CacheServer) (now : Nat) {c : CacheCommand} {key : Text}
    (h : key ≠ c.key) : (server.execute now c).2 key = server key := by
  cases c with
  | set other value seconds => exact Function.update_of_ne h _ _
  | get other =>
      simp only [execute]
      split <;> rfl
  | del other =>
      simp only [execute]
      split
      · exact Function.update_of_ne h _ _
      · rfl
  | expire other seconds =>
      simp only [execute]
      split
      · split <;> exact Function.update_of_ne h _ _
      · rfl

/-- However it ends. -/
theorem command_frame (server : CacheServer) (now : Nat) (answer : CacheAnswer) {c : CacheCommand}
    {key : Text} (h : key ≠ c.key) : (server.command now answer c).2 key = server key := by
  cases answer with
  | executed => exact execute_frame server now h
  | refused text => rfl
  | lost executed =>
      cases executed with
      | true => exact execute_frame server now h
      | false => rfl

/-- An entry that was stored is alive until it expires. -/
theorem live_update (server : CacheServer) (key value : Text) {seconds : Option Nat}
    {stored asked : Nat} (h : ∀ s, seconds = some s → asked < stored + 1000 * s) :
    live (Function.update server key (some ⟨value, seconds.map fun s => stored + 1000 * s⟩)) asked
      key = some ⟨value, seconds.map fun s => stored + 1000 * s⟩ := by
  rw [live, Function.update_self]
  cases seconds with
  | none => rfl
  | some s => simp [h s rfl]

end CacheServer

/-! ## The cache -/

/-- The static member `context_`, which is null or not, and the server behind it. -/
structure Cache where
  connected : Bool
  server : CacheServer

namespace Cache

/-- A part of the program that uses the cache. -/
abbrev Action := Throwing Cache Text

/-- When a command arrives at the server, and how it ends. -/
structure Ambient where
  now : Nat
  answer : CacheAnswer

/-- What the four functions do with a command. -/
def command (name : Text) (c : CacheCommand) (amb : Ambient) : Action CacheReply := do
  let cache ← get
  if cache.connected = false then throw (("Not connected to Redis." : Text))
  else
    let answered := cache.server.command amb.now amb.answer c
    modify fun cache => { cache with server := answered.2 }
    match answered.1 with
    | none => throw (("Failed to execute " : Text) ++ name ++ (" command." : Text))
    | some reply => pure reply

/-- `set`. -/
protected def set (key value : Text) (expireSeconds : Int) (amb : Ambient) : Action Unit := do
  let seconds := if 0 < expireSeconds then some expireSeconds.toNat else none
  let _ ← command "SET" (.set (cString key) (cString value) seconds) amb
  pure ()

/-- `get`. -/
protected def get (key : Text) (amb : Ambient) : Action Text := do
  let reply ← command "GET" (.get (cString key)) amb
  match reply with
  | .string text => pure text
  | .nil => pure []
  | _ => throw (("Unexpected reply type from Redis." : Text))

/-- `del`. -/
protected def del (key : Text) (amb : Ambient) : Action Unit := do
  let _ ← command "DEL" (.del (cString key)) amb
  pure ()

/-- `expire`. -/
protected def expire (key : Text) (expireSeconds : Int) (amb : Ambient) : Action Unit := do
  let _ ← command "EXPIRE" (.expire (cString key) expireSeconds) amb
  pure ()

end Cache

/-- A call of the cache. -/
inductive CacheCall where
  | set (key value : Text) (expireSeconds : Int)
  | get (key : Text)
  | del (key : Text)
  | expire (key : Text) (expireSeconds : Int)

namespace CacheCall

/-- The key that the caller gives. -/
def key : CacheCall → Text
  | .set key _ _ => key
  | .get key => key
  | .del key => key
  | .expire key _ => key

/-- What the call does. -/
def act (amb : Cache.Ambient) : CacheCall → Cache.Action Unit
  | .set key value expireSeconds => Cache.set key value expireSeconds amb
  | .get key => do
      let _ ← Cache.get key amb
      pure ()
  | .del key => Cache.del key amb
  | .expire key expireSeconds => Cache.expire key expireSeconds amb

end CacheCall

namespace Cache

/-- One call, with its surroundings. A caller goes on when it throws. -/
def step (cache : Cache) (call : CacheCall × Ambient) : Cache :=
  ((call.1.act call.2).outcome cache).2

/-- What `set` stored is what `get` returns before it expires, whatever the server held before and
whatever is done with other keys in between. -/
def RoundTrip (connected : Bool) (key value : Text) (expireSeconds : Int) (others : Text → Prop)
    (setAnswer getAnswer : CacheAnswer) : Prop :=
  ∀ (server : CacheServer) (stored asked : Nat) (between : List (CacheCall × Ambient)),
    (∀ call ∈ between, others call.1.key) →
    (0 < expireSeconds → asked < stored + 1000 * expireSeconds.toNat) →
    ∀ cache, (Cache.set key value expireSeconds ⟨stored, setAnswer⟩).outcome ⟨connected, server⟩ =
        (.ok (), cache) →
      ((Cache.get key ⟨asked, getAnswer⟩).outcome (runFrom step cache between)).1 = .ok value

/-! ## One call -/

/-- Where a command ends. -/
theorem outcome_command (name : Text) (c : CacheCommand) (amb : Ambient) (cache : Cache) :
    (command name c amb).outcome cache =
      if cache.connected = false then (.error ("Not connected to Redis." : Text), cache)
      else
        ((match (cache.server.command amb.now amb.answer c).1 with
          | none => .error (("Failed to execute " : Text) ++ name ++ (" command." : Text))
          | some reply => .ok reply),
          { cache with server := (cache.server.command amb.now amb.answer c).2 }) := by
  unfold command
  rw [outcome_get_bind]
  split
  · rfl
  · rw [outcome_bind_ok (outcome_modify _ _)]
    cases (cache.server.command amb.now amb.answer c).1 <;> rfl

/-- The command that a call sends. -/
def sent : CacheCall → Text × CacheCommand
  | .set key value expireSeconds =>
      ("SET", .set (cString key) (cString value)
        (if 0 < expireSeconds then some expireSeconds.toNat else none))
  | .get key => ("GET", .get (cString key))
  | .del key => ("DEL", .del (cString key))
  | .expire key expireSeconds => ("EXPIRE", .expire (cString key) expireSeconds)

theorem key_sent (call : CacheCall) : (sent call).2.key = cString call.key := by
  cases call <;> rfl

/-- What follows a command leaves the cache. -/
theorem step_eq (cache : Cache) (call : CacheCall) (amb : Ambient) :
    cache.step (call, amb) = ((command (sent call).1 (sent call).2 amb).outcome cache).2 := by
  have hbind : ∀ {α β : Type} (x : Action α) (f : α → Action β),
      (∀ a s, ((f a).outcome s).2 = s) → (Throwing.outcome (x >>= f) cache).2 =
        (x.outcome cache).2 := by
    intro α β x f hf
    cases hrun : x.outcome cache with
    | mk r s =>
        cases r with
        | ok a => rw [outcome_bind_ok hrun, hf]
        | error e => rw [outcome_bind_error hrun]
  cases call with
  | set key value expireSeconds => exact hbind _ _ fun _ _ => rfl
  | get key =>
      refine (hbind _ _ fun _ _ => rfl).trans (hbind _ _ fun reply s => ?_)
      cases reply <;> rfl
  | del key => exact hbind _ _ fun _ _ => rfl
  | expire key expireSeconds => exact hbind _ _ fun _ _ => rfl

/-- A call stays connected, and changes the entry of one key only. -/
theorem step_frame (cache : Cache) (call : CacheCall × Ambient) {key : Text}
    (h : key ≠ cString call.1.key) :
    (cache.step call).connected = cache.connected ∧
      (cache.step call).server key = cache.server key := by
  obtain ⟨call, amb⟩ := call
  rw [step_eq, outcome_command]
  split
  · exact ⟨rfl, rfl⟩
  · exact ⟨rfl, CacheServer.command_frame _ _ _ (by rwa [key_sent])⟩

/-- Calls with other keys leave the entry of a key. -/
theorem run_frame (cache : Cache) {between : List (CacheCall × Ambient)} {key : Text}
    (h : ∀ call ∈ between, key ≠ cString call.1.key) :
    (runFrom step cache between).connected = cache.connected ∧
      (runFrom step cache between).server key = cache.server key := by
  induction between generalizing cache with
  | nil => exact ⟨rfl, rfl⟩
  | cons call rest ih =>
      have hstep := cache.step_frame call (h call List.mem_cons_self)
      have hrest := ih (cache.step call) fun other hother => h other (List.mem_cons_of_mem _ hother)
      exact ⟨hrest.1.trans hstep.1, hrest.2.trans hstep.2⟩

/-- A `get` that is answered returns what is alive. -/
theorem get_executed {cache : Cache} (h : cache.connected = true) (key : Text) (asked : Nat) :
    ((Cache.get key ⟨asked, .executed⟩).outcome cache).1 =
      .ok (((cache.server.live asked (cString key)).map CacheEntry.value).getD []) := by
  have hcommand := outcome_command "GET" (.get (cString key)) ⟨asked, .executed⟩ cache
  rw [h, if_neg (by decide)] at hcommand
  unfold Cache.get
  cases hlive : cache.server.live asked (cString key) with
  | some entry =>
      simp only [CacheServer.command, CacheServer.execute, hlive] at hcommand
      rw [outcome_bind_ok hcommand]
      rfl
  | none =>
      simp only [CacheServer.command, CacheServer.execute, hlive] at hcommand
      rw [outcome_bind_ok hcommand]
      rfl

/-- One that is not answered throws. -/
theorem get_not_executed {answer : CacheAnswer} (h : answer ≠ .executed) (cache : Cache)
    (key value : Text) (asked : Nat) :
    ((Cache.get key ⟨asked, answer⟩).outcome cache).1 ≠ .ok value := by
  have hcommand := outcome_command "GET" (.get (cString key)) ⟨asked, answer⟩ cache
  unfold Cache.get
  split at hcommand
  · rw [outcome_bind_error hcommand]
    exact nofun
  · cases answer with
    | executed => exact absurd rfl h
    | refused text =>
        rw [outcome_bind_ok hcommand]
        exact nofun
    | lost executed =>
        cases executed <;>
        · rw [outcome_bind_error hcommand]
          exact nofun

/-- What `set` asks the server to hold. -/
def entry (value : Text) (expireSeconds : Int) (stored : Nat) : CacheEntry :=
  ⟨cString value,
    (if 0 < expireSeconds then some expireSeconds.toNat else none).map fun s => stored + 1000 * s⟩

/-- A `set` returns when there is a reply, and does not look at it. -/
theorem set_ok_iff (cache after : Cache) (key value : Text) (expireSeconds : Int) (stored : Nat)
    (answer : CacheAnswer) :
    (Cache.set key value expireSeconds ⟨stored, answer⟩).outcome cache = (.ok (), after) ↔
      cache.connected = true ∧
        (answer = .executed ∧
            after = ⟨true, Function.update cache.server (cString key)
              (some (entry value expireSeconds stored))⟩ ∨
          (∃ text, answer = .refused text) ∧ after = cache) := by
  obtain ⟨connected, server⟩ := cache
  unfold Cache.set entry
  dsimp only
  generalize (if 0 < expireSeconds then some expireSeconds.toNat else none) = seconds
  have hcommand := outcome_command "SET" (.set (cString key) (cString value) seconds)
    ⟨stored, answer⟩ ⟨connected, server⟩
  cases connected with
  | false =>
      rw [if_pos rfl] at hcommand
      rw [outcome_bind_error hcommand]
      simp
  | true =>
      rw [if_neg Bool.noConfusion] at hcommand
      cases answer with
      | executed =>
          rw [outcome_bind_ok hcommand, outcome_pure]
          simp [CacheServer.command, CacheServer.execute, eq_comm]
      | refused text =>
          rw [outcome_bind_ok hcommand, outcome_pure]
          simp [CacheServer.command, eq_comm]
      | lost executed =>
          cases executed <;>
          · rw [outcome_bind_error hcommand]
            simp

/-- Before it expires the entry is alive. -/
theorem live_entry (server : CacheServer) (key value : Text) {expireSeconds : Int}
    {stored asked : Nat} (h : 0 < expireSeconds → asked < stored + 1000 * expireSeconds.toNat) :
    CacheServer.live (Function.update server key (some (entry value expireSeconds stored))) asked
      key = some (entry value expireSeconds stored) := by
  refine CacheServer.live_update server key (cString value) fun s hs => ?_
  split at hs
  · next hpos =>
      cases hs
      exact h hpos
  · cases hs

/-- A text is read as a whole when it has no NUL. -/
theorem cString_eq_self_iff (text : Text) : cString text = text ↔ '\x00' ∉ text :=
  ⟨fun h => h ▸ not_mem_cString text, cString_of_not_mem⟩

/-! ## Round trips -/

/-- What is stored is returned exactly when there is no reply to the `SET`, so that `set` throws, or
both commands are executed, the value has no NUL, and no other key in use is the same up to its
first NUL. -/
theorem round_trip_iff (connected : Bool) (key value : Text) (expireSeconds : Int)
    (others : Text → Prop) (setAnswer getAnswer : CacheAnswer) :
    RoundTrip connected key value expireSeconds others setAnswer getAnswer ↔
      connected = false ∨ (∃ executed, setAnswer = .lost executed) ∨
        setAnswer = .executed ∧ getAnswer = .executed ∧ '\x00' ∉ value ∧
          ∀ other, others other → cString other ≠ cString key := by
  have hlonger : value ++ ['x'] ≠ value := by simp
  constructor
  · intro h
    rw [or_iff_not_imp_left, Bool.not_eq_false]
    rintro rfl
    -- the server may hold another value, and the time of the calls is 0
    have hrun := fun between hothers cache hset =>
      h (fun _ => some ⟨value ++ ['x'], none⟩) 0 0 between hothers (by omega) cache
        ((set_ok_iff _ _ _ _ _ _ _).mpr ⟨rfl, hset⟩)
    cases setAnswer with
    | lost executed => exact .inl ⟨executed, rfl⟩
    | refused text =>
        have hget := hrun [] (by simp) _ (.inr ⟨⟨text, rfl⟩, rfl⟩)
        by_cases hanswer : getAnswer = .executed
        · rw [hanswer, runFrom_nil, get_executed rfl] at hget
          exact absurd (Except.ok.inj hget) hlonger
        · exact absurd hget (get_not_executed hanswer _ _ _ _)
    | executed =>
        have hset := hrun [] (by simp) _ (.inl ⟨rfl, rfl⟩)
        by_cases hanswer : getAnswer = .executed
        · subst hanswer
          rw [runFrom_nil, get_executed rfl, live_entry _ _ _ (by omega)] at hset
          have hvalue := (cString_eq_self_iff value).mp (Except.ok.inj hset)
          refine .inr ⟨rfl, rfl, hvalue, fun other hother hsame => ?_⟩
          -- another key is given another value, and this one has it
          have hget := hrun [(.set other (value ++ ['x']) 0, ⟨0, .executed⟩)]
            (List.forall_mem_singleton.mpr hother) _ (.inl ⟨rfl, rfl⟩)
          have hstep := fun cache after => (set_ok_iff cache after other (value ++ ['x']) 0 0
            .executed).mpr
          rw [runFrom_cons, runFrom_nil, step] at hget
          dsimp only [CacheCall.act] at hget
          rw [hstep _ _ ⟨rfl, .inl ⟨rfl, rfl⟩⟩, get_executed rfl, hsame,
            live_entry _ _ _ (by omega)] at hget
          have hnul : '\x00' ∉ value ++ ['x'] := by simp [hvalue]
          exact hlonger (((cString_eq_self_iff _).mpr hnul).symm.trans (Except.ok.inj hget))
        · exact absurd hset (get_not_executed hanswer _ _ _ _)
  · intro h server stored asked between hothers hbefore cache hset
    obtain ⟨hconnected, hset⟩ := (set_ok_iff _ _ _ _ _ _ _).mp hset
    rcases h with rfl | ⟨executed, rfl⟩ | ⟨rfl, rfl, hvalue, hdistinct⟩
    · cases hconnected
    · rcases hset with ⟨hset, -⟩ | ⟨⟨text, hset⟩, -⟩ <;> cases hset
    · obtain ⟨-, rfl⟩ | ⟨⟨text, htext⟩, -⟩ := hset
      · have hframe := run_frame ⟨true, Function.update server (cString key)
          (some (entry value expireSeconds stored))⟩ fun call hcall =>
            (hdistinct _ (hothers call hcall)).symm
        have hlive := live_entry server (cString key) value hbefore
        rw [get_executed hframe.1, CacheServer.live, hframe.2]
        rw [CacheServer.live] at hlive
        rw [hlive]
        exact congrArg Except.ok ((cString_eq_self_iff value).mpr hvalue)
      · cases htext

/-- A `SET` that is refused, a value with a NUL, and another key that is the same up to its NUL:
each time `set` returns, and `get` returns something else. -/
theorem stored_is_not_returned :
    ¬ RoundTrip true "user:1" "on" 0 (fun other => other ≠ "user:1")
        (.refused "OOM command not allowed when used memory > 'maxmemory'.") .executed ∧
      ¬ RoundTrip true "user:1" ['a', '\x00', 'b'] 0 (fun other => other ≠ "user:1")
        .executed .executed ∧
      ¬ RoundTrip true "user:1" "on" 0 (fun other => other ≠ "user:1") .executed .executed := by
  refine ⟨?_, ?_, ?_⟩
  · intro h
    have hget := h (fun _ => none) 0 0 [] (by simp) (by decide) _ rfl
    exact absurd hget (by decide)
  · intro h
    have hget := h (fun _ => none) 0 0 [] (by simp) (by decide) _ rfl
    exact absurd hget (by decide)
  · intro h
    have hget := h (fun _ => none) 0 0
      [(.set (("user:1" : Text) ++ ['\x00', 'a']) "off" 0, ⟨0, .executed⟩)]
      (List.forall_mem_singleton.mpr (by decide)) (by decide) _ rfl
    exact absurd hget (by decide)

end Cache

end Brazier
