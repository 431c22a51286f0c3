import Brazier.ProofLib.Runs
import Brazier.WebSocket.Registry
import Mathlib.Data.List.Nodup
import Mathlib.Logic.Function.Basic

/-!
# Session identifiers

`generate_session_id` and `fast_itoa` of `src/WebSocketSession.cpp`, and a process whose threads
create sessions. A thread reads the clock and later takes a number of the counter; an event is one
of these, and a list of events is an interleaving. The random generator is local to its thread, so
a draw is the same whenever it is made. `session_ids_unique_iff` says when no two sessions get the
same identifier.
-/

namespace Brazier

open ProofLib (runFrom runFrom_append runFrom_cons runFrom_nil Throughout throughout_append)

namespace WebSocketSession

/-! ## The identifier -/

/-- `generate_session_id`, from what the clock, `rng` and the counter gave. -/
def generateSessionId (timestamp draw count : BitVec 64) : BitVec 64 :=
  (timestamp <<< 20) ^^^ (draw &&& 0xFFFFF) ^^^ count

/-- The loop that fills `temp`, the lowest digit first. -/
def tempDigits (num : Nat) : List Char :=
  if num = 0 then []
  else Char.ofNat ('0'.toNat + num % 10) :: tempDigits (num / 10)
termination_by num
decreasing_by omega

/-- `fast_itoa`: what is written to `buf`. The digits are copied from the end of `temp`. -/
def fastItoa (num : Nat) : List Char :=
  if num = 0 then ['0', '\x00'] else (tempDigits num).reverse ++ ['\x00']

/-- `get_id`, as a `std::string` is compared with it. -/
def getId (sessionId : BitVec 64) : Text := cString (fastItoa sessionId.toNat)

/-- A digit of the loop is one of a number that is printed. -/
theorem digitChar_mod_ten (num : Nat) :
    Char.ofNat ('0'.toNat + num % 10) = (num % 10).digitChar := by
  have hdigit : ∀ d < 10, Char.ofNat ('0'.toNat + d) = d.digitChar := by decide
  exact hdigit _ (Nat.mod_lt num (by decide))

/-- `temp` holds the digits of the number in reverse. -/
theorem tempDigits_reverse {num : Nat} (h : 0 < num) :
    (tempDigits num).reverse = Nat.toDigits 10 num := by
  induction num using tempDigits.induct with
  | case1 => omega
  | case2 num hnum ih =>
      rw [tempDigits, if_neg hnum, List.reverse_cons, digitChar_mod_ten]
      rcases Nat.lt_or_ge num 10 with hlt | hge
      · rw [Nat.div_eq_of_lt hlt, Nat.mod_eq_of_lt hlt, Nat.toDigits_of_lt_base hlt, tempDigits]
        rfl
      · rw [ih (by omega), Nat.toDigits_of_base_le (by decide) hge]

/-- The buffer holds the number as it is printed, and a NUL behind it. -/
theorem fastItoa_eq (num : Nat) : fastItoa num = natText num ++ ['\x00'] := by
  unfold fastItoa
  split
  · next h =>
      subst h
      rfl
  · next h => rw [tempDigits_reverse (Nat.pos_of_ne_zero h), natText_eq_toDigits]

/-- What is compared are the digits. -/
theorem getId_eq (sessionId : BitVec 64) : getId sessionId = natText sessionId.toNat := by
  have hdigits : ∀ c ∈ natText sessionId.toNat, decide (c ≠ '\x00') = true := by
    intro c hc
    have hdigit := isDigit_of_mem_natText hc
    rw [decide_eq_true_eq]
    rintro rfl
    exact absurd hdigit (by decide)
  rw [getId, fastItoa_eq, cString, List.takeWhile_append_of_pos hdigits]
  exact List.append_nil _

/-- Different identifiers have different texts. -/
theorem getId_injective : Function.Injective getId := by
  intro a b h
  rw [getId_eq, getId_eq] at h
  exact BitVec.eq_of_toNat_eq (natText_injective h)

/-- The mask of the draw. -/
theorem getLsbD_mask (i : Nat) : (0xFFFFF : BitVec 64).getLsbD i = decide (i < 20) := by
  have hmask : (0xFFFFF : BitVec 64) = BitVec.ofNat 64 (2 ^ 20 - 1) := rfl
  rw [hmask, BitVec.getLsbD_ofNat, Nat.testBit_two_pow_sub_one]
  by_cases hi : i < 20
  · simp [hi, show i < 64 by omega]
  · simp [hi]

/-- A low bit is one of the draw and the counter. -/
theorem getLsbD_low (timestamp draw count : BitVec 64) {i : Nat} (hi : i < 20) :
    (generateSessionId timestamp draw count).getLsbD i = (draw ^^^ count).getLsbD i := by
  rw [generateSessionId, BitVec.getLsbD_xor, BitVec.getLsbD_xor, BitVec.getLsbD_and, getLsbD_mask,
    BitVec.getLsbD_shiftLeft, BitVec.getLsbD_xor]
  simp [hi]

/-- A high bit is one of the clock and the counter. -/
theorem getLsbD_high (timestamp draw count : BitVec 64) {i : Nat} (hi : i < 44) :
    (generateSessionId timestamp draw count).getLsbD (20 + i) =
      (timestamp.getLsbD i ^^ count.getLsbD (20 + i)) := by
  have hlow : ¬ 20 + i < 20 := by omega
  have hwidth : 20 + i < 64 := by omega
  rw [generateSessionId, BitVec.getLsbD_xor, BitVec.getLsbD_xor, BitVec.getLsbD_and, getLsbD_mask,
    BitVec.getLsbD_shiftLeft]
  simp [hlow, hwidth]

/-- Two identifiers are equal exactly when the draws differ in the low bits in which the counters
differ, and the clock readings differ in the bits in which the rest of the counters does. -/
theorem generateSessionId_eq_iff (t₁ r₁ c₁ t₂ r₂ c₂ : BitVec 64) :
    generateSessionId t₁ r₁ c₁ = generateSessionId t₂ r₂ c₂ ↔
      (r₁ ^^^ r₂).extractLsb' 0 20 = (c₁ ^^^ c₂).extractLsb' 0 20 ∧
        (t₁ ^^^ t₂).extractLsb' 0 44 = (c₁ ^^^ c₂).extractLsb' 20 44 := by
  have hxor : ∀ a b c d : Bool, (a ^^ b) = (c ^^ d) ↔ (a ^^ c) = (b ^^ d) := by decide
  constructor
  · intro h
    constructor
    · ext i hi
      have hbit := congrArg (fun id => id.getLsbD i) h
      simp only [getLsbD_low _ _ _ hi, BitVec.getLsbD_xor] at hbit
      simpa [hi] using (hxor _ _ _ _).mp hbit
    · ext i hi
      have hbit := congrArg (fun id => id.getLsbD (20 + i)) h
      simp only [getLsbD_high _ _ _ hi] at hbit
      simpa [hi] using (hxor _ _ _ _).mp hbit
  · rintro ⟨hlow, hhigh⟩
    apply BitVec.eq_of_getLsbD_eq
    intro i hi
    rcases Nat.lt_or_ge i 20 with hlt | hge
    · have hbit := congrArg (fun bits => bits.getLsbD i) hlow
      rw [getLsbD_low _ _ _ hlt, getLsbD_low _ _ _ hlt, BitVec.getLsbD_xor, BitVec.getLsbD_xor,
        hxor]
      simpa [hlt] using hbit
    · obtain ⟨i, rfl⟩ := Nat.exists_eq_add_of_le hge
      have hlt : i < 44 := by omega
      have hbit := congrArg (fun bits => bits.getLsbD i) hhigh
      rw [getLsbD_high _ _ _ hlt, getLsbD_high _ _ _ hlt, hxor]
      simpa [hlt] using hbit

end WebSocketSession

/-! ## Threads that create sessions -/

/-- A session that was created: what its thread read, drew and counted. -/
structure Creation where
  timestamp : BitVec 64
  draw : BitVec 64
  count : BitVec 64
  deriving DecidableEq

/-- `session_id_`. -/
def Creation.sessionId (c : Creation) : BitVec 64 :=
  WebSocketSession.generateSessionId c.timestamp c.draw c.count

/-- A thread reads the clock in `generate_session_id`, or draws, counts and returns. -/
inductive CreationEvent where
  | clock (thread : Nat) (timestamp : BitVec 64)
  | count (thread : Nat) (draw : BitVec 64)

/-- `session_counter`, what the threads that are in the function read of the clock, and the
sessions of the process. -/
structure SessionProcess where
  sessionCounter : BitVec 64
  timestamps : Nat → Option (BitVec 64)
  created : List Creation

namespace SessionProcess

/-- A process before its first session. -/
def start : SessionProcess := ⟨0, fun _ => none, []⟩

/-- One event. A thread counts only after it has read the clock. -/
def step (process : SessionProcess) : CreationEvent → SessionProcess
  | .clock thread timestamp =>
      match process.timestamps thread with
      | some _ => process
      | none =>
          { process with
            timestamps := Function.update process.timestamps thread (some timestamp) }
  | .count thread draw =>
      match process.timestamps thread with
      | some timestamp =>
          { sessionCounter := process.sessionCounter + 1
            timestamps := Function.update process.timestamps thread none
            created := process.created ++ [⟨timestamp, draw, process.sessionCounter⟩] }
      | none => process

/-- The identifier of a session, as `get_session` sees it. -/
def getId (process : SessionProcess) (session : Fin process.created.length) : Text :=
  WebSocketSession.getId (process.created.get session).sessionId

/-- No two sessions have one identifier, and whatever sessions a manager was given or has lost, it
returns no other session than the one whose identifier was asked for. -/
structure Unique (process : SessionProcess) : Prop where
  ids : (process.created.map Creation.sessionId).Nodup
  found : ∀ (calls : List (RegistryCall (Fin process.created.length)))
    (asked session : Fin process.created.length),
    (WebSocketManager.run calls).getSession process.getId (process.getId asked) = some session →
      session = asked

/-- Two sessions whose ingredients cancel: the draws differ in the low bits in which the counters
differ, and the clock readings in the bits in which the rest of the counters does. -/
def Cancels (a b : Creation) : Prop :=
  (a.draw ^^^ b.draw).extractLsb' 0 20 = (a.count ^^^ b.count).extractLsb' 0 20 ∧
    (a.timestamp ^^^ b.timestamp).extractLsb' 0 44 = (a.count ^^^ b.count).extractLsb' 20 44

instance (a b : Creation) : Decidable (Cancels a b) := inferInstanceAs (Decidable (_ ∧ _))

/-- The session that an event creates cancels with none that is there. -/
def Uncancelled (process : SessionProcess) : CreationEvent → Prop
  | .clock _ _ => True
  | .count thread draw => ∀ timestamp, process.timestamps thread = some timestamp →
      ∀ c ∈ process.created, ¬ Cancels c ⟨timestamp, draw, process.sessionCounter⟩

theorem sessionId_eq_iff (a b : Creation) : a.sessionId = b.sessionId ↔ Cancels a b :=
  WebSocketSession.generateSessionId_eq_iff ..

/-- A search returns the session that was asked for when the identifiers differ. -/
theorem unique_iff (process : SessionProcess) :
    process.Unique ↔ (process.created.map Creation.sessionId).Nodup := by
  refine ⟨Unique.ids, fun h => ⟨h, fun calls asked session hfound => ?_⟩⟩
  have hid := WebSocketSession.getId_injective (WebSocketManager.of_getSession hfound).2
  have hget : ∀ i : Fin process.created.length,
      (process.created.map Creation.sessionId)[i.val]? =
        some (process.created.get i).sessionId := by simp
  have hlength : session.val < (process.created.map Creation.sessionId).length := by simp
  refine Fin.ext ((List.getElem?_inj hlength h).mp ?_)
  rw [hget, hget, hid]

/-- An event keeps the identifiers apart exactly when the new session cancels with none. -/
theorem unique_step_iff (process : SessionProcess) (event : CreationEvent) :
    (process.step event).Unique ↔ process.Unique ∧ process.Uncancelled event := by
  rw [unique_iff, unique_iff]
  cases event with
  | clock thread timestamp =>
      simp only [step, Uncancelled, and_true]
      split <;> rfl
  | count thread draw =>
      cases hread : process.timestamps thread with
      | none => simp [step, Uncancelled, hread]
      | some timestamp =>
          simp only [step, Uncancelled, hread, List.map_append, List.map_cons, List.map_nil]
          rw [List.nodup_append]
          simp [← sessionId_eq_iff]

/-- After any interleaving of the threads the identifiers are unique, and searches find what was
asked for, exactly when no session was created whose ingredients cancel with those of an earlier
one. -/
theorem session_ids_unique_iff (events : List CreationEvent) :
    (runFrom step start events).Unique ↔ Throughout step Uncancelled start events := by
  induction events using List.reverseRecOn with
  | nil =>
      rw [runFrom_nil, unique_iff]
      exact ⟨fun _ => trivial, fun _ => List.nodup_nil⟩
  | append_singleton events event ih =>
      rw [runFrom_append, throughout_append, runFrom_cons, runFrom_nil, unique_step_iff, ih]
      exact and_congr_right fun _ => (and_iff_left trivial).symm

/-- The counter is the number of sessions, and each session has the number of those before it. -/
structure Counted (process : SessionProcess) : Prop where
  sessionCounter : process.sessionCounter = BitVec.ofNat 64 process.created.length
  created : process.created.map Creation.count =
    (List.range process.created.length).map (BitVec.ofNat 64)

theorem Counted.step {process : SessionProcess} (h : Counted process) (event : CreationEvent) :
    Counted (process.step event) := by
  cases event with
  | clock thread timestamp =>
      simp only [SessionProcess.step]
      split
      · exact h
      · exact ⟨h.sessionCounter, h.created⟩
  | count thread draw =>
      simp only [SessionProcess.step]
      split
      · refine ⟨?_, ?_⟩
        · rw [List.length_append, List.length_singleton, BitVec.ofNat_add, h.sessionCounter]
          rfl
        · rw [List.map_append, List.length_append, List.length_singleton, List.range_succ,
            List.map_append, h.created, h.sessionCounter]
          rfl
      · exact h

/-- After any interleaving the counter is the number of sessions. -/
theorem counted_run (events : List CreationEvent) : Counted (runFrom step start events) := by
  induction events using List.reverseRecOn with
  | nil => exact ⟨rfl, rfl⟩
  | append_singleton events event ih =>
      rw [runFrom_append]
      exact ih.step event

/-- Up to 2^20 sessions whose threads read different times are told apart. -/
theorem unique_of_readings {events : List CreationEvent}
    (hfew : (runFrom step start events).created.length ≤ 2 ^ 20)
    (hreadings : ((runFrom step start events).created.map
      fun c => c.timestamp.extractLsb' 0 44).Nodup) :
    (runFrom step start events).Unique := by
  have hcounted := (counted_run events).created
  revert hfew hreadings hcounted
  generalize runFrom step start events = process
  intro hfew hreadings hcounted
  have hhigh : ∀ c ∈ process.created, c.count.extractLsb' 20 44 = 0 := by
    intro c hc
    have hcount := List.mem_map_of_mem (f := Creation.count) hc
    rw [hcounted] at hcount
    obtain ⟨i, hi, hci⟩ := List.mem_map.mp hcount
    rw [List.mem_range] at hi
    apply BitVec.eq_of_toNat_eq
    rw [← hci, BitVec.extractLsb'_toNat, BitVec.toNat_ofNat, Nat.mod_eq_of_lt (by omega),
      Nat.shiftRight_eq_div_pow, Nat.div_eq_of_lt (by omega)]
    rfl
  rw [unique_iff]
  rw [List.nodup_iff_pairwise_ne, List.pairwise_map] at hreadings ⊢
  refine hreadings.imp_of_mem fun {a b} ha hb hne heq => hne ?_
  have hcancel := ((sessionId_eq_iff a b).mp heq).2
  rw [BitVec.extractLsb'_xor, BitVec.extractLsb'_xor, hhigh a ha, hhigh b hb] at hcancel
  exact BitVec.xor_eq_zero_iff.mp hcancel

/-- Two threads read the same time; one draws 1 and gets the number 0, the other draws 0 and gets
the number 1. -/
def sameTime : List CreationEvent := [.clock 0 5, .clock 1 5, .count 0 1, .count 1 0]

/-- Both sessions get the same identifier. -/
theorem sameTime_collides :
    (runFrom step start sameTime).created = [⟨5, 1, 0⟩, ⟨5, 0, 1⟩] ∧
      (⟨5, 1, 0⟩ : Creation).sessionId = (⟨5, 0, 1⟩ : Creation).sessionId ∧
      ¬ (runFrom step start sameTime).Unique := by
  have hcreated : (runFrom step start sameTime).created = [⟨5, 1, 0⟩, ⟨5, 0, 1⟩] := rfl
  have hid : (⟨5, 1, 0⟩ : Creation).sessionId = (⟨5, 0, 1⟩ : Creation).sessionId := by decide
  refine ⟨hcreated, hid, ?_⟩
  rw [unique_iff, hcreated, List.map_cons, hid]
  decide

end SessionProcess

end Brazier
