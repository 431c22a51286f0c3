import Brazier.ProofLib.Runs
import Brazier.WebSocket.Sessions
import Mathlib.Data.List.Induction
import Mathlib.Data.List.Perm.Basic
import Mathlib.Data.Multiset.AddSub

/-!
# The session registry

`add_session`, `remove_session` and `get_session` of `src/WebSocketManager.cpp`, over any type of
sessions that are compared as their pointers are. A removal moves the last session to the place of
the one that is removed, so the order changes. `registry_bookkeeping` says that nothing else does.
-/

namespace Brazier

open ProofLib (runFrom runFrom_append)

/-- A `WebSocketManager`: `sessions_`, and `session_count_`. -/
structure WebSocketManager (α : Type) where
  sessions : List α
  sessionCount : Nat
  deriving DecidableEq

/-- A call that changes the registry. -/
inductive RegistryCall (α : Type) where
  | add (session : α)
  | remove (session : α)

namespace WebSocketManager

variable {α : Type} [DecidableEq α]

/-- A manager without sessions. -/
def empty : WebSocketManager α := ⟨[], 0⟩

/-- `add_session`. -/
def addSession (manager : WebSocketManager α) (session : α) : WebSocketManager α :=
  let sessions := manager.sessions ++ [session]
  ⟨sessions, sessions.length⟩

/-- `remove_session`. The loop ends at the first place that holds the session. -/
def removeSession (manager : WebSocketManager α) (session : α) : WebSocketManager α :=
  match manager.sessions.idxOf? session with
  | some i =>
      let sessions := (manager.sessions.set i (manager.sessions.getLast?.getD session)).dropLast
      ⟨sessions, sessions.length⟩
  | none => manager

/-- `get_session`. A session has an identifier, `get_id()`. -/
def getSession (getId : α → Text) (manager : WebSocketManager α) (sessionId : Text) : Option α :=
  manager.sessions.find? fun session => getId session = sessionId

/-- One call. -/
def step (manager : WebSocketManager α) : RegistryCall α → WebSocketManager α
  | .add session => manager.addSession session
  | .remove session => manager.removeSession session

/-- The registry after some calls. -/
def run (calls : List (RegistryCall α)) : WebSocketManager α := runFrom step empty calls

/-! ## What the calls account for -/

/-- The sessions that should be there: those that were added, without one for each removal of a
session that was there. -/
def account (sessions : Multiset α) : RegistryCall α → Multiset α
  | .add session => session ::ₘ sessions
  | .remove session => sessions.erase session

/-- The sessions that should be there after some calls. -/
def balance (calls : List (RegistryCall α)) : Multiset α := runFrom account 0 calls

/-- The registry agrees with the account. -/
structure Balanced (manager : WebSocketManager α) (sessions : Multiset α) : Prop where
  sessions : (manager.sessions : Multiset α) = sessions
  count : manager.sessionCount = manager.sessions.length

omit [DecidableEq α] in
/-- The last element takes the place of another, or goes when that is its own. -/
theorem perm_eraseIdx {items : List α} {i : Nat} (hi : i < items.length) (default : α) :
    (items.set i (items.getLast?.getD default)).dropLast.Perm (items.eraseIdx i) := by
  induction items using List.reverseRecOn with
  | nil => cases hi
  | append_singleton front last =>
      rw [List.getLast?_concat, Option.getD_some]
      rcases Nat.lt_or_ge i front.length with hlt | hge
      · rw [List.set_append_left _ _ hlt, List.dropLast_concat,
          List.eraseIdx_append_of_lt_length hlt]
        exact (List.set_perm_cons_eraseIdx hlt last).trans (List.perm_append_singleton _ _).symm
      · rw [List.length_append, List.length_singleton] at hi
        obtain rfl : i = front.length := by omega
        rw [List.set_append_right _ _ (le_refl _), List.eraseIdx_append_of_length_le (le_refl _)]
        simp

/-- A removal takes away one occurrence. -/
theorem removeSession_perm (manager : WebSocketManager α) (session : α) :
    (manager.removeSession session).sessions.Perm (manager.sessions.erase session) := by
  rw [List.erase_eq_eraseIdx, removeSession]
  cases hplace : manager.sessions.idxOf? session with
  | none => exact .refl _
  | some i => exact perm_eraseIdx (List.idxOf?_eq_some_iff.mp hplace).1 session

/-- The number is stored with every change of the vector. -/
theorem sessionCount_removeSession {manager : WebSocketManager α}
    (h : manager.sessionCount = manager.sessions.length) (session : α) :
    (manager.removeSession session).sessionCount =
      (manager.removeSession session).sessions.length := by
  unfold removeSession
  split
  · rfl
  · exact h

/-- A call keeps the agreement. -/
theorem Balanced.step {manager : WebSocketManager α} {sessions : Multiset α}
    (h : Balanced manager sessions) (call : RegistryCall α) :
    Balanced (manager.step call) (account sessions call) := by
  obtain ⟨rfl, hcount⟩ := h
  cases call with
  | add session =>
      refine ⟨?_, rfl⟩
      show ((manager.sessions ++ [session] : List α) : Multiset α) = _
      rw [account, Multiset.cons_coe, Multiset.coe_eq_coe]
      exact List.perm_append_singleton session manager.sessions
  | remove session =>
      refine ⟨?_, sessionCount_removeSession hcount session⟩
      rw [account, Multiset.coe_erase, Multiset.coe_eq_coe]
      exact manager.removeSession_perm session

/-- After some calls the registry agrees with the account. -/
theorem balanced_run (calls : List (RegistryCall α)) : Balanced (run calls) (balance calls) := by
  unfold run balance
  induction calls using List.reverseRecOn with
  | nil => exact ⟨rfl, rfl⟩
  | append_singleton calls call ih =>
      rw [runFrom_append, runFrom_append]
      exact ih.step call

omit [DecidableEq α] in
/-- A search returns a session exactly when there is one with the identifier. -/
theorem getSession_isSome_iff (getId : α → Text) (manager : WebSocketManager α)
    (sessionId : Text) :
    (manager.getSession getId sessionId).isSome = true ↔
      ∃ session ∈ manager.sessions, getId session = sessionId := by
  simp [getSession]

omit [DecidableEq α] in
/-- What it returns is in the registry and has the identifier. -/
theorem of_getSession {getId : α → Text} {manager : WebSocketManager α} {sessionId : Text}
    {session : α} (h : manager.getSession getId sessionId = some session) :
    session ∈ manager.sessions ∧ getId session = sessionId :=
  ⟨List.mem_of_find?_eq_some h, by simpa using List.find?_some h⟩

/-- After any calls the sessions are those of the account, each as often as it should be; their
number is the one that is stored; and a session is found exactly when the account has one with the
identifier. -/
theorem registry_bookkeeping (getId : α → Text) (calls : List (RegistryCall α)) :
    ((run calls).sessions : Multiset α) = balance calls ∧
      (run calls).sessionCount = (run calls).sessions.length ∧
      ∀ sessionId,
        ((run calls).getSession getId sessionId).isSome = true ↔
          ∃ session ∈ balance calls, getId session = sessionId := by
  obtain ⟨hsessions, hcount⟩ := balanced_run calls
  refine ⟨hsessions, hcount, fun sessionId => ?_⟩
  rw [getSession_isSome_iff, ← hsessions]
  rfl

/-- The last session is removed, and then one that stands twice in the registry. -/
example : (run [.add 1, .add 2, .add 1, .add 3, .remove 3, .remove 1] : WebSocketManager Nat) =
    ⟨[1, 2], 2⟩ := by decide

end WebSocketManager

/-! ## The registry of a server -/

namespace WebSocketServer

/-- The manager of a server. Its sessions are their numbers. -/
def manager (server : WebSocketServer) : WebSocketManager Nat :=
  ⟨server.registry, server.sessionCount⟩

theorem manager_addSession (server : WebSocketServer) (id : Nat) :
    (server.addSession id).manager = server.manager.addSession id := rfl

/-- The servers of this development remove sessions in the same way. -/
theorem manager_removeSession {server : WebSocketServer}
    (h : server.sessionCount = server.registry.length) (id : Nat) :
    (server.removeSession id).manager = server.manager.removeSession id := by
  unfold manager removeSession WebSocketManager.removeSession swapRemove
  cases hplace : server.registry.idxOf? id with
  | some place => rfl
  | none => rw [h]

end WebSocketServer

end Brazier
