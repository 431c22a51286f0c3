import Brazier.ProofLib.Slots
import Brazier.WebSocket.Handlers

/-!
# Handler precedence

A message goes to the handler of the route and otherwise to the global one; an error or a close
event goes to both. A session keeps to this until a global handler of the manager takes the place
of what `handle_websocket` has set, and for errors only where one of the two is missing.
`precedence_iff` says exactly in which runs all sessions keep to it.
-/

namespace Brazier

open ProofLib

namespace WebSocketHandlers

variable {η : Type}

/-- The handlers that are to be called for an event of a session with a route. -/
def expected (kind : HandlerKind) (own global : Option η) : List η :=
  match kind with
  | .message | .binary =>
      match own with
      | some handler => [handler]
      | none => global.toList
  | .close | .error => own.toList ++ global.toList

/-- The global handler for a session: that of the manager, or that of the router when the session
connected. -/
def globalOf (managerGlobals : HandlerKind → Option η) (session : BoundSession η)
    (kind : HandlerKind) : Option η :=
  match managerGlobals kind with
  | some handler => some handler
  | none => session.routerGlobals kind

/-- Every session in `sessions_` that matched a route calls the handlers that are to be called. -/
def RightlyCalled (state : WebSocketHandlers η) : Prop :=
  ∀ session ∈ state.sessions, session.membership = .added → ∀ own, session.own = some own →
    ∀ kind, session.calls kind =
      expected kind (own kind) (globalOf state.managerGlobals session kind)

/-- The handlers of a route, the manager and the router do not get in the way of each other. For a
message the manager has no other handler than the route, for the close event the manager has none
beside the route, and for errors neither has. -/
def Fits (kind : HandlerKind) (own managerGlobal routerGlobal : Option η) : Prop :=
  match kind with
  | .message | .binary => ∀ handler ∈ own, ∀ global ∈ managerGlobal, handler = global
  | .close => own = none ∨ managerGlobal = none
  | .error => own = none ∨ managerGlobal = none ∧ routerGlobal = none

/-- The handlers fit where they meet: when a session is added, and when a global handler of the
manager is set while sessions are there. -/
def KeepsPrecedence (state : WebSocketHandlers η) : Event η → Prop
  | .addSession id =>
      ∀ session, state.sessions[id]? = some session → session.membership = .connecting →
        ∀ own, session.own = some own →
          ∀ kind, Fits kind (own kind) (state.managerGlobals kind) (session.routerGlobals kind)
  | .setManagerGlobal kind handler =>
      ∀ session ∈ state.sessions, session.membership = .added → ∀ own, session.own = some own →
        Fits kind (own kind) (some handler) (session.routerGlobals kind)
  | _ => True

/-! ## What a session is bound to -/

/-- The session as `handle_websocket` made it. -/
def asConnected (session : BoundSession η) : BoundSession η :=
  match session.own with
  | some own => .ofRoute own session.routerGlobals
  | none => .ofNoRoute session.routerGlobals

/-- A session has the handlers from its connection, with those of the manager in their place. -/
structure SessionBound (managerGlobals : HandlerKind → Option η) (session : BoundSession η) :
    Prop where
  connecting : session.membership = .connecting →
    session.handlers = (asConnected session).handlers
  added : session.membership = .added →
    session.handlers = ((asConnected session).add managerGlobals).handlers

/-- All sessions are bound. -/
def Bound (state : WebSocketHandlers η) : Prop :=
  ∀ session ∈ state.sessions, SessionBound state.managerGlobals session

theorem bound_bind (state : WebSocketHandlers η) (path : Text) :
    SessionBound state.managerGlobals (state.bind path) := by
  rw [bind]
  split
  · exact ⟨fun _ => rfl, nofun⟩
  · exact ⟨fun _ => rfl, nofun⟩

theorem bound_addOne {managerGlobals : HandlerKind → Option η} {session : BoundSession η}
    (h : SessionBound managerGlobals session) :
    SessionBound managerGlobals (addOne managerGlobals session) := by
  rw [addOne]
  split
  · next hconnecting =>
      refine ⟨nofun, fun _ => ?_⟩
      have hhandlers := h.connecting hconnecting
      show (fun kind => match managerGlobals kind with
        | some handler => some (SessionHandler.registered handler)
        | none => session.handlers kind) = _
      rw [hhandlers]
      rfl
  · exact h

theorem bound_removeOne {managerGlobals : HandlerKind → Option η} {session : BoundSession η}
    (h : SessionBound managerGlobals session) :
    SessionBound managerGlobals (removeOne session) := by
  rw [removeOne]
  split
  · exact ⟨nofun, nofun⟩
  · exact h

/-- A global handler of the manager is set for a session as it is noted for the sessions to come. -/
theorem bound_setOne {managerGlobals : HandlerKind → Option η} {session : BoundSession η}
    (h : SessionBound managerGlobals session) (kind : HandlerKind) (handler : η) :
    SessionBound (Function.update managerGlobals kind (some handler))
      (setOne kind handler session) := by
  rw [setOne]
  split
  · next hadded =>
      refine ⟨fun hno => ?_, fun _ => ?_⟩
      · have hconnecting : session.membership = .connecting := hno
        rw [hadded] at hconnecting
        cases hconnecting
      · show Function.update session.handlers kind (some (.registered handler)) = _
        rw [h.added hadded]
        funext kind'
        show _ = (match Function.update managerGlobals kind (some handler) kind' with
          | some handler => some (SessionHandler.registered handler)
          | none => (asConnected session).handlers kind')
        -- the setter replaces the handler of its kind, as `add_session` would
        by_cases hkind : kind' = kind
        · subst hkind
          rw [Function.update_self, Function.update_self]
        · rw [Function.update_of_ne hkind, Function.update_of_ne hkind]
          rfl
  · next hadded => exact ⟨h.connecting, fun hyes => absurd hyes hadded⟩

/-- Every step keeps the sessions bound. -/
theorem bound_step {state : WebSocketHandlers η} (h : Bound state) (engine : Regex.Engine)
    (event : Event η) : Bound (state.step engine event) := by
  cases event with
  | addRoute path connectHandler => exact h
  | setRoute kind path handler => exact h
  | setRouterGlobal kind handler => exact h
  | setManagerGlobal kind handler =>
      show ∀ session ∈ state.sessions.map (setOne kind handler), _
      rw [List.forall_mem_map]
      exact fun session hmem => bound_setOne (h session hmem) kind handler
  | connect path =>
      show ∀ session ∈ state.sessions ++ [state.bind path], _
      rw [List.forall_mem_append, List.forall_mem_singleton]
      exact ⟨h, state.bound_bind path⟩
  | addSession id =>
      exact forall_mem_modify_of_keeps id (fun _ hsession => bound_addOne hsession) h
  | removeSession id =>
      exact forall_mem_modify_of_keeps id (fun _ hsession => bound_removeOne hsession) h

/-! ## The handlers that fit -/

/-- A session with a route calls the right handlers exactly when they fit. -/
theorem calls_iff (own routerGlobals managerGlobals : HandlerKind → Option η)
    (kind : HandlerKind) :
    ((BoundSession.ofRoute own routerGlobals).add managerGlobals).calls kind =
        expected kind (own kind)
          (globalOf managerGlobals (.ofRoute own routerGlobals) kind) ↔
      Fits kind (own kind) (managerGlobals kind) (routerGlobals kind) := by
  cases hmanager : managerGlobals kind with
  | some handler =>
      have hcalls : ((BoundSession.ofRoute own routerGlobals).add managerGlobals).calls kind =
          [handler] := by
        simp [BoundSession.calls, BoundSession.add, hmanager, SessionHandler.calls]
      have hglobal : globalOf managerGlobals (.ofRoute own routerGlobals) kind = some handler := by
        rw [globalOf, hmanager]
      rw [hcalls, hglobal]
      cases kind with
      | message => cases hown : own .message <;> simp [expected, Fits, eq_comm]
      | binary => cases hown : own .binary <;> simp [expected, Fits, eq_comm]
      | close => cases hown : own .close <;> simp [expected, Fits]
      | error => cases hown : own .error <;> simp [expected, Fits]
  | none =>
      have hglobal : globalOf managerGlobals (.ofRoute own routerGlobals) kind =
          routerGlobals kind := by
        rw [globalOf, hmanager]
        rfl
      have hcalls : ((BoundSession.ofRoute own routerGlobals).add managerGlobals).calls kind =
          (BoundSession.ofRoute own routerGlobals).calls kind := by
        simp [BoundSession.calls, BoundSession.add, hmanager]
      rw [hcalls, hglobal]
      cases kind with
      | close =>
          -- the handlers of the route and of the router are both in the list, in this order
          refine iff_of_true ?_ (Or.inr rfl)
          rfl
      | message =>
          refine iff_of_true ?_ (by simp [Fits])
          cases hown : own .message <;> cases hrouter : routerGlobals .message <;>
            simp [BoundSession.calls, BoundSession.ofRoute, hown, hrouter, expected,
              SessionHandler.calls]
      | binary =>
          refine iff_of_true ?_ (by simp [Fits])
          cases hown : own .binary <;> cases hrouter : routerGlobals .binary <;>
            simp [BoundSession.calls, BoundSession.ofRoute, hown, hrouter, expected,
              SessionHandler.calls]
      | error =>
          cases hown : own .error <;> cases hrouter : routerGlobals .error <;>
            simp [BoundSession.calls, BoundSession.ofRoute, hown, hrouter, expected, Fits,
              SessionHandler.calls]

/-- The handlers of a session fit. -/
def SessionFits (managerGlobals : HandlerKind → Option η) (session : BoundSession η) : Prop :=
  session.membership = .added → ∀ own, session.own = some own →
    ∀ kind, Fits kind (own kind) (managerGlobals kind) (session.routerGlobals kind)

theorem fits_setOne (managerGlobals : HandlerKind → Option η) (kind : HandlerKind) (handler : η)
    (session : BoundSession η) :
    SessionFits managerGlobals (setOne kind handler session) ↔
      SessionFits managerGlobals session := by
  rw [setOne]
  split
  · exact Iff.rfl
  · exact Iff.rfl

/-- With one more global handler of the manager, only the handlers of its kind have to fit. -/
theorem fits_set {managerGlobals : HandlerKind → Option η} {session : BoundSession η}
    (h : SessionFits managerGlobals session) (kind : HandlerKind) (handler : η) :
    SessionFits (Function.update managerGlobals kind (some handler)) session ↔
      (session.membership = .added → ∀ own, session.own = some own →
        Fits kind (own kind) (some handler) (session.routerGlobals kind)) := by
  constructor
  · intro hfits hadded own hown
    have hkind := hfits hadded own hown kind
    rwa [Function.update_self] at hkind
  · intro hnew hadded own hown kind'
    by_cases hkind : kind' = kind
    · subst hkind
      rw [Function.update_self]
      exact hnew hadded own hown
    · rw [Function.update_of_ne hkind]
      exact h hadded own hown kind'

theorem rightlyCalled_iff {state : WebSocketHandlers η} (h : Bound state) :
    RightlyCalled state ↔ ∀ session ∈ state.sessions, SessionFits state.managerGlobals session := by
  refine forall₂_congr fun session hmem => forall_congr' fun hadded =>
    forall₂_congr fun own hown => forall_congr' fun kind => ?_
  have hhandlers := (h session hmem).added hadded
  rw [asConnected, hown] at hhandlers
  rw [← calls_iff own session.routerGlobals state.managerGlobals kind, BoundSession.calls,
    hhandlers]
  rfl

/-! ## Runs -/

/-- A step keeps the handlers fitting exactly when `KeepsPrecedence` holds of it. -/
theorem fits_step_iff {state : WebSocketHandlers η}
    (h : ∀ session ∈ state.sessions, SessionFits state.managerGlobals session)
    (engine : Regex.Engine) (event : Event η) :
    (∀ session ∈ (state.step engine event).sessions,
        SessionFits (state.step engine event).managerGlobals session) ↔
      KeepsPrecedence state event := by
  cases event with
  | addRoute path connectHandler => exact iff_of_true h trivial
  | setRoute kind path handler => exact iff_of_true h trivial
  | setRouterGlobal kind handler => exact iff_of_true h trivial
  | connect path =>
      refine iff_of_true ?_ trivial
      show ∀ session ∈ state.sessions ++ [state.bind path], _
      rw [List.forall_mem_append, List.forall_mem_singleton]
      refine ⟨h, fun hadded => ?_⟩
      rw [bind] at hadded
      split at hadded
      · cases hadded
      · cases hadded
  | removeSession id =>
      refine iff_of_true ?_ trivial
      refine forall_mem_modify_of_keeps id (fun session hsession => ?_) h
      rw [removeOne]
      split
      · exact nofun
      · exact hsession
  | addSession id =>
      refine (forall_mem_modify h).trans ?_
      refine forall₂_congr fun session hsession => ?_
      show SessionFits state.managerGlobals (addOne state.managerGlobals session) ↔ _
      rw [addOne]
      split
      · next hconnecting => exact ⟨fun hfits _ => hfits rfl, fun hfits _ => hfits hconnecting⟩
      · next hconnecting =>
          exact iff_of_true (h session (List.mem_of_getElem? hsession))
            fun hyes => absurd hyes hconnecting
  | setManagerGlobal kind handler =>
      show (∀ session ∈ state.sessions.map (setOne kind handler), _) ↔ _
      rw [List.forall_mem_map]
      refine forall₂_congr fun session hmem => ?_
      rw [fits_setOne]
      exact fits_set (h session hmem) kind handler

/-- In every run, the sessions call the handlers of their routes and the global ones as they are to
be called after every step exactly when the handlers fit where they meet. -/
theorem precedence_iff (engine : Regex.Engine) (routerGlobals : HandlerKind → Option η)
    (events : List (Event η)) :
    Throughout (step engine) (fun state event => RightlyCalled (state.step engine event))
        (.start routerGlobals) events ↔
      Throughout (step engine) KeepsPrecedence (.start routerGlobals) events := by
  refine throughout_iff (fun state => Bound state ∧
    ∀ session ∈ state.sessions, SessionFits state.managerGlobals session) ?_ ?_ ?_ events
  · exact ⟨fun _ hmem => absurd hmem List.not_mem_nil, fun _ hmem => absurd hmem List.not_mem_nil⟩
  · intro state event ⟨hbound, hfits⟩ hkeeps
    exact ⟨bound_step hbound engine event, (fits_step_iff hfits engine event).mpr hkeeps⟩
  · intro state event ⟨hbound, hfits⟩
    rw [rightlyCalled_iff (bound_step hbound engine event)]
    exact fits_step_iff hfits engine event

/-- A route with a message handler, a message handler of the manager, and a client. -/
def chatEvents : List (Event Nat) :=
  [.addRoute "/chat" none, .setRoute .message "/chat" 1, .setManagerGlobal .message 2,
    .connect "/chat", .addSession 0]

/-- A message of the client goes to the handler of the manager and not to that of the route. -/
theorem manager_overrides_route :
    ¬ Throughout (step Regex.fragment)
      (fun state event => RightlyCalled (state.step Regex.fragment event))
      (.start (fun _ => none)) chatEvents := by
  intro ⟨_, _, _, _, hlast, _⟩
  have hright : RightlyCalled
      (runFrom (step Regex.fragment) (.start (fun _ => none)) chatEvents) := hlast
  have hsessions : (runFrom (step Regex.fragment) (.start (fun _ => none)) chatEvents).sessions.map
      (fun session => (session.membership, session.own.map (fun own => own .message),
        session.calls .message)) = [(.added, some (some 1), [2])] := by
    decide +kernel
  obtain ⟨session, hsession, htriple⟩ := List.map_eq_singleton_iff.mp hsessions
  obtain ⟨hadded, hrest⟩ := Prod.mk.inj htriple
  obtain ⟨hmap, hcalls⟩ := Prod.mk.inj hrest
  obtain ⟨own, hown, hmessage⟩ := Option.map_eq_some_iff.mp hmap
  have hexpected := hright session (by rw [hsession]; exact List.mem_singleton_self session) hadded
    own hown .message
  rw [hcalls, hmessage] at hexpected
  cases hexpected

end WebSocketHandlers

end Brazier
