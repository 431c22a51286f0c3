import Brazier.WebSocket.WSRouter
import Brazier.ProofLib.Runs

/-!
# The handlers of a session

Handlers are registered for a route, as global ones of the `WebSocketRouter`, and as global ones of
the `WebSocketManager`. `handle_websocket` of `src/WebSocketServer.cpp` gives a session the first
two; `add_session` and the setters of `src/WebSocketManager.cpp` put the third in their place. An
event of a session is a call of its handler of that kind.
-/

namespace Brazier

open ProofLib

variable {η : Type}

/-- A handler of a session: one that was registered, or the function that `handle_websocket` sets
for the close event, with the two handlers that it captures. -/
inductive SessionHandler (η : Type) where
  | registered (handler : η)
  | closing (routeClose globalClose : Option η)
  deriving DecidableEq

/-- The registered handlers that it calls, in order. The function for the close event then calls
`remove_session`. -/
def SessionHandler.calls : SessionHandler η → List η
  | .registered handler => [handler]
  | .closing routeClose globalClose => routeClose.toList ++ globalClose.toList

/-- A session before `add_session`, in `sessions_`, or removed from it. -/
inductive Membership where
  | connecting
  | added
  | removed
  deriving DecidableEq

/-- A session with its handlers. For the record: those of the route it matched, and the global ones
of the router, when it connected. -/
structure BoundSession (η : Type) where
  own : Option (HandlerKind → Option η)
  routerGlobals : HandlerKind → Option η
  handlers : HandlerKind → Option (SessionHandler η)
  membership : Membership

namespace BoundSession

/-- The branch of `handle_websocket` for a route. -/
def ofRoute (own routerGlobals : HandlerKind → Option η) : BoundSession η where
  own := some own
  routerGlobals := routerGlobals
  handlers
    | .close => some (.closing (own .close) (routerGlobals .close))
    | kind =>
        match own kind with
        | some handler => some (.registered handler)
        | none => (routerGlobals kind).map .registered
  membership := .connecting

/-- The branch of `handle_websocket` without a route. -/
def ofNoRoute (routerGlobals : HandlerKind → Option η) : BoundSession η where
  own := none
  routerGlobals := routerGlobals
  handlers
    | .close => some (.closing none (routerGlobals .close))
    | kind => (routerGlobals kind).map .registered
  membership := .connecting

/-- The setter of a kind. -/
def setHandler (session : BoundSession η) (kind : HandlerKind) (handler : η) : BoundSession η :=
  { session with
    handlers := Function.update session.handlers kind (some (.registered handler)) }

/-- What `add_session` does to a session: the global handlers of the manager are set where there
are any. -/
def add (managerGlobals : HandlerKind → Option η) (session : BoundSession η) : BoundSession η :=
  { session with
    handlers := fun kind =>
      match managerGlobals kind with
      | some handler => some (.registered handler)
      | none => session.handlers kind
    membership := .added }

/-- The handlers that an event of a kind calls. -/
def calls (session : BoundSession η) (kind : HandlerKind) : List η :=
  match session.handlers kind with
  | some handler => handler.calls
  | none => []

end BoundSession

/-- The `WebSocketRouter`, the global handlers of the `WebSocketManager`, and all sessions that have
connected. -/
structure WebSocketHandlers (η : Type) where
  router : WebSocketRouter η
  routerGlobals : HandlerKind → Option η
  managerGlobals : HandlerKind → Option η
  sessions : List (BoundSession η)

namespace WebSocketHandlers

/-- The start, with the global handlers that the constructor of a server sets. -/
def start (routerGlobals : HandlerKind → Option η) : WebSocketHandlers η where
  router := .empty
  routerGlobals := routerGlobals
  managerGlobals := fun _ => none
  sessions := []

/-- A registration, or a step of a connection. -/
inductive Event (η : Type) where
  /-- `add_route`, or `WS_R`. -/
  | addRoute (path : Text) (connectHandler : Option η)
  /-- A `set_route_*_handler`, or a `WS_*` macro. -/
  | setRoute (kind : HandlerKind) (path : Text) (handler : η)
  /-- A `set_global_*_handler` of the router, or a `WS_G_*` macro. -/
  | setRouterGlobal (kind : HandlerKind) (handler : η)
  /-- A `set_global_*_handler` of the manager. -/
  | setManagerGlobal (kind : HandlerKind) (handler : η)
  /-- A handshake succeeds, and `handle_websocket` sets the handlers for the path. -/
  | connect (path : Text)
  | addSession (id : Nat)
  | removeSession (id : Nat)

/-- `add_session`, for a session that is connecting. -/
def addOne (managerGlobals : HandlerKind → Option η) (session : BoundSession η) :
    BoundSession η :=
  if session.membership = .connecting then session.add managerGlobals else session

/-- `remove_session`. -/
def removeOne (session : BoundSession η) : BoundSession η :=
  if session.membership = .added then { session with membership := .removed } else session

/-- The loop of a setter of the manager goes over `sessions_`. -/
def setOne (kind : HandlerKind) (handler : η) (session : BoundSession η) : BoundSession η :=
  if session.membership = .added then session.setHandler kind handler else session

/-- The session that `handle_websocket` makes for a path. -/
def bind (state : WebSocketHandlers η) (path : Text) : BoundSession η :=
  match (state.router.findRoute path ∅).1.bind (state.router.routes[·]?) with
  | some route => .ofRoute route.handler state.routerGlobals
  | none => .ofNoRoute state.routerGlobals

/-- One step. -/
def step (engine : Regex.Engine) (state : WebSocketHandlers η) :
    Event η → WebSocketHandlers η
  | .addRoute path connectHandler =>
      { state with router := state.router.addRoute engine (path, connectHandler) }
  | .setRoute kind path handler =>
      { state with router := (WebSocketRouter.setRouteOf kind state.router path handler).2 }
  | .setRouterGlobal kind handler =>
      { state with routerGlobals := Function.update state.routerGlobals kind (some handler) }
  | .setManagerGlobal kind handler =>
      { state with
        managerGlobals := Function.update state.managerGlobals kind (some handler)
        sessions := state.sessions.map (setOne kind handler) }
  | .connect path => { state with sessions := state.sessions ++ [state.bind path] }
  | .addSession id =>
      { state with sessions := state.sessions.modify id (addOne state.managerGlobals) }
  | .removeSession id => { state with sessions := state.sessions.modify id removeOne }

end WebSocketHandlers

end Brazier
