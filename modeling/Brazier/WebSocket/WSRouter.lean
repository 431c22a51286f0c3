import Brazier.Http.RoutePath

/-!
# The WebSocket router

`WebSocketRoute` of `src/Router/WSRoute.cpp`, `WebSocketRouter` of `src/Router/WSRouter.cpp`, and
the functions of `src/WebSocketServer.cpp` and the macros of `Router/RouterRegisterer.hpp` that set
the handlers of a route. A handler is a value of some type; an empty `std::function` is `none`.
-/

namespace Brazier

open ProofLib

/-- The handlers a route has. -/
inductive HandlerKind where
  | message
  | binary
  | close
  | error
  deriving DecidableEq

/-- A `WebSocketRoute`. -/
structure WebSocketRoute (η : Type) where
  pattern : RoutePath
  connectHandler : Option η
  messageHandler : Option η
  binaryHandler : Option η
  closeHandler : Option η
  errorHandler : Option η

namespace WebSocketRoute

variable {η : Type}

/-- The constructor; it throws where the engine refuses the expression. -/
def ofPath (engine : Regex.Engine) (path : Text) (connectHandler : Option η) :
    Option (WebSocketRoute η) :=
  (RoutePath.ofPath engine path).map fun pattern =>
    ⟨pattern, connectHandler, none, none, none, none⟩

/-- `path`. -/
def path (route : WebSocketRoute η) : Text := route.pattern.originalPath

/-- `set_message_handler`. -/
def setMessageHandler (route : WebSocketRoute η) (handler : η) : WebSocketRoute η :=
  { route with messageHandler := some handler }

/-- `set_binary_handler`. -/
def setBinaryHandler (route : WebSocketRoute η) (handler : η) : WebSocketRoute η :=
  { route with binaryHandler := some handler }

/-- `set_close_handler`. -/
def setCloseHandler (route : WebSocketRoute η) (handler : η) : WebSocketRoute η :=
  { route with closeHandler := some handler }

/-- `set_error_handler`. -/
def setErrorHandler (route : WebSocketRoute η) (handler : η) : WebSocketRoute η :=
  { route with errorHandler := some handler }

/-- The setter of a kind. -/
def setHandler (route : WebSocketRoute η) : HandlerKind → η → WebSocketRoute η
  | .message => route.setMessageHandler
  | .binary => route.setBinaryHandler
  | .close => route.setCloseHandler
  | .error => route.setErrorHandler

/-- The handler of a kind. -/
def handler (route : WebSocketRoute η) : HandlerKind → Option η
  | .message => route.messageHandler
  | .binary => route.binaryHandler
  | .close => route.closeHandler
  | .error => route.errorHandler

@[simp] theorem handler_setHandler (route : WebSocketRoute η) (kind : HandlerKind) (h : η) :
    (route.setHandler kind h).handler kind = some h := by
  cases kind <;> rfl

end WebSocketRoute

/-- The routes of the `WebSocketRouter`. -/
structure WebSocketRouter (η : Type) where
  routes : List (WebSocketRoute η)

namespace WebSocketRouter

variable {η : Type}

/-- A router without routes. -/
def empty : WebSocketRouter η := ⟨[]⟩

/-- `add_route`. A path that is refused throws, and adds nothing. -/
def addRoute (engine : Regex.Engine) (router : WebSocketRouter η)
    (call : Text × Option η) : WebSocketRouter η :=
  match WebSocketRoute.ofPath engine call.1 call.2 with
  | some route => ⟨router.routes ++ [route]⟩
  | none => router

/-- The loop of `find_route`: the place of the first route that matches. -/
def findIn (target : Text) : List (WebSocketRoute η) → Params → Option Nat × Params
  | [], outParams => (none, outParams)
  | route :: rest, outParams =>
      match route.pattern.match target outParams with
      | (true, outParams) => (some 0, outParams)
      | (false, outParams) =>
          ((findIn target rest outParams).1.map (· + 1), (findIn target rest outParams).2)

/-- `find_route`. -/
def findRoute (router : WebSocketRouter η) (target : Text) (outParams : Params) :
    Option Nat × Params :=
  findIn target router.routes outParams

/-- What every function and macro does that sets a handler of a route: the path is looked up like
a target. -/
def setRouteHandler (kind : HandlerKind) (router : WebSocketRouter η) (path : Text) (handler : η) :
    Option Nat × WebSocketRouter η :=
  match (router.findRoute path ∅).1 with
  | some place =>
      (some place, ⟨router.routes.modify place (fun route => route.setHandler kind handler)⟩)
  | none => (none, router)

/-- `WebSocketServer::set_route_message_handler`. -/
def setRouteMessageHandler (router : WebSocketRouter η) (path : Text) (handler : η) :
    Option Nat × WebSocketRouter η := setRouteHandler .message router path handler

/-- `WebSocketServer::set_route_binary_handler`. -/
def setRouteBinaryHandler (router : WebSocketRouter η) (path : Text) (handler : η) :
    Option Nat × WebSocketRouter η := setRouteHandler .binary router path handler

/-- `WebSocketServer::set_route_close_handler`. -/
def setRouteCloseHandler (router : WebSocketRouter η) (path : Text) (handler : η) :
    Option Nat × WebSocketRouter η := setRouteHandler .close router path handler

/-- `WebSocketServer::set_route_error_handler`. -/
def setRouteErrorHandler (router : WebSocketRouter η) (path : Text) (handler : η) :
    Option Nat × WebSocketRouter η := setRouteHandler .error router path handler

/-- `WS_MSG`. -/
def wsMsg (router : WebSocketRouter η) (path : Text) (handler : η) : WebSocketRouter η :=
  (setRouteHandler .message router path handler).2

/-- `WS_BIN`. -/
def wsBin (router : WebSocketRouter η) (path : Text) (handler : η) : WebSocketRouter η :=
  (setRouteHandler .binary router path handler).2

/-- `WS_CLOSE`. -/
def wsClose (router : WebSocketRouter η) (path : Text) (handler : η) : WebSocketRouter η :=
  (setRouteHandler .close router path handler).2

/-- `WS_ERR`. -/
def wsErr (router : WebSocketRouter η) (path : Text) (handler : η) : WebSocketRouter η :=
  (setRouteHandler .error router path handler).2

/-- The function of `WebSocketServer` that sets the handler of a kind. -/
def setRouteOf : HandlerKind → WebSocketRouter η → Text → η → Option Nat × WebSocketRouter η
  | .message => setRouteMessageHandler
  | .binary => setRouteBinaryHandler
  | .close => setRouteCloseHandler
  | .error => setRouteErrorHandler

/-- The macro that sets the handler of a kind. -/
def wsOf : HandlerKind → WebSocketRouter η → Text → η → WebSocketRouter η
  | .message => wsMsg
  | .binary => wsBin
  | .close => wsClose
  | .error => wsErr

theorem setRouteOf_eq (kind : HandlerKind) (router : WebSocketRouter η) (path : Text)
    (handler : η) :
    setRouteOf kind router path handler = setRouteHandler kind router path handler := by
  cases kind <;> rfl

theorem wsOf_eq (kind : HandlerKind) (router : WebSocketRouter η) (path : Text) (handler : η) :
    wsOf kind router path handler = (setRouteHandler kind router path handler).2 := by
  cases kind <;> rfl

/-- The router after the handler of a kind of the route of a path, and nothing else, was set. -/
def attached (kind : HandlerKind) (router : WebSocketRouter η) (path : Text) (handler : η) :
    WebSocketRouter η :=
  ⟨router.routes.map fun route =>
    if route.path = path then route.setHandler kind handler else route⟩

end WebSocketRouter

end Brazier
