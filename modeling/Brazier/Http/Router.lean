import Brazier.Http.Message

/-!
# The router and its handlers

`Router` of `src/Router/Router.cpp`. A handler is handed a response and sets any of its status,
its fields and its body, or none; then it returns or throws. Whether a path matches a target is
a parameter of a route.
-/

namespace Brazier

/-- `Params`. -/
abbrev Params := TextMap

/-- How a handler ends. -/
inductive Outcome where
  | returns
  | throwsException
  | throwsOther
  deriving DecidableEq

/-- What a handler does: what it sets, and how it ends. -/
structure Effect where
  status : Option Nat
  fields : List (Text × Text)
  body : Option Text
  outcome : Outcome

/-- The response after a handler. -/
def Effect.apply (effect : Effect) (res : Response) : Response :=
  let res := { res with status := effect.status.getD res.status }
  let res := effect.fields.foldl (fun res field => res.set field.1 field.2) res
  { res with body := effect.body.getD res.body }

/-- A `Route`. An empty `std::function` is `none`. -/
structure Route where
  path : Text
  «match» : Text → Option Params
  handler : Option (Request → Params → Effect)

/-- `Route::process`. -/
def Route.process (route : Route) (req : Request) (res : Response) (params : Params) :
    Outcome × Response :=
  match route.handler with
  | none => (.returns, res)
  | some handler => ((handler req params).outcome, (handler req params).apply res)

/-- The routes of each method, in the order of registration. -/
structure Router where
  routes : Text → List Route

namespace Router

/-- `Router::add`. -/
def add (router : Router) (method : Text) (route : Route) : Router where
  routes := fun m => if m = method then router.routes m ++ [route] else router.routes m

/-- The first route that matches, with its parameters. -/
def findRoute (target : Text) : List Route → Option (Route × Params)
  | [] => none
  | route :: rest =>
      match route.match target with
      | some params => some (route, params)
      | none => findRoute target rest

/-- `Router::handle_request`. -/
def handleRequest (router : Router) (req : Request) (res : Response) : Outcome × Response :=
  match findRoute req.target (router.routes req.method) with
  | some (route, params) => route.process req res params
  | none =>
      let res := { res with status := 404, body := ("404 Not Found" : Text) }
      match res.preparePayload with
      | .ok res => (.returns, res)
      | .error _ => (.throwsException, res)

end Router

namespace Controller

/-- `show`, `store`, `delete_` and `update` of the base controller. -/
def notAllowed : Request → Params → Effect :=
  fun _ _ => ⟨some 405, [], none, .returns⟩

/-- `setCors`, which is all that a `CORS` route does. -/
def setCors : Request → Params → Effect :=
  fun _ _ =>
    ⟨none,
      [("Access-Control-Allow-Origin", "*"),
       ("Access-Control-Allow-Credentials", "true"),
       ("Access-Control-Allow-Methods", "GET, POST, PUT, DELETE, OPTIONS"),
       ("Access-Control-Allow-Headers", "*"),
       ("Access-Control-Expose-Headers", "Set-Cookie")],
      none, .returns⟩

end Controller

end Brazier
