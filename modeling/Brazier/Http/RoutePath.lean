import Brazier.Http.Router
import Brazier.ProofLib.Regex

/-!
# Route patterns

What `Route` of `src/Router/Route.cpp` and `WebSocketRoute` of `src/Router/WSRoute.cpp` do with a
pattern path, which is the same in both: they turn it into a regular expression, collect the names
of its parameters, and match targets. The engine of `std::regex` is a parameter; the constructor
throws where the engine refuses an expression.
-/

namespace Brazier

open ProofLib

/-- The pattern of a `Route` or a `WebSocketRoute`. -/
structure RoutePath where
  originalPath : Text
  pathRegex : Text → Option (List Text)
  paramNames : List Text

namespace RoutePath

/-- What the loop of `convertPathToRegex` appends for a token. -/
def tokenRegex (token : Text) : Text :=
  if token.isEmpty then []
  else if token.head? = some ':' then "/([^/]+)"
  else '/' :: token

/-- `convertPathToRegex`. -/
def convertPathToRegex (path : Text) : Text :=
  let regexStr := '^' :: (getlines '/' path).flatMap tokenRegex
  if regexStr = ['^'] then regexStr ++ ("/?$" : Text) else regexStr ++ ("$" : Text)

/-- The name of a parameter. -/
def paramName : Text → Option Text
  | ':' :: name => some name
  | _ => none

/-- `extractParamNames`. -/
def extractParamNames (path : Text) : List Text := (getlines '/' path).filterMap paramName

/-- The constructor, of both classes. -/
def ofPath (engine : Regex.Engine) (path : Text) : Option RoutePath :=
  (engine (convertPathToRegex path)).map fun pathRegex =>
    ⟨path, pathRegex, extractParamNames path⟩

/-- The target up to its first question mark. -/
def pathOnly (target : Text) : Text := target.takeWhile (· ≠ '?')

/-- `outParams[paramNames_[i]] = match[i + 1]` for every parameter. -/
def assignParams : List Text → List Text → Params → Params
  | [], _, outParams => outParams
  | name :: names, captures, outParams =>
      assignParams names captures.tail (outParams.insert name (captures.headD []))

/-- `match`: the result, and `outParams` afterwards. -/
def «match» (route : RoutePath) (target : Text) (outParams : Params) : Bool × Params :=
  match route.pathRegex (pathOnly target) with
  | some captures => (true, assignParams route.paramNames captures outParams)
  | none => (false, outParams)

theorem match_of_some {route : RoutePath} {target : Text} {captures : List Text}
    (h : route.pathRegex (pathOnly target) = some captures) (outParams : Params) :
    route.match target outParams = (true, assignParams route.paramNames captures outParams) := by
  rw [RoutePath.match, h]

theorem match_of_none {route : RoutePath} {target : Text}
    (h : route.pathRegex (pathOnly target) = none) (outParams : Params) :
    route.match target outParams = (false, outParams) := by
  rw [RoutePath.match, h]

/-- The result of `match` is that of the engine for the path. -/
theorem match_iff {route : RoutePath} {target : Text} {outParams : Params} :
    (route.match target outParams).1 = true ↔ route.pathRegex (pathOnly target) ≠ none := by
  cases h : route.pathRegex (pathOnly target) with
  | none => simp [match_of_none h]
  | some captures => simp [match_of_some h]

end RoutePath

end Brazier
