import Brazier.Http.RoutePath
import Brazier.WebSocket.WSRouter

/-!
# Which route is chosen

Both routers go through their routes in the order of registration. The HTTP router has routes for
each method and new parameters for each candidate, the WebSocket router has one list and hands the
same parameters to every candidate. `FirstMatch` says without a loop what is to be chosen, and
`first_match_dispatch` that both routers choose it.
-/

namespace Brazier

open ProofLib

variable {η : Type}

/-- What a handler of a route is. -/
abbrev RouteHandler := Request → Params → Effect

namespace Route

/-- The route of a pattern. It is matched with new parameters. -/
def ofPattern (pattern : RoutePath) (handler : Option RouteHandler) : Route where
  path := pattern.originalPath
  «match» target :=
    match pattern.match target ∅ with
    | (true, params) => some params
    | (false, _) => none
  handler := handler

/-- The constructor; it throws where the engine refuses the expression. -/
def ofPath (engine : Regex.Engine) (path : Text) (handler : Option RouteHandler) : Option Route :=
  (RoutePath.ofPath engine path).map fun pattern => ofPattern pattern handler

end Route

/-- A call of `Router::add`. -/
structure RouteCall where
  method : Text
  path : Text
  handler : Option RouteHandler

namespace Router

/-- A router without routes. -/
def empty : Router := ⟨fun _ => []⟩

/-- `add`, with the constructor of the route. A path that is refused throws, and adds nothing. -/
def addRoute (engine : Regex.Engine) (router : Router) (call : RouteCall) : Router :=
  match Route.ofPath engine call.path call.handler with
  | some route => router.add call.method route
  | none => router

/-- The router after some calls. -/
def ofCalls (engine : Regex.Engine) (calls : List RouteCall) : Router :=
  calls.foldl (addRoute engine) empty

/-- What is answered when no route matches. -/
def notFound (res : Response) : Outcome × Response :=
  let res := { res with status := 404, body := ("404 Not Found" : Text) }
  match res.preparePayload with
  | .ok res => (.returns, res)
  | .error _ => (.throwsException, res)

end Router

/-- The `WebSocketRouter` after some calls of `add_route`. -/
def WebSocketRouter.ofCalls (engine : Regex.Engine) (calls : List (Text × Option η)) :
    WebSocketRouter η :=
  calls.foldl (WebSocketRouter.addRoute engine) WebSocketRouter.empty

/-! ## What is to be chosen -/

/-- The patterns of the paths that the engine does not refuse. -/
def patternsOf (engine : Regex.Engine) (paths : List Text) : List RoutePath :=
  paths.filterMap (RoutePath.ofPath engine)

/-- The parameters are the names of a pattern with what it has captured for them, and nothing else.
Of two parameters of one name it is the later one. -/
def Binds (names captures : List Text) (params : Params) : Prop :=
  ∀ name value : Text, params[name]? = some value ↔
    ∃ i : Nat, names[i]? = some name ∧ (∀ j, i < j → names[j]? ≠ some name) ∧
      value = captures.getD i []

/-- The earliest pattern that matches the target, with its bindings; without one no place and no
bindings. -/
def FirstMatch (patterns : List RoutePath) (target : Text) : Option Nat × Params → Prop
  | (none, params) =>
      (∀ pattern ∈ patterns, pattern.pathRegex (RoutePath.pathOnly target) = none) ∧ params = ∅
  | (some place, params) =>
      (∃ pattern captures, patterns[place]? = some pattern ∧
        pattern.pathRegex (RoutePath.pathOnly target) = some captures ∧
        Binds pattern.paramNames captures params) ∧
      ∀ i pattern, i < place → patterns[i]? = some pattern →
        pattern.pathRegex (RoutePath.pathOnly target) = none

/-! ## Bindings -/

/-- What the loop of `match` adds to the parameters: the later of two equal names. -/
theorem getElem?_assignParams (names captures : List Text) (outParams : Params)
    (name value : Text) :
    (RoutePath.assignParams names captures outParams)[name]? = some value ↔
      (∃ i : Nat, names[i]? = some name ∧ (∀ j, i < j → names[j]? ≠ some name) ∧
        value = captures.getD i []) ∨ name ∉ names ∧ outParams[name]? = some value := by
  induction names generalizing captures outParams with
  | nil => simp [RoutePath.assignParams]
  | cons first names ih =>
      have htail (i : Nat) : captures.tail.getD i [] = captures.getD (i + 1) [] := by
        cases captures <;> rfl
      have hhead : captures.headD [] = captures.getD 0 [] := by
        cases captures <;> rfl
      rw [RoutePath.assignParams, ih, getElem?_insert]
      constructor
      · intro h
        rcases h with ⟨i, hi, hlater, hvalue⟩ | ⟨hnot, hout⟩
        · refine Or.inl ⟨i + 1, hi, fun j hj => ?_, by rw [hvalue, htail]⟩
          cases j with
          | zero => omega
          | succ j => exact hlater j (by omega)
        · by_cases hfirst : first = name
          · rw [if_pos hfirst, Option.some.injEq] at hout
            refine Or.inl ⟨0, congrArg some hfirst, fun j hj => ?_, by rw [← hout, hhead]⟩
            cases j with
            | zero => omega
            | succ j => exact fun hj => hnot (List.mem_of_getElem? hj)
          · rw [if_neg hfirst] at hout
            refine Or.inr ⟨?_, hout⟩
            rw [List.mem_cons, not_or]
            exact ⟨fun h => hfirst h.symm, hnot⟩
      · intro h
        rcases h with ⟨i, hi, hlater, hvalue⟩ | ⟨hnot, hout⟩
        · cases i with
          | zero =>
              have hfirst : first = name := Option.some.inj hi
              refine Or.inr ⟨fun hmem => ?_, ?_⟩
              · obtain ⟨j, hj⟩ := List.mem_iff_getElem?.mp hmem
                exact hlater (j + 1) (Nat.succ_pos j) hj
              · rw [if_pos hfirst, hvalue, hhead]
          | succ i =>
              exact Or.inl ⟨i, hi, fun j hj => hlater (j + 1) (by omega), by rw [hvalue, htail]⟩
        · rw [List.mem_cons, not_or] at hnot
          rw [if_neg fun h => hnot.1 h.symm]
          exact Or.inr ⟨hnot.2, hout⟩

/-- The loop of `match` binds the names in new parameters. -/
theorem binds_assignParams (names captures : List Text) :
    Binds names captures (RoutePath.assignParams names captures ∅) := by
  intro name value
  rw [getElem?_assignParams]
  simp

/-- What is bound is determined. -/
theorem Binds.eq {names captures : List Text} {params params' : Params}
    (h : Binds names captures params) (h' : Binds names captures params') : params = params' := by
  refine Std.ExtTreeMap.ext_getElem? fun name => ?_
  exact Option.ext fun value => (h name value).trans (h' name value).symm

/-- No pattern in front of the chosen one matches. -/
theorem FirstMatch.le_of_match {patterns : List RoutePath} {target : Text} {place i : Nat}
    {params : Params} (h : FirstMatch patterns target (some place, params)) {pattern : RoutePath}
    {captures : List Text} (hi : patterns[i]? = some pattern)
    (hcaptures : pattern.pathRegex (RoutePath.pathOnly target) = some captures) : place ≤ i := by
  by_contra hlt
  rw [h.2 i pattern (by omega) hi] at hcaptures
  cases hcaptures

/-- When nothing is chosen, nothing matches. -/
theorem FirstMatch.not_match {patterns : List RoutePath} {target : Text} {params : Params}
    (h : FirstMatch patterns target (none, params)) {i : Nat} {pattern : RoutePath}
    {captures : List Text} (hi : patterns[i]? = some pattern) :
    pattern.pathRegex (RoutePath.pathOnly target) ≠ some captures := by
  intro hcaptures
  rw [h.1 pattern (List.mem_of_getElem? hi)] at hcaptures
  cases hcaptures

/-- At most one choice is the first match. -/
theorem FirstMatch.eq {patterns : List RoutePath} {target : Text}
    {choice choice' : Option Nat × Params} (h : FirstMatch patterns target choice)
    (h' : FirstMatch patterns target choice') : choice = choice' := by
  obtain ⟨place, params⟩ := choice
  obtain ⟨place', params'⟩ := choice'
  cases place with
  | none =>
      cases place' with
      | none => rw [h.2, h'.2]
      | some place' =>
          obtain ⟨⟨pattern, captures, hplace, hcaptures, -⟩, -⟩ := h'
          exact absurd hcaptures (h.not_match hplace)
  | some place =>
      obtain ⟨⟨pattern, captures, hplace, hcaptures, hbinds⟩, -⟩ := id h
      cases place' with
      | none => exact absurd hcaptures (h'.not_match hplace)
      | some place' =>
          obtain ⟨⟨pattern', captures', hplace', hcaptures', hbinds'⟩, -⟩ := id h'
          have heq : place = place' :=
            Nat.le_antisymm (h.le_of_match hplace' hcaptures') (h'.le_of_match hplace hcaptures)
          subst heq
          obtain rfl : pattern = pattern' := Option.some.inj (hplace.symm.trans hplace')
          obtain rfl : captures = captures' := Option.some.inj (hcaptures.symm.trans hcaptures')
          rw [hbinds.eq hbinds']

/-! ## The loops -/

/-- Behind a pattern that does not match the rest decides. -/
theorem FirstMatch.cons {pattern : RoutePath} {target : Text}
    (hpattern : pattern.pathRegex (RoutePath.pathOnly target) = none) {patterns : List RoutePath}
    {choice : Option Nat × Params} (h : FirstMatch patterns target choice) :
    FirstMatch (pattern :: patterns) target (choice.1.map (· + 1), choice.2) := by
  obtain ⟨place, params⟩ := choice
  cases place with
  | none => exact ⟨List.forall_mem_cons.mpr ⟨hpattern, h.1⟩, h.2⟩
  | some place =>
      refine ⟨h.1, fun i pattern' hi hpattern' => ?_⟩
      cases i with
      | zero =>
          obtain rfl : pattern = pattern' := Option.some.inj hpattern'
          exact hpattern
      | succ i => exact h.2 i pattern' (Nat.lt_of_succ_lt_succ hi) hpattern'

/-- A pattern that matches is chosen. -/
theorem firstMatch_head {pattern : RoutePath} {target : Text} {captures : List Text}
    (hpattern : pattern.pathRegex (RoutePath.pathOnly target) = some captures)
    (patterns : List RoutePath) :
    FirstMatch (pattern :: patterns) target
      (some 0, RoutePath.assignParams pattern.paramNames captures ∅) := by
  refine ⟨⟨pattern, captures, rfl, hpattern, binds_assignParams _ _⟩, ?_⟩
  intro i pattern' hi
  exact absurd hi (Nat.not_lt_zero i)

/-- The loop of `find_route`. -/
theorem findIn_firstMatch (target : Text) (routes : List (WebSocketRoute η)) :
    FirstMatch (routes.map WebSocketRoute.pattern) target
      (WebSocketRouter.findIn target routes ∅) := by
  induction routes with
  | nil => exact ⟨fun _ h => absurd h List.not_mem_nil, rfl⟩
  | cons route routes ih =>
      cases hpattern : route.pattern.pathRegex (RoutePath.pathOnly target) with
      | some captures =>
          rw [WebSocketRouter.findIn, RoutePath.match_of_some hpattern]
          exact firstMatch_head hpattern _
      | none =>
          -- the parameters come back as they were handed over
          rw [WebSocketRouter.findIn, RoutePath.match_of_none hpattern]
          exact ih.cons hpattern

/-- The loop of `handle_request`: what it finds is the first match, with its handler. -/
theorem findRoute_firstMatch (target : Text)
    (registered : List (RoutePath × Option RouteHandler)) :
    ∃ choice : Option Nat × Params, FirstMatch (registered.map Prod.fst) target choice ∧
      Router.findRoute target (registered.map fun r => Route.ofPattern r.1 r.2) =
        (choice.1.bind fun place => registered[place]?).map fun r =>
          (Route.ofPattern r.1 r.2, choice.2) := by
  induction registered with
  | nil => exact ⟨(none, ∅), ⟨fun _ h => absurd h List.not_mem_nil, rfl⟩, rfl⟩
  | cons r registered ih =>
      rw [List.map_cons, List.map_cons, Router.findRoute]
      dsimp only [Route.ofPattern]
      cases hpattern : r.1.pathRegex (RoutePath.pathOnly target) with
      | some captures =>
          rw [RoutePath.match_of_some hpattern]
          exact ⟨_, firstMatch_head hpattern _, rfl⟩
      | none =>
          rw [RoutePath.match_of_none hpattern]
          obtain ⟨choice, hfirst, hfind⟩ := ih
          refine ⟨_, hfirst.cons hpattern, hfind.trans ?_⟩
          cases choice.1 with
          | none => rfl
          | some place => rfl

/-! ## The routes of the calls -/

/-- The paths that are registered for a method, in order. -/
def pathsFor (method : Text) (calls : List RouteCall) : List Text :=
  (calls.filter fun call => call.method = method).map RouteCall.path

/-- The patterns of these paths that the engine does not refuse, with their handlers. -/
def registeredFor (engine : Regex.Engine) (method : Text) (calls : List RouteCall) :
    List (RoutePath × Option RouteHandler) :=
  (calls.filter fun call => call.method = method).filterMap fun call =>
    (RoutePath.ofPath engine call.path).map fun pattern => (pattern, call.handler)

/-- The patterns are those of the paths. -/
theorem map_fst_registeredFor (engine : Regex.Engine) (method : Text) (calls : List RouteCall) :
    (registeredFor engine method calls).map Prod.fst =
      patternsOf engine (pathsFor method calls) := by
  unfold registeredFor pathsFor patternsOf
  rw [List.map_filterMap, List.filterMap_map]
  refine congrArg (fun f => List.filterMap f _) (funext fun call => ?_)
  dsimp only [Function.comp]
  cases RoutePath.ofPath engine call.path with
  | none => rfl
  | some pattern => rfl

/-- One more call. -/
theorem routes_addRoute (engine : Regex.Engine) (router : Router) (call : RouteCall)
    (method : Text) :
    (router.addRoute engine call).routes method =
      router.routes method ++
        (registeredFor engine method [call]).map fun r => Route.ofPattern r.1 r.2 := by
  unfold Router.addRoute Route.ofPath registeredFor
  by_cases hmethod : call.method = method
  · subst hmethod
    cases hpath : RoutePath.ofPath engine call.path with
    | none => simp [hpath]
    | some pattern => simp [Router.add, hpath]
  · have hne : method ≠ call.method := fun h => hmethod h.symm
    cases hpath : RoutePath.ofPath engine call.path with
    | none => simp [hmethod]
    | some pattern => simp [Router.add, hmethod, hne]

theorem registeredFor_cons (engine : Regex.Engine) (method : Text) (call : RouteCall)
    (calls : List RouteCall) :
    registeredFor engine method (call :: calls) =
      registeredFor engine method [call] ++ registeredFor engine method calls := by
  unfold registeredFor
  rw [← List.filterMap_append, ← List.filter_append, List.singleton_append]

/-- The routes of a method are those that were registered for it, in order. -/
theorem routes_ofCalls (engine : Regex.Engine) (calls : List RouteCall) (method : Text) :
    (Router.ofCalls engine calls).routes method =
      (registeredFor engine method calls).map fun r => Route.ofPattern r.1 r.2 := by
  have hfold : ∀ router : Router, (calls.foldl (Router.addRoute engine) router).routes method =
      router.routes method ++
        (registeredFor engine method calls).map fun r => Route.ofPattern r.1 r.2 := by
    induction calls with
    | nil =>
        intro router
        simp [registeredFor]
    | cons call calls ih =>
        intro router
        rw [List.foldl_cons, ih, routes_addRoute, registeredFor_cons engine method call calls,
          List.map_append, List.append_assoc]
  exact hfold Router.empty

/-- The patterns of the routes are those of the paths. -/
theorem map_pattern_ofCalls (engine : Regex.Engine) (calls : List (Text × Option η)) :
    (WebSocketRouter.ofCalls engine calls).routes.map WebSocketRoute.pattern =
      patternsOf engine (calls.map Prod.fst) := by
  have hfold : ∀ router : WebSocketRouter η,
      (calls.foldl (WebSocketRouter.addRoute engine) router).routes.map WebSocketRoute.pattern =
        router.routes.map WebSocketRoute.pattern ++ patternsOf engine (calls.map Prod.fst) := by
    induction calls with
    | nil =>
        intro router
        simp [patternsOf]
    | cons call calls ih =>
        intro router
        rw [List.foldl_cons, ih]
        unfold WebSocketRouter.addRoute WebSocketRoute.ofPath patternsOf
        cases hpath : RoutePath.ofPath engine call.1 with
        | none => simp [hpath]
        | some pattern => simp [hpath]
  exact hfold WebSocketRouter.empty

/-! ## The routers -/

/-- What the HTTP router does is to choose the first of the routes that are registered for the
method, and to run its handler with its bindings; when none matches, it answers 404. -/
structure Dispatches (engine : Regex.Engine) (calls : List RouteCall) (req : Request)
    (res : Response) (choice : Option Nat × Params) : Prop where
  first : FirstMatch (patternsOf engine (pathsFor req.method calls)) req.target choice
  chosen : ∀ place, choice.1 = some place → ∃ r,
    (registeredFor engine req.method calls)[place]? = some r ∧
      (Router.ofCalls engine calls).handleRequest req res =
        (Route.ofPattern r.1 r.2).process req res choice.2
  missing : choice.1 = none →
    (Router.ofCalls engine calls).handleRequest req res = Router.notFound res

theorem dispatches_firstMatch (engine : Regex.Engine) (calls : List RouteCall) (req : Request)
    (res : Response) : ∃ choice, Dispatches engine calls req res choice := by
  obtain ⟨choice, hfirst, hfind⟩ :=
    findRoute_firstMatch req.target (registeredFor engine req.method calls)
  rw [map_fst_registeredFor] at hfirst
  rw [← routes_ofCalls] at hfind
  refine ⟨choice, hfirst, fun place hplace => ?_, fun hnone => ?_⟩
  · obtain ⟨place', params⟩ := choice
    subst hplace
    obtain ⟨⟨pattern, captures, hpattern, -⟩, -⟩ := hfirst
    rw [← map_fst_registeredFor, List.getElem?_map] at hpattern
    obtain ⟨r, hr, -⟩ := Option.map_eq_some_iff.mp hpattern
    refine ⟨r, hr, ?_⟩
    rw [Router.handleRequest, hfind]
    simp [hr]
  · rw [Router.handleRequest, hfind, hnone]
    rfl

/-- For any calls, method and target both routers choose the first match, and for calls with the
same paths they choose the same one. -/
theorem first_match_dispatch (engine : Regex.Engine) (calls : List RouteCall)
    (wsCalls : List (Text × Option η)) (req : Request) (res : Response) :
    FirstMatch (patternsOf engine (wsCalls.map Prod.fst)) req.target
        ((WebSocketRouter.ofCalls engine wsCalls).findRoute req.target ∅) ∧
      ∃ choice, Dispatches engine calls req res choice ∧
        (pathsFor req.method calls = wsCalls.map Prod.fst →
          choice = (WebSocketRouter.ofCalls engine wsCalls).findRoute req.target ∅) := by
  have hws : FirstMatch (patternsOf engine (wsCalls.map Prod.fst)) req.target
      ((WebSocketRouter.ofCalls engine wsCalls).findRoute req.target ∅) := by
    rw [← map_pattern_ofCalls]
    exact findIn_firstMatch req.target (WebSocketRouter.ofCalls engine wsCalls).routes
  obtain ⟨choice, hchoice⟩ := dispatches_firstMatch engine calls req res
  refine ⟨hws, choice, hchoice, fun hpaths => ?_⟩
  have hfirst := hchoice.first
  rw [hpaths] at hfirst
  exact hfirst.eq hws

end Brazier
