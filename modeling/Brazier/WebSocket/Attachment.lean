import Brazier.WebSocket.WSRouter
import Mathlib.Data.List.Nodup

/-!
# To which route a handler is attached

The route of a handler is found by matching its pattern text as if it were the path of a request.
The handler reaches the route that was registered with the text exactly when the pattern matches
its own text and no pattern that was registered before does.
-/

namespace Brazier

open ProofLib

namespace WebSocketRouter

variable {η : Type}

/-- The route matches the path. -/
def Answers (route : WebSocketRoute η) (path : Text) : Prop :=
  route.pattern.pathRegex (RoutePath.pathOnly path) ≠ none

/-- The pattern of the path matches its own text, and no pattern that was registered before does. -/
def AnswersFirst (router : WebSocketRouter η) (path : Text) : Prop :=
  ∃ before route behind, router.routes = before ++ route :: behind ∧ route.path = path ∧
    Answers route path ∧ ∀ r ∈ before, ¬ Answers r path

/-- `find_route` gives a place when the route there matches and none before it does. -/
theorem findIn_eq_some {target : Text} {routes : List (WebSocketRoute η)} {outParams : Params}
    {place : Nat} : (findIn target routes outParams).1 = some place ↔
      ∃ before route behind, routes = before ++ route :: behind ∧ before.length = place ∧
        Answers route target ∧ ∀ r ∈ before, ¬ Answers r target := by
  induction routes generalizing outParams place with
  | nil =>
      constructor
      · intro h
        cases h
      · intro ⟨before, route, behind, h, _⟩
        exact absurd h (by simp)
  | cons first rest ih =>
      rw [findIn]
      cases hmatch : first.pattern.pathRegex (RoutePath.pathOnly target) with
      | some captures =>
          rw [RoutePath.match_of_some hmatch]
          constructor
          · intro h
            obtain rfl : 0 = place := Option.some.inj h
            exact ⟨[], first, rest, rfl, rfl, by simp [Answers, hmatch], by simp⟩
          · rintro ⟨before, route, behind, hsplit, rfl, _, hbefore⟩
            cases before with
            | nil => rfl
            | cons r before =>
                obtain ⟨rfl, _⟩ := List.cons.inj hsplit
                exact absurd (show Answers first target by simp [Answers, hmatch])
                  (hbefore first List.mem_cons_self)
      | none =>
          rw [RoutePath.match_of_none hmatch]
          have hfirst : ¬ Answers first target := by simp [Answers, hmatch]
          constructor
          · intro h
            obtain ⟨place', hplace', rfl⟩ := Option.map_eq_some_iff.mp h
            obtain ⟨before, route, behind, rfl, rfl, hroute, hbefore⟩ := ih.mp hplace'
            refine ⟨first :: before, route, behind, rfl, rfl, hroute, fun r hr => ?_⟩
            rw [List.mem_cons] at hr
            rcases hr with rfl | hr
            · exact hfirst
            · exact hbefore r hr
          · rintro ⟨before, route, behind, hsplit, rfl, hroute, hbefore⟩
            cases before with
            | nil =>
                obtain ⟨rfl, _⟩ := List.cons.inj hsplit
                exact absurd hroute hfirst
            | cons r before =>
                obtain ⟨rfl, rfl⟩ := List.cons.inj hsplit
                have hrest := (@ih outParams _).mpr ⟨before, route, behind, rfl, rfl,
                  hroute, fun r' hr' => hbefore r' (List.mem_cons_of_mem _ hr')⟩
                show Option.map (· + 1) (findIn target _ outParams).1 = _
                rw [hrest]
                rfl

/-- What `add_route` calls leave: routes with different paths and no handlers but the first. -/
structure Fresh (router : WebSocketRouter η) : Prop where
  distinct : (router.routes.map WebSocketRoute.path).Nodup
  bare : ∀ route ∈ router.routes, ∀ kind, route.handler kind = none

/-- A route that is added has the path of the call, and no handlers. -/
theorem ofPath_eq_some {engine : Regex.Engine} {path : Text} {connect : Option η}
    {route : WebSocketRoute η} (h : WebSocketRoute.ofPath engine path connect = some route) :
    route.path = path ∧ ∀ kind, route.handler kind = none := by
  obtain ⟨pattern, hpattern, rfl⟩ := Option.map_eq_some_iff.mp h
  obtain ⟨regex, _, rfl⟩ := Option.map_eq_some_iff.mp hpattern
  exact ⟨rfl, fun kind => by cases kind <;> rfl⟩

/-- Adding a route with a new path. -/
theorem Fresh.addRoute {router : WebSocketRouter η} (h : Fresh router) (engine : Regex.Engine)
    {call : Text × Option η} (hnew : call.1 ∉ router.routes.map WebSocketRoute.path) :
    Fresh (addRoute engine router call) ∧
      ∀ path ∈ (addRoute engine router call).routes.map WebSocketRoute.path,
        path ∈ router.routes.map WebSocketRoute.path ∨ path = call.1 := by
  rw [WebSocketRouter.addRoute]
  cases hroute : WebSocketRoute.ofPath engine call.1 call.2 with
  | none => exact ⟨h, fun path hpath => Or.inl hpath⟩
  | some route =>
      obtain ⟨hpath, hbare⟩ := ofPath_eq_some hroute
      refine ⟨⟨?_, fun r hr => ?_⟩, fun path hmem => ?_⟩
      · rw [List.map_append, List.map_singleton, hpath]
        refine List.nodup_append.mpr ⟨h.distinct, by simp, fun path hmem path' hmem' heq => ?_⟩
        rw [List.mem_singleton] at hmem'
        exact hnew (hmem' ▸ heq ▸ hmem)
      · rw [List.mem_append, List.mem_singleton] at hr
        rcases hr with hr | rfl
        · exact h.bare r hr
        · exact hbare
      · rw [List.map_append, List.map_singleton, hpath, List.mem_append, List.mem_singleton] at hmem
        exact hmem

/-- Calls of `add_route` with different paths. -/
theorem Fresh.addRoutes (engine : Regex.Engine) {calls : List (Text × Option η)} :
    ∀ {router : WebSocketRouter η}, Fresh router →
      (router.routes.map WebSocketRoute.path ++ calls.map Prod.fst).Nodup →
      Fresh (calls.foldl (WebSocketRouter.addRoute engine) router) := by
  induction calls with
  | nil => exact fun h _ => h
  | cons call calls ih =>
      intro router h hnodup
      rw [List.map_cons] at hnodup
      have hnew : call.1 ∉ router.routes.map WebSocketRoute.path := fun hmem =>
        (List.nodup_append.mp hnodup).2.2 _ hmem _ List.mem_cons_self rfl
      obtain ⟨hfresh, hpaths⟩ := h.addRoute engine hnew
      refine ih hfresh (List.nodup_append.mpr ⟨hfresh.distinct, ?_, ?_⟩)
      · exact (List.nodup_cons.mp (List.nodup_append.mp hnodup).2.1).2
      · intro path hmem path' hmem'
        rcases hpaths path hmem with hold | rfl
        · exact (List.nodup_append.mp hnodup).2.2 path hold path' (List.mem_cons_of_mem _ hmem')
        · rintro rfl
          exact (List.nodup_cons.mp (List.nodup_append.mp hnodup).2.1).1 hmem'

/-- Changing the element behind `before`. -/
theorem modify_append_cons {α : Type} (f : α → α) (before : List α) (a : α) (behind : List α) :
    (before ++ a :: behind).modify before.length f = before ++ f a :: behind := by
  induction before with
  | nil => rfl
  | cons b before ih =>
      rw [List.cons_append, List.length_cons, List.modify_succ_cons, ih, List.cons_append]

/-- Attaching changes the routes of the path. -/
theorem attached_routes (kind : HandlerKind) {router : WebSocketRouter η} (path : Text)
    (handler : η) {before behind : List (WebSocketRoute η)} {route : WebSocketRoute η}
    (hsplit : router.routes = before ++ route :: behind) :
    (attached kind router path handler).routes =
      before.map (fun r => if r.path = path then r.setHandler kind handler else r) ++
        (if route.path = path then route.setHandler kind handler else route) ::
          behind.map (fun r => if r.path = path then r.setHandler kind handler else r) := by
  rw [attached, hsplit, List.map_append, List.map_cons]

/-- The paths of a fresh router are distinct. -/
theorem Fresh.path_ne {router : WebSocketRouter η} (h : Fresh router)
    {before behind : List (WebSocketRoute η)} {route : WebSocketRoute η}
    (hsplit : router.routes = before ++ route :: behind) {r : WebSocketRoute η}
    (hr : r ∈ before ∨ r ∈ behind) : r.path ≠ route.path := by
  intro hpath
  have hnodup := h.distinct
  rw [hsplit, List.map_append, List.map_cons, List.nodup_middle, List.nodup_cons] at hnodup
  apply hnodup.1
  rw [List.mem_append]
  rcases hr with hr | hr
  · exact Or.inl (hpath ▸ List.mem_map_of_mem hr)
  · exact Or.inr (hpath ▸ List.mem_map_of_mem hr)

/-- Routes with other paths get no handler. -/
theorem map_setHandler_of_ne (kind : HandlerKind) (handler : η) {path : Text}
    {routes : List (WebSocketRoute η)} (hroutes : ∀ r ∈ routes, r.path ≠ path) :
    routes.map (fun r => if r.path = path then r.setHandler kind handler else r) = routes := by
  conv_rhs => rw [← List.map_id routes]
  exact List.map_congr_left fun r hr => if_neg (hroutes r hr)

/-- The handler is attached to the route of the path exactly when it is the first that matches. -/
theorem Fresh.attached_iff {router : WebSocketRouter η} (h : Fresh router) {path : Text}
    (hpath : ∃ route ∈ router.routes, route.path = path) (kind : HandlerKind) (handler : η) :
    (setRouteHandler kind router path handler).2 = attached kind router path handler ↔
      AnswersFirst router path := by
  have hchanged : ∀ route ∈ router.routes, route.setHandler kind handler ≠ route := by
    intro route hroute heq
    have hset := WebSocketRoute.handler_setHandler route kind handler
    rw [heq, h.bare route hroute kind] at hset
    cases hset
  constructor
  · intro heq
    have hroutes := congrArg WebSocketRouter.routes heq
    rw [setRouteHandler] at hroutes
    cases hfind : (router.findRoute path ∅).1 with
    | none =>
        obtain ⟨route, hroute, hroutepath⟩ := hpath
        obtain ⟨before, behind, hsplit⟩ := List.append_of_mem hroute
        rw [hfind, attached_routes kind path handler hsplit, if_pos hroutepath] at hroutes
        replace hroutes := hsplit.symm.trans hroutes
        obtain ⟨_, htail⟩ := List.append_inj hroutes (by simp)
        exact absurd (List.cons.inj htail).1.symm (hchanged route hroute)
    | some place =>
        obtain ⟨before, route, behind, hsplit, rfl, hroute, hbefore⟩ := findIn_eq_some.mp hfind
        refine ⟨before, route, behind, hsplit, ?_, hroute, hbefore⟩
        by_contra hother
        rw [hfind, attached_routes kind path handler hsplit, if_neg hother] at hroutes
        have hmodified : router.routes.modify before.length
            (fun route => route.setHandler kind handler) =
              before ++ route.setHandler kind handler :: behind := by
          rw [hsplit, modify_append_cons]
        replace hroutes := hmodified.symm.trans hroutes
        obtain ⟨_, htail⟩ := List.append_inj hroutes (by simp)
        exact hchanged route (by rw [hsplit]; simp) (List.cons.inj htail).1
  · intro ⟨before, route, behind, hsplit, hroutepath, hroute, hbefore⟩
    have hfind : (router.findRoute path ∅).1 = some before.length :=
      findIn_eq_some.mpr ⟨before, route, behind, hsplit, rfl, hroute, hbefore⟩
    have hothers : ∀ r, r ∈ before ∨ r ∈ behind → r.path ≠ path := fun r hr =>
      hroutepath ▸ h.path_ne hsplit hr
    have hroutes : (setRouteHandler kind router path handler).2.routes =
        (attached kind router path handler).routes := by
      rw [setRouteHandler, hfind, attached_routes kind path handler hsplit, if_pos hroutepath,
        map_setHandler_of_ne kind handler (fun r hr => hothers r (Or.inl hr)),
        map_setHandler_of_ne kind handler (fun r hr => hothers r (Or.inr hr))]
      show router.routes.modify before.length _ = _
      rw [hsplit, modify_append_cons]
    exact congrArg WebSocketRouter.mk hroutes

/-- After any calls of `add_route` with different paths, the function and the macro for a kind of
handlers change that handler of the route of a registered path, and nothing else, exactly when its
pattern matches its own text and no pattern that was registered before does. -/
theorem set_route_handler_iff (engine : Regex.Engine) (calls : List (Text × Option η))
    (hdistinct : (calls.map Prod.fst).Nodup) (path : Text)
    (hpath : ∃ route ∈ (calls.foldl (addRoute engine) empty).routes, route.path = path)
    (kind : HandlerKind) (handler : η) :
    ((setRouteOf kind (calls.foldl (addRoute engine) empty) path handler).2 =
        attached kind (calls.foldl (addRoute engine) empty) path handler ↔
      AnswersFirst (calls.foldl (addRoute engine) empty) path) ∧
    (wsOf kind (calls.foldl (addRoute engine) empty) path handler =
        attached kind (calls.foldl (addRoute engine) empty) path handler ↔
      AnswersFirst (calls.foldl (addRoute engine) empty) path) := by
  have hempty : Fresh (empty : WebSocketRouter η) := ⟨List.nodup_nil, by simp [empty]⟩
  have hiff := (hempty.addRoutes engine hdistinct).attached_iff hpath kind handler
  rw [setRouteOf_eq, wsOf_eq]
  exact ⟨hiff, hiff⟩

/-- A route with a parameter, and one that it covers. -/
def roomRoutes : List (Text × Option Nat) := [("/chat/:room", none), ("/chat/lobby", none)]

theorem roomRoutes_distinct : (roomRoutes.map Prod.fst).Nodup := by
  decide

/-- The router with these routes. -/
def roomRouter : WebSocketRouter Nat := roomRoutes.foldl (addRoute Regex.fragment) empty

theorem roomRouter_lobby : ∃ route ∈ roomRouter.routes, route.path = ("/chat/lobby" : Text) := by
  decide +kernel

theorem set_route_handler_iff_room :
    ((setRouteOf .message roomRouter "/chat/lobby" 7).2 =
        attached .message roomRouter "/chat/lobby" 7 ↔ AnswersFirst roomRouter "/chat/lobby") ∧
    (wsOf .message roomRouter "/chat/lobby" 7 = attached .message roomRouter "/chat/lobby" 7 ↔
      AnswersFirst roomRouter "/chat/lobby") :=
  set_route_handler_iff Regex.fragment roomRoutes roomRoutes_distinct "/chat/lobby"
    roomRouter_lobby .message 7

/-- The handler of the lobby is attached to the route with the parameter. -/
theorem lobby_handler_misplaced :
    (setRouteMessageHandler roomRouter "/chat/lobby" 7).2 ≠
      attached .message roomRouter "/chat/lobby" 7 := by
  intro h
  have hset : (setRouteMessageHandler roomRouter "/chat/lobby" 7).2.routes.map
      WebSocketRoute.messageHandler = [some 7, none] := by
    decide +kernel
  have hattached : (attached .message roomRouter "/chat/lobby" 7).routes.map
      WebSocketRoute.messageHandler = [none, some 7] := by
    decide +kernel
  rw [h, hattached] at hset
  cases hset

end WebSocketRouter

end Brazier
