import Brazier.Http.Connection

/-!
# A connection with any handlers

The handlers of the model of `Router` set what they set without looking at the response they are
handed. Here the handler of each request does anything at all with the request and the response.
`turns` are the passes of the loop of `HttpsServer::handle_connection` that have read a request,
each with the state it begins with.
-/

namespace Brazier

/-- What a handler makes of a request and of the response it is handed, and how it ends. -/
abbrev Handling := Request → Response → Outcome × Response

/-! ## The passes of a loop -/

section
variable {σ : Type}

/-- The passes of a loop that read a request. -/
def turns (p : Parser) (turn : Turn σ) (state : σ) (reads : List Text) : List (σ × Request) :=
  match _hread : asyncRead p [] reads with
  | .failed _ => []
  | .request req _ _ reads' =>
      (state, req) ::
        match (turn state req).2 with
        | none => []
        | some state' => turns p turn state' reads'
  termination_by reads.length
  decreasing_by exact asyncRead_lt _hread

/-- An event without the place in the stream. -/
def Event.unplaced : Event → Event
  | .handles _ req => .handles 0 req
  | .writes res bytes => .writes res bytes

variable {p : Parser} {turn : Turn σ}

theorem turns_of_failed {state : σ} {reads : List Text} {e : ReadError}
    (hread : asyncRead p [] reads = .failed e) : turns p turn state reads = [] := by
  rw [turns]
  split
  · rfl
  · next hrequest =>
      rw [hread] at hrequest
      cases hrequest

theorem turns_of_request {state : σ} {reads reads' : List Text} {req : Request} {n : Nat}
    {left : Text} (hread : asyncRead p [] reads = .request req n left reads') :
    turns p turn state reads = (state, req) ::
      match (turn state req).2 with
      | none => []
      | some state' => turns p turn state' reads' := by
  rw [turns]
  split
  · next hfailed =>
      rw [hread] at hfailed
      cases hfailed
  · next hrequest =>
      rw [hread] at hrequest
      cases hrequest
      rfl

/-- What happens in a loop: each pass handles its request and does what its turn says. The last
pass leaves the loop, or is followed by a read that fails. -/
theorem requestLoop_eq_turns (onError : ReadError → List Event) (offset : Nat) (state : σ)
    (reads : List Text) :
    ∃ ending, (ending = [] ∨ ∃ e, ending = onError e) ∧
      (requestLoop p onError turn offset state [] reads).map Event.unplaced =
        ((turns p turn state reads).map fun pass =>
          .handles 0 pass.2 :: ((turn pass.1 pass.2).1.map Event.unplaced)).flatten ++
          ending.map Event.unplaced := by
  induction hlength : reads.length using Nat.strongRecOn generalizing reads offset state with
  | ind size ih =>
      cases hread : asyncRead p [] reads with
      | failed e =>
          rw [requestLoop_of_failed hread, turns_of_failed hread]
          exact ⟨onError e, Or.inr ⟨e, rfl⟩, rfl⟩
      | request req n left reads' =>
          rw [requestLoop_of_request hread, turns_of_request hread]
          cases hnext : (turn state req).2 with
          | none => exact ⟨[], Or.inl rfl, by simp [Event.unplaced]⟩
          | some state' =>
              have hlt : reads'.length < size := hlength ▸ asyncRead_lt hread
              obtain ⟨ending, hending, heq⟩ :=
                ih _ hlt (offset + n + left.length) state' reads' rfl
              exact ⟨ending, hending, by simp [Event.unplaced, heq]⟩

/-- Loops whose turns agree under a view of the state. -/
theorem requestLoop_congr {τ : Type} {turn' : Turn τ} (view : σ → τ)
    (hturn : ∀ state req, turn' (view state) req =
      ((turn state req).1, (turn state req).2.map view))
    (onError : ReadError → List Event) (offset : Nat) (state : σ) (reads : List Text) :
    requestLoop p onError turn' offset (view state) [] reads =
      requestLoop p onError turn offset state [] reads := by
  induction hlength : reads.length using Nat.strongRecOn generalizing reads offset state with
  | ind size ih =>
      cases hread : asyncRead p [] reads with
      | failed e => rw [requestLoop_of_failed hread, requestLoop_of_failed hread]
      | request req n left reads' =>
          rw [requestLoop_of_request hread, requestLoop_of_request hread, hturn]
          cases hnext : (turn state req).2 with
          | none => rfl
          | some state' =>
              have hlt : reads'.length < size := hlength ▸ asyncRead_lt hread
              show _ ++ requestLoop p onError turn' _ (view state') [] reads' = _
              rw [ih _ hlt _ state' reads' rfl]

end

/-! ## The HTTPS server -/

namespace HttpsServer

variable (server : HttpsServer)

/-- The response object as a handler gets it: the status and the body are left from the request
before. -/
def opened (res : Response) (req : Request) : Response :=
  ({ res.clear with version := req.version } : Response).keepAlive req.keepAlive

/-- What is done with a request by its handler. -/
def respondWith (handling : Handling) (res : Response) (req : Request) : Reply :=
  match handling req (opened res req) with
  | (.returns, res) => server.finish res req.keepAlive
  | (.throwsException, res) => server.finish (serverError res) false
  | (.throwsOther, _) => .leaves

/-- The state of a connection: the response object, the ends of the turns to come, and the number of
requests that were handled. -/
structure Progress where
  res : Response
  endings : List Ending
  handled : Nat

/-- A pass, where the requests are handled by one handler after the other. -/
def turnWith (handlings : Nat → Handling) : Turn Progress := fun progress req =>
  match server.respondWith (handlings progress.handled) progress.res req with
  | .leaves => ([], none)
  | .writes res bytes keepAlive =>
      ([.writes res bytes],
        if (progress.endings.headD .inTime).goesOn && keepAlive then
          some ⟨res, progress.endings.tail, progress.handled + 1⟩
        else none)

/-- The start of a connection. -/
def Progress.start (endings : List Ending) : Progress := ⟨.empty, endings, 0⟩

/-- `handle_connection` with these handlers. -/
def handleConnectionWith (handlings : Nat → Handling) (p : Parser) (endings : List Ending)
    (reads : List Text) : List Event :=
  requestLoop p server.onError (server.turnWith handlings) 0 (.start endings) [] reads

/-- The passes of the connection. -/
def passes (handlings : Nat → Handling) (p : Parser) (endings : List Ending) (reads : List Text) :
    List (Progress × Request) :=
  turns p (server.turnWith handlings) (.start endings) reads

/-- The handlers of the router are such handlers. -/
theorem handleConnectionWith_router (p : Parser) (endings : List Ending) (reads : List Text) :
    server.handleConnectionWith (fun _ => server.router.handleRequest) p endings reads =
      server.handleConnection p endings reads := by
  refine (requestLoop_congr (fun progress : Progress => (progress.res, progress.endings)) ?_
    server.onError 0 (.start endings) reads).symm
  intro progress req
  have hrespond : server.respond progress.res req =
      server.respondWith server.router.handleRequest progress.res req := rfl
  simp only [turnOf, turnWith, hrespond]
  cases server.respondWith server.router.handleRequest progress.res req with
  | leaves => rfl
  | writes res bytes keepAlive =>
      by_cases hgoes : ((progress.endings.headD .inTime).goesOn && keepAlive) = true
      · simp only [if_pos hgoes, Option.map_some]
      · simp only [if_neg hgoes, Option.map_none]

/-- The first request of a connection is handled in a pass. -/
theorem start_mem_passes {handlings : Nat → Handling} {p : Parser} {endings : List Ending}
    {reads reads' : List Text} {req : Request} {n : Nat} {left : Text}
    (hread : asyncRead p [] reads = .request req n left reads') :
    (Progress.start endings, req) ∈ server.passes handlings p endings reads := by
  rw [passes, turns_of_request hread]
  exact List.mem_cons_self

end HttpsServer

end Brazier
