import Brazier.Http.Connection
import Brazier.ProofLib.Runs

/-!
# One request after another on a connection

The HTTPS server hands the same response object to one handler after the other. `clear` leaves the
status and the body of it, so what a handler does not set is what the handlers before it have left.
`reply_eq_iff` says when the reply to a request is the one it would get on a new connection, and
`replies_as_new_iff` says it of all the requests of a connection.
-/

namespace Brazier

/-- The status and the body that are written. -/
def Reply.content : Reply → Option (Nat × Text)
  | .leaves => none
  | .writes res _ _ => some (res.status, res.body)

/-! ## The response object -/

/-- Setting fields changes neither the status nor the body. -/
theorem set_fields (fields : List (Text × Text)) (res : Response) :
    (fields.foldl (fun res field => res.set field.1 field.2) res).status = res.status ∧
      (fields.foldl (fun res field => res.set field.1 field.2) res).body = res.body := by
  induction fields generalizing res with
  | nil => exact ⟨rfl, rfl⟩
  | cons field rest ih => exact ih (res.set field.1 field.2)

/-- The status after a handler. -/
theorem Effect.apply_status (effect : Effect) (res : Response) :
    (effect.apply res).status = effect.status.getD res.status :=
  (set_fields effect.fields _).1

/-- The body after a handler. -/
theorem Effect.apply_body (effect : Effect) (res : Response) :
    (effect.apply res).body = effect.body.getD res.body := by
  simp [Effect.apply, set_fields]

/-- What the router does with a request: the effect of the handler it chooses, or the answer 404. -/
def Router.effect (router : Router) (req : Request) : Effect :=
  match findRoute req.target (router.routes req.method) with
  | some (route, params) =>
      match route.handler with
      | none => ⟨none, [], none, .returns⟩
      | some handler => handler req params
  | none => ⟨some 404, [], some "404 Not Found", .returns⟩

/-- The router ends and leaves a status and a body as its effect says. -/
theorem Router.handleRequest_eq (router : Router) (req : Request) (res : Response) :
    (router.handleRequest req res).1 = (router.effect req).outcome ∧
      (router.handleRequest req res).2.status = (router.effect req).status.getD res.status ∧
      (router.handleRequest req res).2.body = (router.effect req).body.getD res.body := by
  unfold Router.handleRequest Router.effect
  cases findRoute req.target (router.routes req.method) with
  | none =>
      simp [Response.preparePayload, show Response.isBodiless 404 = false from rfl,
        Response.contentLength]
  | some found =>
      cases hhandler : found.1.handler with
      | none => simp [Route.process, hhandler]
      | some handler => simp [Route.process, hhandler, Effect.apply_status, Effect.apply_body]

/-- What is written, unless the status forbids the body. -/
def legalContent (status : Nat) (body : Text) : Option (Nat × Text) :=
  if body ≠ [] ∧ Response.isBodiless status = true then none else some (status, body)

/-- What `finish` writes. -/
theorem HttpsServer.finish_content (server : HttpsServer) (res : Response) (keepAlive : Bool) :
    (server.finish res keepAlive).content = legalContent res.status res.body := by
  unfold HttpsServer.finish Response.preparePayload legalContent
  by_cases h : res.body ≠ [] ∧ Response.isBodiless res.status = true
  · rw [if_pos h, if_pos h]
    rfl
  · rw [if_neg h, if_neg h]
    rfl

/-- What is written for a request, by the outcome of its handler. -/
theorem HttpsServer.respond_content (server : HttpsServer) (res : Response) (req : Request) :
    (server.respond res req).content =
      match (server.router.effect req).outcome with
      | .returns => legalContent ((server.router.effect req).status.getD res.status)
          ((server.router.effect req).body.getD res.body)
      | .throwsException =>
          legalContent 500 "\x7b\"error\":\"internal server error\"\x7d"
      | .throwsOther => none := by
  unfold HttpsServer.respond
  obtain ⟨houtcome, hstatus, hbody⟩ := server.router.handleRequest_eq req
    (({ res.clear with version := req.version } : Response).keepAlive req.keepAlive)
  cases hrun : server.router.handleRequest req
      (({ res.clear with version := req.version } : Response).keepAlive req.keepAlive) with
  | mk outcome res' =>
      rw [hrun] at houtcome hstatus hbody
      rw [← houtcome]
      cases outcome with
      | returns =>
          rw [Response.keepAlive_status] at hstatus
          rw [Response.keepAlive_body] at hbody
          have hs : res'.status = (server.router.effect req).status.getD res.status := hstatus
          have hb : res'.body = (server.router.effect req).body.getD res.body := hbody
          simp only [hrun, HttpsServer.finish_content, hs, hb]
      | throwsException => simp only [hrun, HttpsServer.finish_content]; rfl
      | throwsOther => simp only [hrun]; rfl

/-- The handler of the request sets the status and the body, unless the response object holds
those of a new response. -/
def CoversReply (router : Router) (res : Response) (req : Request) : Prop :=
  (router.effect req).outcome = .returns →
    ((router.effect req).status = none → res.status = 200) ∧
      ((router.effect req).body = none → res.body = [])

/-- An empty body is always written. -/
theorem legalContent_nil (status : Nat) : legalContent status [] = some (status, []) := by
  simp [legalContent]

/-- The default status allows every body. -/
theorem legalContent_ok (body : Text) : legalContent 200 body = some (200, body) := by
  simp [legalContent, show Response.isBodiless 200 = false from rfl]

/-- What is written is only what was given. -/
theorem eq_of_legalContent {status status' : Nat} {body body' : Text}
    (h : legalContent status body = some (status', body')) : status = status' ∧ body = body' := by
  unfold legalContent at h
  split at h
  · cases h
  · exact Prod.mk.inj (Option.some.inj h)

/-- The reply to a request has the status and body it would have on a new connection exactly when
its handler covers what the response object holds. -/
theorem reply_eq_iff (server : HttpsServer) (res : Response) (req : Request) :
    (server.respond res req).content = (server.respond Response.empty req).content ↔
      CoversReply server.router res req := by
  rw [server.respond_content, server.respond_content]
  unfold CoversReply
  cases houtcome : (server.router.effect req).outcome with
  | throwsException => simp
  | throwsOther => simp
  | returns =>
      have hempty : Response.empty.status = 200 ∧ Response.empty.body = [] := ⟨rfl, rfl⟩
      rw [hempty.1, hempty.2]
      cases hstatus : (server.router.effect req).status with
      | none =>
          -- the new connection writes status 200, whatever the body
          rw [Option.getD_none, Option.getD_none, legalContent_ok]
          constructor
          · intro h _
            obtain ⟨hs, hb⟩ := eq_of_legalContent h
            refine ⟨fun _ => hs, fun hnone => ?_⟩
            rwa [hnone] at hb
          · intro h
            obtain ⟨hs, hb⟩ := h rfl
            have hbody : (server.router.effect req).body.getD res.body =
                (server.router.effect req).body.getD [] := by
              cases hcase : (server.router.effect req).body with
              | none => simp [hb hcase]
              | some body => rfl
            rw [hs rfl, hbody, legalContent_ok]
      | some status =>
          cases hbody : (server.router.effect req).body with
          | some body => simp
          | none =>
              -- the new connection writes an empty body
              rw [Option.getD_some, Option.getD_some, Option.getD_none, Option.getD_none,
                legalContent_nil]
              constructor
              · intro h _
                exact ⟨nofun, fun _ => (eq_of_legalContent h).2⟩
              · intro h
                rw [(h rfl).2 rfl, legalContent_nil]

/-! ## A connection -/

/-- The status and the body written first. -/
def firstReply : List Event → Option (Nat × Text)
  | .writes res _ :: _ => some (res.status, res.body)
  | _ => none

/-- The requests handled on a connection, each with the status and the body written for it, unless
none are. -/
def exchanges : List Event → List (Request × Option (Nat × Text))
  | [] => []
  | .handles _ req :: rest => (req, firstReply rest) :: exchanges rest
  | .writes _ _ :: rest => exchanges rest

namespace HttpsServer

/-- The exchange is the first one of every connection on which its request is the first one. -/
def AsOnNew (server : HttpsServer) (exchange : Request × Option (Nat × Text)) : Prop :=
  ∀ p endings reads n left reads', asyncRead p [] reads = .request exchange.1 n left reads' →
    (exchanges (server.handleConnection p endings reads)).head? = some exchange

/-- The response object after a request, unless the loop has been left. -/
def next (server : HttpsServer) (state : Option Response) (req : Request) : Option Response :=
  match state with
  | none => none
  | some res =>
      match server.respond res req with
      | .leaves => none
      | .writes res' _ keepAlive => if keepAlive then some res' else none

variable {p : Parser}

/-- A loop whose read fails exchanges nothing. -/
theorem exchanges_of_failed (server : HttpsServer) {offset : Nat}
    {state : Response × List Ending} {reads : List Text} {e : ReadError}
    (hread : asyncRead p [] reads = .failed e) :
    exchanges (requestLoop p server.onError (turnOf server.respond) offset state [] reads) =
      [] := by
  rw [requestLoop_of_failed hread]
  cases e <;> rfl

/-- A loop that reads a request exchanges it for the reply, and goes on with the next response
object or ends. -/
theorem exchanges_of_request (server : HttpsServer) (offset : Nat) (res : Response)
    (endings : List Ending) {reads reads' : List Text} {req : Request} {n : Nat} {left : Text}
    (hread : asyncRead p [] reads = .request req n left reads') :
    ∃ rest, exchanges (requestLoop p server.onError (turnOf server.respond) offset (res, endings)
        [] reads) = (req, (server.respond res req).content) :: rest ∧
      (rest = [] ∨ ∃ res', server.next (some res) req = some res' ∧
        rest = exchanges (requestLoop p server.onError (turnOf server.respond)
          (offset + n + left.length) (res', endings.tail) [] reads')) := by
  rw [requestLoop_of_request hread]
  cases hreply : server.respond res req with
  | leaves =>
      have hturn : turnOf server.respond (res, endings) req = ([], none) := by
        simp only [turnOf, hreply]
      rw [hturn]
      exact ⟨[], rfl, Or.inl rfl⟩
  | writes res' bytes keepAlive =>
      have hturn : turnOf server.respond (res, endings) req = ([.writes res' bytes],
          if (endings.headD .inTime).goesOn && keepAlive then some (res', endings.tail)
          else none) := by
        simp only [turnOf, hreply]
      rw [hturn]
      by_cases hgoes : ((endings.headD .inTime).goesOn && keepAlive) = true
      · have hnext : server.next (some res) req = some res' := by
          simp only [next, hreply, (Bool.and_eq_true_iff.mp hgoes).2, if_true]
        rw [if_pos hgoes]
        exact ⟨_, rfl, Or.inr ⟨res', hnext, rfl⟩⟩
      · rw [if_neg hgoes]
        exact ⟨[], rfl, Or.inl rfl⟩

/-- A connection that brings the request alone. -/
theorem asyncRead_single (req : Request) :
    ∃ (p : Parser) (reads : List Text), asyncRead p [] reads = .request req 1 [] [] := by
  let p : Parser :=
    ⟨fun bytes => if bytes = [] then .incomplete else .complete req 1, if_pos rfl⟩
  refine ⟨p, [[' ']], ?_⟩
  show asyncRead p ([] ++ [' ']) [] = _
  rfl

/-- What is exchanged on a new connection is the reply from an empty response object. -/
theorem asOnNew_iff (server : HttpsServer) (req : Request) (reply : Option (Nat × Text)) :
    server.AsOnNew (req, reply) ↔ reply = (server.respond Response.empty req).content := by
  constructor
  · intro h
    obtain ⟨p, reads, hread⟩ := asyncRead_single req
    obtain ⟨rest, hexchanges, -⟩ := server.exchanges_of_request 0 Response.empty [] hread
    have hfirst := h p [] reads 1 [] [] hread
    unfold handleConnection at hfirst
    rw [hexchanges] at hfirst
    exact (Prod.mk.inj (Option.some.inj hfirst)).2.symm
  · rintro rfl p endings reads n left reads' hread
    obtain ⟨rest, hexchanges, -⟩ := server.exchanges_of_request 0 Response.empty endings hread
    unfold handleConnection
    rw [hexchanges]
    rfl

/-- The handlers of the requests cover, one after the other, what the response object holds. -/
def CoversReplies (server : HttpsServer) (state : Option Response) (requests : List Request) :
    Prop :=
  ProofLib.Throughout server.next
    (fun state req => ∀ res, state = some res → CoversReply server.router res req) state requests

/-- The exchanges of a loop, from any response object on. -/
theorem exchanges_as_new_iff (server : HttpsServer) (reads : List Text) :
    ∀ (offset : Nat) (res : Response) (endings : List Ending),
      let exchanged := exchanges (requestLoop p server.onError (turnOf server.respond) offset
        (res, endings) [] reads)
      (∀ exchange ∈ exchanged, server.AsOnNew exchange) ↔
        server.CoversReplies (some res) (exchanged.map Prod.fst) := by
  induction hlen : reads.length using Nat.strong_induction_on generalizing reads with
  | _ size ih =>
      intro offset res endings
      cases hread : asyncRead p [] reads with
      | failed e => simp [server.exchanges_of_failed hread, CoversReplies, ProofLib.Throughout]
      | request req n left reads' =>
          obtain ⟨rest, hexchanges, hrest⟩ :=
            server.exchanges_of_request offset res endings hread
          have hfirst : server.AsOnNew (req, (server.respond res req).content) ↔
              CoversReply server.router res req :=
            (server.asOnNew_iff req _).trans (reply_eq_iff server res req)
          have hcovers : (∀ r, some res = some r → CoversReply server.router r req) ↔
              CoversReply server.router res req := by
            simp
          simp only [hexchanges, List.forall_mem_cons, List.map_cons, CoversReplies,
            ProofLib.Throughout, hcovers]
          refine and_congr hfirst ?_
          rcases hrest with rfl | ⟨res', hnext, rfl⟩
          · simp [ProofLib.Throughout]
          · have hlt : reads'.length < size := hlen ▸ asyncRead_lt hread
            rw [hnext]
            exact ih _ hlt reads' rfl _ res' endings.tail

end HttpsServer

/-- On every connection, each exchange is the one of a new connection exactly when the handlers of
the requests cover what the response object holds. -/
theorem replies_as_new_iff (server : HttpsServer) (p : Parser) (endings : List Ending)
    (reads : List Text) :
    (∀ exchange ∈ exchanges (server.handleConnection p endings reads),
        server.AsOnNew exchange) ↔
      server.CoversReplies (some Response.empty)
        ((exchanges (server.handleConnection p endings reads)).map Prod.fst) :=
  server.exchanges_as_new_iff reads 0 Response.empty endings

/-- A site with one page and a preflight route. -/
def site : HttpsServer where
  router := (Router.mk (fun _ => [])).add "OPTIONS"
    ⟨"/api", fun target => if target = "/api" then some ∅ else none, some Controller.setCors⟩
  staticHeaders := []
  wire := ⟨fun _ => [], fun _ => []⟩

/-- A request for a page that the site does not have. -/
def unknownPage : Request := ⟨"GET", "/none", 11, [], [], true⟩

/-- A preflight request. -/
def preflight : Request := ⟨"OPTIONS", "/api", 11, [], [], true⟩

/-- The reply to a request for an unknown page. -/
def notFound : Option (Nat × Text) := some (404, "404 Not Found")

/-- What the site writes to the two requests, one after the other on a connection. -/
theorem exchanges_site :
    exchanges (site.handleConnection plainParser []
        ["GET /none HTTP/1.1\r\n\r\n", "OPTIONS /api HTTP/1.1\r\n\r\n"]) =
      [(unknownPage, notFound), (preflight, notFound)] := by
  have hfirst : asyncRead plainParser []
      ["GET /none HTTP/1.1\r\n\r\n", "OPTIONS /api HTTP/1.1\r\n\r\n"] =
        .request unknownPage 22 [] ["OPTIONS /api HTTP/1.1\r\n\r\n"] := by decide
  have hsecond : asyncRead plainParser [] ["OPTIONS /api HTTP/1.1\r\n\r\n"] =
      .request preflight 25 [] [] := by decide
  have hend : asyncRead plainParser [] [] = .failed .endOfStream := by decide
  unfold HttpsServer.handleConnection
  rw [requestLoop_of_request hfirst]
  show (unknownPage, _) :: exchanges (requestLoop plainParser site.onError (turnOf site.respond)
    22 (_, []) [] _) = _
  rw [requestLoop_of_request hsecond]
  show _ :: (preflight, _) :: exchanges (requestLoop plainParser site.onError
    (turnOf site.respond) 47 (_, []) [] []) = _
  rw [requestLoop_of_failed hend]
  decide

/-- A preflight request after a request for an unknown page is answered 404, where on a new
connection it is answered 200. -/
theorem preflight_inherits_not_found :
    ¬ ∀ exchange ∈ exchanges (site.handleConnection plainParser []
        ["GET /none HTTP/1.1\r\n\r\n", "OPTIONS /api HTTP/1.1\r\n\r\n"]),
      site.AsOnNew exchange := by
  intro h
  rw [exchanges_site] at h
  have hsecond := (site.asOnNew_iff preflight _).mp (h (preflight, notFound) (by simp))
  exact absurd hsecond (by decide)

end Brazier
