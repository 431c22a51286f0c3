import Brazier.Http.Router

/-!
# The request loops

`handle_connection` of `src/HttpsServerConnection.cpp` and of `src/Server.cpp`, from the first read
on. The transport is the list of the reads it delivers; when they are used up, the stream has ended
or the idle timer has closed it. The parser of Boost.Beast is a parameter: `asyncRead` takes bytes
until it has a message, and removes only the bytes of that message from the buffer. The ends of the
turns are a list, past whose end every write succeeds and the idle timer does not fire. The first
test of a loop comes right behind the start of the timer. A loop yields what happened in it.
-/

namespace Brazier

/-! ## Reading -/

/-- Why a read fails. -/
inductive ReadError where
  | bodyLimit
  | headerLimit
  | endOfStream
  | other
  deriving DecidableEq

/-- What the parser makes of the bytes in the buffer. -/
inductive Parsed where
  | incomplete
  | complete (req : Request) (length : Nat)
  | failed (e : ReadError)
  deriving DecidableEq

/-- A request parser. It needs at least one byte. -/
structure Parser where
  parse : Text → Parsed
  parse_nil : parse [] = .incomplete

/-- What a read returns: the request, its length, the buffer and the reads that are left. -/
inductive ReadResult where
  | request (req : Request) (length : Nat) (buffer : Text) (reads : List Text)
  | failed (e : ReadError)
  deriving DecidableEq

/-- `http::async_read`. -/
def asyncRead (p : Parser) (buffer : Text) (reads : List Text) : ReadResult :=
  match p.parse buffer with
  | .complete req n => .request req n (buffer.drop n) reads
  | .failed e => .failed e
  | .incomplete =>
      match reads with
      | [] => .failed .endOfStream
      | bytes :: rest => asyncRead p (buffer ++ bytes) rest

/-- A read adds nothing to the transport. -/
theorem asyncRead_le {p : Parser} {buffer : Text} {reads : List Text} {req : Request} {n : Nat}
    {buffer' : Text} {reads' : List Text}
    (h : asyncRead p buffer reads = .request req n buffer' reads') :
    reads'.length ≤ reads.length := by
  induction reads generalizing buffer with
  | nil =>
      unfold asyncRead at h
      cases hparse : p.parse buffer <;> simp_all
  | cons bytes rest ih =>
      unfold asyncRead at h
      cases hparse : p.parse buffer with
      | complete req' n' =>
          simp only [hparse, ReadResult.request.injEq] at h
          exact h.2.2.2 ▸ le_rfl
      | failed e => simp [hparse] at h
      | incomplete =>
          simp only [hparse] at h
          have hle := ih h
          rw [List.length_cons]
          omega

/-- A read with an empty buffer uses up a read of the transport. -/
theorem asyncRead_lt {p : Parser} {reads : List Text} {req : Request} {n : Nat} {buffer' : Text}
    {reads' : List Text} (h : asyncRead p [] reads = .request req n buffer' reads') :
    reads'.length < reads.length := by
  unfold asyncRead at h
  rw [p.parse_nil] at h
  cases reads with
  | nil => cases h
  | cons bytes rest =>
      have hle := asyncRead_le h
      rw [List.length_cons]
      omega

/-! ## The loop -/

/-- What happens on a connection. A request is handled together with the place in the stream where
its bytes begin. -/
inductive Event where
  | handles (offset : Nat) (req : Request)
  | writes (res : Response) (bytes : Text)
  deriving DecidableEq

/-- What the loop does with a request that it has read: what it writes, and the state to go on
with, unless the loop is left. -/
abbrev Turn (σ : Type) := σ → Request → List Event × Option σ

/-- The loop of both servers: read, handle and write, then `buffer.consume(buffer.size())`. The
offset is the place of the first byte of the buffer in the stream. -/
def requestLoop {σ : Type} (p : Parser) (onError : ReadError → List Event) (turn : Turn σ)
    (offset : Nat) (state : σ) (buffer : Text) (reads : List Text) : List Event :=
  match _hread : asyncRead p buffer reads with
  | .failed e => onError e
  | .request req n left reads' =>
      .handles offset req :: (turn state req).1 ++
        match (turn state req).2 with
        | none => []
        | some state' =>
            -- the message is gone from the buffer: what is dropped lies behind it
            requestLoop p onError turn (offset + n + left.length) state' (left.drop left.length)
              reads'
  termination_by reads.length + min 1 buffer.length
  decreasing_by
    have hle := asyncRead_le _hread
    cases buffer with
    | nil =>
        have hlt := asyncRead_lt _hread
        simp
        omega
    | cons c rest =>
        simp
        omega

section
variable {σ : Type} {p : Parser} {onError : ReadError → List Event} {turn : Turn σ}

/-- A loop whose read fails. -/
theorem requestLoop_of_failed {offset : Nat} {state : σ} {reads : List Text} {e : ReadError}
    (hread : asyncRead p [] reads = .failed e) :
    requestLoop p onError turn offset state [] reads = onError e := by
  rw [requestLoop]
  split
  · rename_i hfailed
    rw [hread] at hfailed
    cases hfailed
    rfl
  · rename_i hrequest
    rw [hread] at hrequest
    cases hrequest

/-- A loop that reads a request: the next pass begins with an empty buffer, behind all that was
read. -/
theorem requestLoop_of_request {offset : Nat} {state : σ} {reads reads' : List Text}
    {req : Request} {n : Nat} {left : Text}
    (hread : asyncRead p [] reads = .request req n left reads') :
    requestLoop p onError turn offset state [] reads =
      .handles offset req :: (turn state req).1 ++
        match (turn state req).2 with
        | none => []
        | some state' =>
            requestLoop p onError turn (offset + n + left.length) state' [] reads' := by
  rw [requestLoop]
  split
  · rename_i hfailed
    rw [hread] at hfailed
    cases hfailed
  · rename_i hrequest
    rw [hread] at hrequest
    cases hrequest
    rw [List.drop_length]

end

/-! ## The servers -/

/-- The bytes of a response, written by Boost.Beast or by hand. -/
structure Wire where
  reason : Nat → Text
  serialize : Response → Text

/-- A result of `respond`: an exception has left the loop, or a response is written. -/
inductive Reply where
  | leaves
  | writes (res : Response) (bytes : Text) (keepAlive : Bool)
  deriving DecidableEq

/-- How a turn ends: whether the response could be written, and whether the idle timer has fired
when the loop looks at `timed_out`. The timer is started again by the read of the request, but
nothing takes `timed_out` back. -/
structure Ending where
  written : Bool
  timedOut : Bool
  deriving DecidableEq

/-- The write succeeds, and the timer has not fired. -/
def Ending.inTime : Ending := ⟨true, false⟩

/-- Neither the write nor the timer ends the loop. -/
def Ending.goesOn (ending : Ending) : Bool := ending.written && !ending.timedOut

/-- The turn of a loop that writes the reply, and looks at how that ended. The state is the response
object and the ends of the turns to come. -/
def turnOf (respond : Response → Request → Reply) : Turn (Response × List Ending) :=
  fun (res, endings) req =>
    match respond res req with
    | .leaves => ([], none)
    | .writes res' bytes keepAlive =>
        ([.writes res' bytes],
          if (endings.headD .inTime).goesOn && keepAlive then some (res', endings.tail) else none)

/-- The HTTPS server. -/
structure HttpsServer where
  router : Router
  staticHeaders : Text
  wire : Wire

namespace HttpsServer

/-- The text of a response, built by hand. -/
def flat (server : HttpsServer) (res : Response) (keepAlive : Bool) : Text :=
  ("HTTP/1.1 " : Text) ++ natText res.status ++ (" " : Text) ++ server.wire.reason res.status ++
    ("\r\n" : Text) ++ server.staticHeaders ++ ("Connection: " : Text) ++
    (if keepAlive then ("keep-alive\r\n" : Text) else ("close\r\n" : Text)) ++
    (res.fields.map (fun field =>
      field.1 ++ (": " : Text) ++ field.2 ++ ("\r\n" : Text))).flatten ++
    ("\r\n" : Text) ++ res.body

/-- The response after an exception of a handler. -/
def serverError (res : Response) : Response :=
  { Response.set { res with status := 500 } "Content-Type" "application/json" with
    body := ("\x7b\"error\":\"internal server error\"\x7d" : Text) }

/-- The end of a turn: the length is set and the text written. -/
def finish (server : HttpsServer) (res : Response) (keepAlive : Bool) : Reply :=
  match res.preparePayload with
  | .error _ => .leaves
  | .ok res => .writes res (server.flat res keepAlive) keepAlive

/-- What is done with a request: the response object of the connection is cleared and handed to
the router. -/
def respond (server : HttpsServer) (res : Response) (req : Request) : Reply :=
  let res := { res.clear with version := req.version }
  match server.router.handleRequest req (res.keepAlive req.keepAlive) with
  | (.returns, res) => server.finish res req.keepAlive
  | (.throwsException, res) => server.finish (serverError res) false
  | (.throwsOther, _) => .leaves

/-- The answer to a request beyond a limit. -/
def limitError (status : Nat) (body : Text) : Response :=
  let res := { Response.empty with status := status, version := 11 }
  let res := (res.set "Content-Type" "text/plain").set "Connection" "close"
  { res with body := body }.contentLength body.length

/-- A response written when a read fails. -/
def writesError (server : HttpsServer) (err : Response) : List Event :=
  [.writes err (server.wire.serialize err)]

/-- What is written when a read fails. -/
def onError (server : HttpsServer) : ReadError → List Event
  | .bodyLimit => server.writesError (limitError 413 "Payload too large")
  | .headerLimit => server.writesError (limitError 431 "Header too large")
  | _ => []

/-- `HttpsServer::handle_connection`, after the handshake. -/
def handleConnection (server : HttpsServer) (p : Parser) (endings : List Ending)
    (reads : List Text) : List Event :=
  requestLoop p server.onError (turnOf server.respond) 0 (Response.empty, endings) [] reads

end HttpsServer

/-- The plain server. -/
structure Server where
  router : Router
  wire : Wire

namespace Server

/-- A length is set unless the handler has set one. -/
def withLength (res : Response) : Response :=
  if res.count "Content-Length" = 0 then res.contentLength res.body.length else res

/-- What is done with a request: the response object is made new and handed to the router. -/
def respond (server : Server) (_ : Response) (req : Request) : Reply :=
  let res := { Response.empty with version := req.version }
  let res := (res.keepAlive req.keepAlive).set "Connection"
    (if req.keepAlive then "keep-alive" else "close")
  match server.router.handleRequest req (res.set "Server" "brazier") with
  | (.returns, res) =>
      match (withLength res).preparePayload with
      | .error _ => .leaves
      | .ok res => .writes res (server.wire.serialize res) req.keepAlive
  | _ => .leaves

/-- `Server::handle_connection`. -/
def handleConnection (server : Server) (p : Parser) (endings : List Ending) (reads : List Text) :
    List Event :=
  requestLoop p (fun _ => []) (turnOf server.respond) 0 (Response.empty, endings) [] reads

end Server

/-! ## A parser -/

/-- The length of the head of a request, with the empty line. -/
def headLength : Text → Option Nat
  | [] => none
  | c :: rest =>
      if ("\r\n\r\n" : Text).isPrefixOf (c :: rest) then some 4
      else (headLength rest).map (fun n => n + 1)

/-- The parser on requests of HTTP/1.1 without fields. -/
def plainParser : Parser where
  parse := fun bytes =>
    match headLength bytes with
    | none => .incomplete
    | some n =>
        .complete ⟨bytes.takeWhile (fun c => c ≠ ' '),
          ((bytes.dropWhile (fun c => c ≠ ' ')).drop 1).takeWhile (fun c => c ≠ ' '),
          11, [], [], true⟩ n
  parse_nil := rfl

end Brazier
