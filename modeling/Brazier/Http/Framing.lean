import Brazier.Http.Connection
import Brazier.ProofLib.Pieces

/-!
# Framing

The stream of a connection is the bytes of some complete requests and of an incomplete one, cut into
reads in some way. Each complete request is to be handled once, in its place. The loops drop what
they have read past the end of a request, and are left when the idle timer has fired while a handler
was awaited. So this depends on where the reads are cut and on how the turns end: `ReadApart` says
how.
-/

namespace Brazier

/-- A keep-alive request, well formed within the limits: the parser finds it whatever comes
behind it, and no part of it is a request. -/
structure Message (p : Parser) where
  bytes : Text
  request : Request
  complete : ∀ rest, p.parse (bytes ++ rest) = .complete request bytes.length
  partly : ∀ front, front <+: bytes → front ≠ bytes → p.parse front = .incomplete
  alive : request.keepAlive = true

/-- The beginning of a request. -/
structure Tail (p : Parser) where
  bytes : Text
  partly : ∀ front, front <+: bytes → p.parse front = .incomplete

/-- The bytes of some requests. -/
def stream {p : Parser} (messages : List (Message p)) : Text :=
  (messages.map Message.bytes).flatten

/-- The complete requests of the stream, each with its place. -/
def placed {p : Parser} : Nat → List (Message p) → List (Nat × Request)
  | _, [] => []
  | offset, m :: rest => (offset, m.request) :: placed (offset + m.bytes.length) rest

/-- The call of the router in an event. -/
def Event.call : Event → Option (Nat × Request)
  | .handles offset req => some (offset, req)
  | .writes _ _ => none

/-- The calls of `Router::handle_request`. -/
def calls (events : List Event) : List (Nat × Request) :=
  events.filterMap Event.call

/-- The read has found a request. -/
def ReadResult.isRequest : ReadResult → Bool
  | .request _ _ _ _ => true
  | .failed _ => false

/-- The reads and the turns let the loop find every request: each request but the last ends where a
read ends, and the loop goes on after it, which neither the handler nor the write nor the timer
prevents; after the last one the loop is left, or finds no request in the reads that are left. -/
def ReadApart {σ : Type} {p : Parser} (turn : Turn σ) :
    σ → List (Message p) → List Text → Prop
  | _, [], _ => True
  | state, [m], reads =>
      (turn state m.request).2 = none ∨
        (asyncRead p [] (ProofLib.cutAt m.bytes.length reads).2).isRequest = false
  | state, m :: m' :: rest, reads =>
      (ProofLib.cutAt m.bytes.length reads).1 = [] ∧
        ∃ state', (turn state m.request).2 = some state' ∧
          ReadApart turn state' (m' :: rest) (ProofLib.cutAt m.bytes.length reads).2

variable {σ : Type} {p : Parser} {onError : ReadError → List Event} {turn : Turn σ}

/-! ## One read -/

/-- A read returns the message with which the bytes begin, and takes no more reads than it
needs. -/
theorem asyncRead_message (m : Message p) {buffer rest : Text} {reads : List Text}
    (hbytes : buffer ++ reads.flatten = m.bytes ++ rest)
    (hle : buffer.length ≤ m.bytes.length) :
    asyncRead p buffer reads = .request m.request m.bytes.length
      (ProofLib.cutAt (m.bytes.length - buffer.length) reads).1
      (ProofLib.cutAt (m.bytes.length - buffer.length) reads).2 := by
  have hpre : buffer <+: m.bytes :=
    List.prefix_of_prefix_length_le ⟨reads.flatten, rfl⟩ ⟨rest, hbytes.symm⟩ hle
  induction reads generalizing buffer with
  | nil =>
      have hwhole : buffer = m.bytes := by
        refine hpre.eq_of_length_le ?_
        have hlen := congrArg List.length hbytes
        simp at hlen
        omega
      have hparse := m.complete []
      rw [List.append_nil] at hparse
      unfold asyncRead
      simp [hwhole, hparse]
  | cons bytes reads ih =>
      by_cases hwhole : buffer = m.bytes
      · have hparse := m.complete []
        rw [List.append_nil] at hparse
        unfold asyncRead
        simp [hwhole, hparse]
      · have hlt : buffer.length < m.bytes.length :=
          lt_of_le_of_ne hle (fun h => hwhole (hpre.eq_of_length h))
        have hflat : (buffer ++ bytes) ++ reads.flatten = m.bytes ++ rest := by
          simpa using hbytes
        unfold asyncRead
        rw [m.partly buffer hpre hwhole]
        by_cases hmore : (buffer ++ bytes).length ≤ m.bytes.length
        · have hpre' : buffer ++ bytes <+: m.bytes :=
            List.prefix_of_prefix_length_le ⟨reads.flatten, rfl⟩ ⟨rest, hflat.symm⟩ hmore
          have hread := ih hflat hmore hpre'
          rw [List.length_append, ← Nat.sub_sub] at hread
          rw [ProofLib.cutAt_cons_of_ge (by omega) (by simp at hmore; omega)]
          exact hread
        · have hover : m.bytes <+: buffer ++ bytes :=
            List.prefix_of_prefix_length_le ⟨rest, rfl⟩ ⟨reads.flatten, hflat⟩ (by omega)
          obtain ⟨extra, hextra⟩ := hover
          have hparse := m.complete extra
          rw [hextra] at hparse
          have hdrop : (buffer ++ bytes).drop m.bytes.length =
              bytes.drop (m.bytes.length - buffer.length) := by
            rw [List.drop_append, List.drop_eq_nil_of_le hle, List.nil_append]
          rw [ProofLib.cutAt_cons_of_le (by omega) (by simp at hmore; omega), ← hdrop]
          unfold asyncRead
          simp [hparse]

/-- The beginning of a request is never returned by a read. -/
theorem asyncRead_tail (t : Tail p) {buffer : Text} {reads : List Text}
    (hbytes : buffer ++ reads.flatten = t.bytes) :
    asyncRead p buffer reads = .failed .endOfStream := by
  induction reads generalizing buffer with
  | nil =>
      have hparse := t.partly buffer ⟨_, hbytes⟩
      unfold asyncRead
      rw [hparse]
  | cons bytes reads ih =>
      have hparse := t.partly buffer ⟨_, hbytes⟩
      unfold asyncRead
      rw [hparse]
      exact ih (by simpa using hbytes)

/-! ## The loop -/

/-- Writing is not calling. -/
structure Quiet (onError : ReadError → List Event) (turn : Turn σ) : Prop where
  onError : ∀ e, calls (onError e) = []
  turn : ∀ state req, calls (turn state req).1 = []

/-- The calls of a loop whose read fails. -/
theorem calls_of_failed (hquiet : Quiet onError turn) {offset : Nat} {state : σ}
    {reads : List Text} {e : ReadError} (hread : asyncRead p [] reads = .failed e) :
    calls (requestLoop p onError turn offset state [] reads) = [] := by
  rw [requestLoop_of_failed hread]
  exact hquiet.onError e

/-- The calls of a loop that has read a request: this one, and those of the next pass. -/
theorem calls_of_request (hquiet : Quiet onError turn) {offset : Nat} {state : σ}
    {reads reads' : List Text} {req : Request} {n : Nat} {left : Text}
    (hread : asyncRead p [] reads = .request req n left reads') :
    calls (requestLoop p onError turn offset state [] reads) =
      (offset, req) ::
        match (turn state req).2 with
        | none => []
        | some state' =>
            calls (requestLoop p onError turn (offset + n + left.length) state' [] reads') := by
  rw [requestLoop_of_request hread]
  have hwrites := hquiet.turn state req
  unfold calls at hwrites ⊢
  cases hnext : (turn state req).2 <;>
    simp [hwrites, Event.call, List.filterMap_append]

/-- A loop makes no call exactly when its first read finds no request. -/
theorem calls_eq_nil_iff (p : Parser) (hquiet : Quiet onError turn) (offset : Nat) (state : σ)
    (reads : List Text) :
    calls (requestLoop p onError turn offset state [] reads) = [] ↔
      (asyncRead p [] reads).isRequest = false := by
  cases hread : asyncRead p [] reads with
  | failed e => exact iff_of_true (calls_of_failed hquiet hread) rfl
  | request req n left reads' =>
      rw [calls_of_request hquiet hread]
      exact iff_of_false (List.cons_ne_nil _ _) (fun h => by cases h)

/-- A loop makes its first call at its own place. -/
theorem place_of_calls (hquiet : Quiet onError turn) {offset : Nat} {state : σ}
    {reads : List Text} {call : Nat × Request} {rest : List (Nat × Request)}
    (hcalls : calls (requestLoop p onError turn offset state [] reads) = call :: rest) :
    call.1 = offset := by
  cases hread : asyncRead p [] reads with
  | failed e =>
      rw [calls_of_failed hquiet hread] at hcalls
      cases hcalls
  | request req n left reads' =>
      rw [calls_of_request hquiet hread] at hcalls
      exact congrArg Prod.fst (List.cons.inj hcalls).1.symm

/-- A loop calls the router for exactly the complete requests of the stream exactly when the reads
and the turns let it find them. -/
theorem calls_eq_placed_iff (hquiet : Quiet onError turn) (t : Tail p)
    (messages : List (Message p)) (offset : Nat) (state : σ) (reads : List Text)
    (hreads : reads.flatten = stream messages ++ t.bytes) :
    calls (requestLoop p onError turn offset state [] reads) = placed offset messages ↔
      ReadApart turn state messages reads := by
  induction messages generalizing offset state reads with
  | nil =>
      have hread : asyncRead p [] reads = .failed .endOfStream :=
        asyncRead_tail t (by simpa [stream] using hreads)
      exact iff_of_true (calls_of_failed hquiet hread) trivial
  | cons m rest ih =>
      have hstream : stream (m :: rest) = m.bytes ++ stream rest := by simp [stream]
      rw [hstream, List.append_assoc] at hreads
      have hread : asyncRead p [] reads = .request m.request m.bytes.length
          (ProofLib.cutAt m.bytes.length reads).1 (ProofLib.cutAt m.bytes.length reads).2 :=
        asyncRead_message m hreads (Nat.zero_le _)
      have hbehind : (ProofLib.cutAt m.bytes.length reads).1 ++
          (ProofLib.cutAt m.bytes.length reads).2.flatten = stream rest ++ t.bytes := by
        rw [← ProofLib.drop_flatten_eq_cutAt, hreads, List.drop_left]
      rw [calls_of_request hquiet hread, placed, List.cons.injEq, and_iff_right rfl]
      cases rest with
      | nil =>
          unfold ReadApart
          cases hnext : (turn state m.request).2 with
          | none => exact iff_of_true rfl (Or.inl rfl)
          | some state' =>
              refine (calls_eq_nil_iff p hquiet _ state' _).trans ⟨Or.inr, ?_⟩
              intro hor
              rcases hor with hnone | hfails
              · cases hnone
              · exact hfails
      | cons m' rest =>
          unfold ReadApart
          cases hnext : (turn state m.request).2 with
          | none =>
              refine iff_of_false (List.cons_ne_nil _ _).symm ?_
              intro ⟨_, _, h, _⟩
              cases h
          | some state' =>
              by_cases hleft : (ProofLib.cutAt m.bytes.length reads).1 = []
              · rw [hleft, List.nil_append] at hbehind
                simp only [hleft, List.length_nil, Nat.add_zero, true_and]
                rw [ih _ state' _ hbehind]
                exact ⟨fun h => ⟨state', rfl, h⟩, fun ⟨_, hstate, h⟩ => Option.some.inj hstate ▸ h⟩
              · refine iff_of_false ?_ (fun h => hleft h.1)
                -- the next call is for bytes behind the place of the next request
                intro hcalls
                have hplace := place_of_calls hquiet hcalls
                exact hleft (List.eq_nil_of_length_eq_zero (by simpa using hplace.symm))

/-! ## The servers -/

/-- A turn that writes the reply calls nothing. -/
theorem calls_turnOf (respond : Response → Request → Reply) (state : Response × List Ending)
    (req : Request) : calls (turnOf respond state req).1 = [] := by
  unfold turnOf
  cases hreply : respond state.1 req <;> simp [hreply, calls, Event.call]

/-- The HTTPS server calls the router in its turns only. -/
theorem HttpsServer.quiet (server : HttpsServer) :
    Quiet server.onError (turnOf server.respond) where
  onError := by
    intro e
    cases e <;> rfl
  turn := calls_turnOf server.respond

/-- So does the plain server. -/
theorem Server.quiet (server : Server) : Quiet (fun _ => []) (turnOf server.respond) where
  onError := fun _ => rfl
  turn := calls_turnOf server.respond

/-- For every stream and every way to cut it into reads, each of the two servers calls the router
for exactly the complete requests, in order and once each, exactly when the reads and the turns let
it find them. -/
theorem framing_iff {p : Parser} (secure : HttpsServer) (plain : Server) (endings : List Ending)
    (messages : List (Message p)) (t : Tail p) (reads : List Text)
    (hreads : reads.flatten = stream messages ++ t.bytes) :
    (calls (secure.handleConnection p endings reads) = placed 0 messages ↔
      ReadApart (turnOf secure.respond) (Response.empty, endings) messages reads) ∧
    (calls (plain.handleConnection p endings reads) = placed 0 messages ↔
      ReadApart (turnOf plain.respond) (Response.empty, endings) messages reads) :=
  ⟨calls_eq_placed_iff secure.quiet t messages 0 _ reads hreads,
    calls_eq_placed_iff plain.quiet t messages 0 _ reads hreads⟩

/-! ## Two requests in one read -/

/-- `GET /`. -/
def getRoot : Message plainParser where
  bytes := "GET / HTTP/1.1\r\n\r\n"
  request := ⟨"GET", "/", 11, [], [], true⟩
  complete := fun _ => rfl
  partly := by
    have hall : ∀ n < 18, plainParser.parse
        (("GET / HTTP/1.1\r\n\r\n" : Text).take n) = .incomplete := by decide
    intro front hfront hne
    have hlt : front.length < 18 := lt_of_le_of_ne hfront.length_le
      (fun h => hne (hfront.eq_of_length h))
    rw [List.prefix_iff_eq_take.mp hfront]
    exact hall front.length hlt
  alive := rfl

/-- Nothing behind the last request. -/
def noTail : Tail plainParser where
  bytes := []
  partly := by
    intro front hfront
    rw [List.prefix_nil.mp hfront]
    rfl

/-- A site whose only answer is 404. -/
def emptySite : HttpsServer := ⟨⟨fun _ => []⟩, [], ⟨fun _ => [], fun _ => []⟩⟩

/-- The same site, served without TLS. -/
def plainSite : Server := ⟨⟨fun _ => []⟩, ⟨fun _ => [], fun _ => []⟩⟩

/-- Two requests whose reads end with them are both handled. -/
theorem separate_requests_handled :
    calls (emptySite.handleConnection plainParser [] [getRoot.bytes, getRoot.bytes]) =
        placed 0 [getRoot, getRoot] ∧
      calls (plainSite.handleConnection plainParser [] [getRoot.bytes, getRoot.bytes]) =
        placed 0 [getRoot, getRoot] := by
  have hframing := framing_iff emptySite plainSite [] [getRoot, getRoot] noTail
    [getRoot.bytes, getRoot.bytes] (by decide)
  exact ⟨hframing.1.mpr ⟨by decide, _, rfl, Or.inr (by decide)⟩,
    hframing.2.mpr ⟨by decide, _, rfl, Or.inr (by decide)⟩⟩

/-- Of two requests in one read the second one is lost, on both servers. -/
theorem pipelined_request_lost :
    calls (emptySite.handleConnection plainParser [] [getRoot.bytes ++ getRoot.bytes]) ≠
        placed 0 [getRoot, getRoot] ∧
      calls (plainSite.handleConnection plainParser [] [getRoot.bytes ++ getRoot.bytes]) ≠
        placed 0 [getRoot, getRoot] := by
  have hreads : [getRoot.bytes ++ getRoot.bytes].flatten =
      stream [getRoot, getRoot] ++ noTail.bytes := by decide
  have hcut : (ProofLib.cutAt getRoot.bytes.length [getRoot.bytes ++ getRoot.bytes]).1 ≠ [] := by
    decide
  refine ⟨fun h => ?_, fun h => ?_⟩
  · exact hcut ((calls_eq_placed_iff emptySite.quiet noTail _ 0 _ _ hreads).mp h).1
  · exact hcut ((calls_eq_placed_iff plainSite.quiet noTail _ 0 _ _ hreads).mp h).1

end Brazier
