import Brazier.Http.ConnectionField
import Brazier.ProofLib.HeadedMessages
import Mathlib.Data.List.Forall2

/-!
# The responses on a connection

The HTTPS server puts the text of each response together by hand, and sends nothing that tells
where one ends but its length. `responses_readable` says that a client reads the responses of a
connection again, each with the status, the fields and the body that its handler left, and that no
part of what is written is read as anything else.
-/

namespace Brazier

open ProofLib HeadedMessage

/-! ## How a client reads a response -/

/-- The value of a text of digits. -/
def numeralValue (text : Text) : Option Nat :=
  if text ≠ [] ∧ text.all Char.isDigit = true then some (Nat.ofDigitChars 10 text 0) else none

/-- The status in a status line. -/
def statusOf (start : Text) : Option Nat :=
  numeralValue (((start.dropWhile (fun c => c ≠ ' ')).drop 1).takeWhile (fun c => c ≠ ' '))

/-- A field of this name, in any case. -/
def isNamed (name : Text) (field : Text × Text) : Bool := field.1.map Char.toLower = name

/-- A name that may be read, of a field that says nothing about the length. -/
def isOtherName (name : Text) : Bool :=
  name ≠ [] && name.all isNameChar && name.map Char.toLower ≠ ("content-length" : Text) &&
    name.map Char.toLower ≠ ("transfer-encoding" : Text)

/-- The length in the `Content-Length` field. There must be one such field. -/
def contentLengthOf (fields : List (Text × Text)) : Option Nat :=
  match fields.filter (isNamed "content-length") with
  | [field] => numeralValue field.2
  | _ => none

/-- How long the body of a final response is, by the rules of HTTP/1.1. A response to `HEAD` has
none; and bodies in chunks are not read. -/
def responseLength (method : Text) : Rule := fun start fields =>
  match statusOf start with
  | none => none
  | some status =>
      if status < 200 then none
      else if method = "HEAD" ∨ status = 204 ∨ status = 304 then some 0
      else if fields.any (isNamed "transfer-encoding") = true then none
      else contentLengthOf fields

/-- The bytes that are written. -/
def writtenBytes (events : List Event) : Text :=
  events.flatMap fun event =>
    match event with
    | .handles _ _ => []
    | .writes _ bytes => bytes

theorem numeralValue_natText (n : Nat) : numeralValue (natText n) = some n := by
  have hdigits : (natText n).all Char.isDigit = true :=
    List.all_eq_true.mpr fun c hc => isDigit_of_mem_natText hc
  rw [numeralValue, if_pos ⟨natText_ne_nil n, hdigits⟩, natText_eq_toDigits,
    Nat.ofDigitChars_ten_toDigits]

/-- A digit is a character of its own kind. -/
theorem ne_of_mem_natText {n : Nat} {c d : Char} (h : c ∈ natText n) (hd : d.isDigit = false) :
    c ≠ d := by
  rintro rfl
  rw [isDigit_of_mem_natText h] at hd
  cases hd

/-- Nothing is trimmed off a number. -/
theorem trim_natText (n : Nat) : ProofLib.trim isBlank (natText n) = natText n := by
  refine trim_eq_self fun c hc => ?_
  have hspace := ne_of_mem_natText hc (show Char.isDigit ' ' = false by decide)
  have htab := ne_of_mem_natText hc (show Char.isDigit '\t' = false by decide)
  simp [isBlank, hspace, htab]

/-- A field of such a name. -/
theorem otherField {name value : Text} (hname : isOtherName name = true)
    (hvalue : ∀ c ∈ value, isTextChar c = true) :
    CleanField (name, value) ∧ isNamed "content-length" (name, value) = false ∧
      isNamed "transfer-encoding" (name, value) = false := by
  simp only [isOtherName, Bool.and_eq_true, decide_eq_true_iff] at hname
  obtain ⟨⟨⟨hne, hall⟩, hlength⟩, hencoding⟩ := hname
  exact ⟨⟨hne, List.all_eq_true.mp hall, hvalue⟩, decide_eq_false hlength,
    decide_eq_false hencoding⟩

/-! ## What the server writes -/

/-- The fields of the static headers. -/
def HeaderConfig.fields (config : HeaderConfig) : List (Text × Text) :=
  ("Server", config.serverName) ::
    if config.hstsEnabled then [("Strict-Transport-Security", config.hstsHeader)] else []

/-- A configuration whose values are lines. -/
structure HeaderConfig.Clean (config : HeaderConfig) : Prop where
  serverName : ∀ c ∈ config.serverName, isTextChar c = true
  hstsHeader : ∀ c ∈ config.hstsHeader, isTextChar c = true

namespace HttpsServer

/-- The status line. -/
def statusLine (server : HttpsServer) (status : Nat) : Text :=
  ("HTTP/1.1 " : Text) ++ natText status ++ (" " : Text) ++ server.wire.reason status

/-- A response as it is sent. -/
def sentMessage (server : HttpsServer) (config : HeaderConfig) (res : Response)
    (keepAlive : Bool) : HeadedMessage where
  start := server.statusLine res.status
  fields := config.fields ++ (("Connection" : Text), ownValue keepAlive) :: res.fields
  body := res.body

/-- The response of a pass. -/
def passMessage (server : HttpsServer) (config : HeaderConfig) (handlings : Nat → Handling)
    (pass : Progress × Request) : HeadedMessage :=
  server.sentMessage config (prepared handlings pass) (keepsAlive handlings pass)

/-- Fields whose values are lines, with no other framing than that of the server. -/
structure SendableFields (fields : List (Text × Text)) : Prop where
  clean : ∀ f ∈ fields, CleanField f
  encoding : ∀ f ∈ fields, isNamed "transfer-encoding" f = false

/-- The handler of the pass has left what can be sent: a final status, such fields, and no body for
`HEAD`. -/
structure Presentable (handlings : Nat → Handling) (pass : Progress × Request) : Prop where
  status : (handled handlings pass).1 = .returns → 200 ≤ (handled handlings pass).2.status
  fields : SendableFields (handled handlings pass).2.fields
  head : pass.2.method = "HEAD" →
    (handled handlings pass).1 = .returns ∧ (handled handlings pass).2.body = []

instance (handlings : Nat → Handling) (pass : Progress × Request) :
    Decidable (Answerable handlings pass) :=
  decidable_of_iff ((handled handlings pass).1 ≠ .throwsOther ∧
      ((handled handlings pass).1 = .returns → (handled handlings pass).2.body = [] ∨
        Response.isBodiless (handled handlings pass).2.status = false))
    ⟨fun h => ⟨h.1, h.2⟩, fun h => ⟨h.caught, h.payload⟩⟩

/-- The passes of a connection in which a response is written. -/
def answered (server : HttpsServer) (handlings : Nat → Handling) (p : Parser)
    (endings : List Ending) (reads : List Text) : List (Progress × Request) :=
  (server.passes handlings p endings reads).filter fun pass => decide (Answerable handlings pass)

variable {server : HttpsServer} {config : HeaderConfig} {handlings : Nat → Handling}
  {pass : Progress × Request}

/-! ## One response -/

theorem fieldText_eq (fields : List (Text × Text)) : fieldText fields = fieldLines fields := by
  unfold fieldText fieldLines Lines.unlines fieldLine
  rw [List.map_map]
  refine congrArg List.flatten (List.map_congr_left fun f _ => ?_)
  simp

theorem staticHeadersOf_eq (config : HeaderConfig) :
    staticHeadersOf config = fieldLines config.fields := by
  have hserver : fieldLines [("Server", config.serverName)] = _ :=
    fieldLines_one (show ("Server: " : Text) = _ by decide) config.serverName
  have hsts : fieldLines [("Strict-Transport-Security", config.hstsHeader)] = _ :=
    fieldLines_one (show ("Strict-Transport-Security: " : Text) = _ by decide)
      config.hstsHeader
  refine Eq.trans ?_ (fieldLines_append [(("Server" : Text), config.serverName)] _).symm
  refine congrArg₂ (fun first rest => first ++ rest) hserver.symm ?_
  cases config.hstsEnabled with
  | true => exact hsts.symm
  | false => rfl

/-- The text that is put together by hand is that of a message. -/
theorem flat_eq_text (res : Response) (keepAlive : Bool) :
    (server.loadCommonConfig config).flat res keepAlive =
      (server.sentMessage config res keepAlive).text := by
  have hown : fieldLines [(("Connection" : Text), ownValue keepAlive)] = _ :=
    fieldLines_one (show ("Connection: " : Text) = _ by decide) (ownValue keepAlive)
  have hcons : fieldLines ((("Connection" : Text), ownValue keepAlive) :: res.fields) = _ :=
    fieldLines_append [_] res.fields
  rw [flat_eq, fieldText_eq, ← hown]
  show (server.statusLine res.status ++ Lines.crlf ++ staticHeadersOf config) ++ _ =
    server.statusLine res.status ++ Lines.crlf ++ (fieldLines (config.fields ++ _ :: res.fields) ++
      (Lines.crlf ++ res.body))
  rw [staticHeadersOf_eq, fieldLines_append, hcons]
  simp only [List.append_assoc]

theorem statusOf_statusLine (status : Nat) :
    statusOf (server.statusLine status) = some status := by
  have hword : ((server.statusLine status).dropWhile (fun c => c ≠ ' ')).drop 1 =
      natText status ++ ' ' :: server.wire.reason status := by
    have hversion : ("HTTP/1.1 " : Text) = ['H', 'T', 'T', 'P', '/', '1', '.', '1', ' '] := by
      decide
    show List.drop 1 (List.dropWhile _ (("HTTP/1.1 " : Text) ++ _ ++ [' '] ++ _)) = _
    generalize ("HTTP/1.1 " : Text) = version at hversion
    rw [hversion]
    simp
  have hdigits : ∀ c ∈ natText status, decide (c ≠ ' ') = true := by
    intro c hc
    exact decide_eq_true (ne_of_mem_natText hc (by decide))
  rw [statusOf, hword, List.takeWhile_append_of_pos hdigits, List.takeWhile_cons_of_neg (by simp),
    List.append_nil, numeralValue_natText]

/-- A field that the server sets. -/
theorem SendableFields.set {res : Response} (h : SendableFields res.fields) {name value : Text}
    (hfield : SendableFields [(name, value)]) : SendableFields (res.set name value).fields := by
  have hmem : ∀ f ∈ (res.set name value).fields, f ∈ res.fields ∨ f ∈ [(name, value)] := by
    intro f hf
    exact (List.mem_append.mp hf).imp_left fun hin => (List.mem_filter.mp hin).1
  refine ⟨fun f hf => ?_, fun f hf => ?_⟩
  · exact (hmem f hf).elim (h.clean f) (hfield.clean f)
  · exact (hmem f hf).elim (h.encoding f) (hfield.encoding f)

theorem sendable_contentLength (n : Nat) : SendableFields [("Content-Length", natText n)] := by
  have htext : ∀ c ∈ natText n, isTextChar c = true := by
    intro c hc
    have hcr := ne_of_mem_natText hc (show Char.isDigit '\r' = false by decide)
    have hlf := ne_of_mem_natText hc (show Char.isDigit '\n' = false by decide)
    have hnul := ne_of_mem_natText hc (show Char.isDigit '\x00' = false by decide)
    simp [isTextChar, hcr, hlf, hnul]
  have hname : ∀ c ∈ ("Content-Length" : Text), isNameChar c = true :=
    List.all_eq_true.mp (by decide)
  have hother : ("Content-Length" : Text).map Char.toLower ≠ ("transfer-encoding" : Text) := by
    decide
  exact ⟨List.forall_mem_singleton.mpr ⟨nofun, hname, htext⟩,
    List.forall_mem_singleton.mpr (decide_eq_false hother)⟩

/-- A field that says nothing about the length. -/
theorem sendable_other {name value : Text} (hname : isOtherName name = true)
    (hvalue : ∀ c ∈ value, isTextChar c = true) : SendableFields [(name, value)] := by
  obtain ⟨hclean, -, hencoding⟩ := otherField hname hvalue
  exact ⟨List.forall_mem_singleton.mpr hclean, List.forall_mem_singleton.mpr hencoding⟩

theorem sendable_contentType :
    SendableFields [("Content-Type", ("application/json" : Text))] :=
  sendable_other (by decide) (List.all_eq_true.mp (by decide))

/-- What is left of the pass before its length is set. -/
theorem prepared_cases (h : Presentable handlings pass) (hanswerable : Answerable handlings pass) :
    ∃ res : Response, prepared handlings pass = res.contentLength res.body.length ∧
      200 ≤ res.status ∧ SendableFields res.fields ∧
      (pass.2.method = "HEAD" ∨ res.status = 204 ∨ res.status = 304 → res.body = []) := by
  obtain ⟨hstatus, hfields, hhead⟩ := h
  obtain ⟨-, hpayload⟩ := hanswerable
  by_cases hreturns : (handled handlings pass).1 = .returns
  · refine ⟨(handled handlings pass).2, ?_, hstatus hreturns, hfields, ?_⟩
    · rw [prepared]
      simp only [if_pos hreturns]
    · rintro (hmethod | hstatus | hstatus)
      · exact (hhead hmethod).2
      · refine (hpayload hreturns).resolve_right fun hfree => ?_
        rw [hstatus] at hfree
        cases hfree
      · refine (hpayload hreturns).resolve_right fun hfree => ?_
        rw [hstatus] at hfree
        cases hfree
  · refine ⟨serverError (handled handlings pass).2, ?_, (by decide : 200 ≤ 500), ?_, ?_⟩
    · rw [prepared]
      simp only [if_neg hreturns]
    · have hsame : SendableFields { (handled handlings pass).2 with status := 500 }.fields :=
        hfields
      exact hsame.set sendable_contentType
    · rintro (hmethod | hstatus | hstatus)
      · exact absurd (hhead hmethod).1 hreturns
      · cases hstatus
      · cases hstatus

/-- The fields that the server writes in front of those of the response. -/
theorem config_fields (hconfig : config.Clean) (keepAlive : Bool) :
    ∀ f ∈ config.fields ++ [(("Connection" : Text), ownValue keepAlive)],
      CleanField f ∧ isNamed "content-length" f = false ∧
        isNamed "transfer-encoding" f = false := by
  have hvalue : ∀ c ∈ ownValue keepAlive, isTextChar c = true := by
    cases keepAlive <;> exact List.all_eq_true.mp (by decide)
  intro f hf
  rw [HeaderConfig.fields, List.cons_append, List.mem_cons, List.mem_append,
    List.mem_singleton] at hf
  obtain rfl | hf | rfl := hf
  · exact otherField (by decide) hconfig.serverName
  · cases henabled : config.hstsEnabled with
    | true =>
        rw [henabled, if_pos rfl, List.mem_singleton] at hf
        rw [hf]
        exact otherField (by decide) hconfig.hstsHeader
    | false =>
        rw [henabled, if_neg Bool.false_ne_true] at hf
        exact absurd hf List.not_mem_nil
  · exact otherField (by decide) hvalue

/-- The one length field that a client finds. -/
theorem contentLengthOf_sent (server : HttpsServer) (hconfig : config.Clean) (res : Response)
    (keepAlive : Bool) (n : Nat) :
    contentLengthOf (server.sentMessage config (res.contentLength n) keepAlive).received.fields =
      some n := by
  have hfront : (config.fields ++ [(("Connection" : Text), ownValue keepAlive)]).filter
      (isNamed "content-length") = [] :=
    List.filter_eq_nil_iff.mpr fun f hf => by
      rw [(config_fields hconfig keepAlive f hf).2.1]
      exact Bool.false_ne_true
  have hlower : ("Content-Length" : Text).map Char.toLower = ("content-length" : Text) := by
    decide
  have herased : (res.erase "Content-Length").fields.filter (isNamed "content-length") = [] := by
    refine List.filter_eq_nil_iff.mpr fun f hf hnamed => ?_
    obtain ⟨-, hname⟩ := List.mem_filter.mp hf
    exact absurd ((of_decide_eq_true hnamed).trans hlower.symm) (of_decide_eq_true hname)
  have hself : [(("Content-Length" : Text), natText n)].filter (isNamed "content-length") =
      [(("Content-Length" : Text), natText n)] :=
    List.filter_cons_of_pos (decide_eq_true hlower)
  have hsplit : (server.sentMessage config (res.contentLength n) keepAlive).fields =
      (config.fields ++ [(("Connection" : Text), ownValue keepAlive)]) ++
        ((res.erase "Content-Length").fields ++ [(("Content-Length" : Text), natText n)]) := by
    rw [List.append_assoc]
    rfl
  have hfound : (server.sentMessage config (res.contentLength n) keepAlive).received.fields.filter
      (isNamed "content-length") = [receivedField (("Content-Length" : Text), natText n)] := by
    show List.filter _ (List.map receivedField _) = _
    have hname : isNamed "content-length" ∘ receivedField = isNamed "content-length" := rfl
    rw [List.filter_map, hname, hsplit, List.filter_append, hfront, List.filter_append, herased,
      hself]
    rfl
  rw [contentLengthOf, hfound]
  show numeralValue (ProofLib.trim isBlank (natText n)) = some n
  rw [trim_natText, numeralValue_natText]

/-- The response of a pass is read as it was written. -/
theorem clean_passMessage (hconfig : config.Clean)
    (hreason : ∀ status, ∀ c ∈ server.wire.reason status, isTextChar c = true)
    (h : Presentable handlings pass) (hanswerable : Answerable handlings pass) :
    (server.passMessage config handlings pass).Clean (responseLength pass.2.method) := by
  obtain ⟨res, hprepared, hstatus, hfields, hbody⟩ := prepared_cases h hanswerable
  have hsendable : SendableFields (res.contentLength res.body.length).fields :=
    hfields.set (sendable_contentLength res.body.length)
  rw [passMessage, hprepared]
  refine ⟨?_, ?_, ?_⟩
  · intro c hc
    show isTextChar c = true
    have hversion : ∀ c ∈ ("HTTP/1.1 " : Text), isTextChar c = true :=
      List.all_eq_true.mp (by decide)
    have hnumber : ∀ c ∈ natText res.status, isTextChar c = true :=
      ((sendable_contentLength res.status).clean _ (List.mem_singleton_self _)).value
    have hblank : ∀ c ∈ (" " : Text), isTextChar c = true :=
      List.all_eq_true.mp (by decide)
    obtain hc | hc := List.mem_append.mp hc
    · obtain hc | hc := List.mem_append.mp hc
      · obtain hc | hc := List.mem_append.mp hc
        · exact hversion c hc
        · exact hnumber c hc
      · exact hblank c hc
    · exact hreason res.status c hc
  · intro f hf
    have hfront := config_fields hconfig (keepsAlive handlings pass)
    obtain hf | hf := List.mem_append.mp hf
    · exact (hfront f (List.mem_append_left _ hf)).1
    · obtain rfl | hf := List.mem_cons.mp hf
      · exact (hfront _ (List.mem_append_right _ (List.mem_singleton_self _))).1
      · exact hsendable.clean f hf
  · have hlength := contentLengthOf_sent server hconfig res
      (keepsAlive handlings pass) res.body.length
    have hencoding : (server.sentMessage config (res.contentLength res.body.length)
        (keepsAlive handlings pass)).received.fields.any (isNamed "transfer-encoding") = false := by
      refine List.any_eq_false.mpr fun f hf => ?_
      obtain ⟨f, hin, rfl⟩ := List.mem_map.mp hf
      show ¬ isNamed "transfer-encoding" f = true
      rw [Bool.not_eq_true]
      obtain hin | hin := List.mem_append.mp hin
      · exact (config_fields hconfig (keepsAlive handlings pass) f (List.mem_append_left _ hin)).2.2
      · obtain rfl | hin := List.mem_cons.mp hin
        · exact (config_fields hconfig (keepsAlive handlings pass) _
            (List.mem_append_right _ (List.mem_singleton_self _))).2.2
        · exact hsendable.encoding f hin
    have hline : statusOf (server.sentMessage config (res.contentLength res.body.length)
        (keepsAlive handlings pass)).start = some res.status := statusOf_statusLine res.status
    show responseLength _ _ _ = some res.body.length
    rw [responseLength, hline]
    show (if res.status < 200 then _ else _) = _
    rw [if_neg (by omega)]
    by_cases hno : pass.2.method = "HEAD" ∨ res.status = 204 ∨ res.status = 304
    · rw [if_pos hno, hbody hno]
      rfl
    · rw [if_neg hno, hencoding, if_neg Bool.false_ne_true, hlength]

/-! ## All responses of a connection -/

theorem writtenBytes_append (events others : List Event) :
    writtenBytes (events ++ others) = writtenBytes events ++ writtenBytes others :=
  List.flatMap_append

theorem writtenBytes_unplaced (events : List Event) :
    writtenBytes (events.map Event.unplaced) = writtenBytes events := by
  unfold writtenBytes
  rw [List.flatMap_map]
  refine congrArg (fun f => List.flatMap f events) (funext fun event => ?_)
  cases event <;> rfl

/-- What is written in the passes is the texts of the responses, one behind the other. -/
theorem writtenBytes_passes (passes : List (Progress × Request)) :
    writtenBytes ((passes.map fun pass =>
        Event.handles 0 pass.2 :: (((server.loadCommonConfig config).turnWith handlings pass.1
          pass.2).1.map Event.unplaced)).flatten) =
      (((passes.filter fun pass => decide (Answerable handlings pass)).map
        (server.passMessage config handlings)).map HeadedMessage.text).flatten := by
  induction passes with
  | nil => rfl
  | cons pass passes ih =>
      have hpass : writtenBytes (Event.handles 0 pass.2 :: (((server.loadCommonConfig
          config).turnWith handlings pass.1 pass.2).1.map Event.unplaced)) =
          if Answerable handlings pass then (server.passMessage config handlings pass).text
          else [] := by
        show [] ++ writtenBytes (List.map _ _) = _
        rw [List.nil_append, writtenBytes_unplaced]
        by_cases h : Answerable handlings pass
        · rw [(turnWith_of_answerable _ h).1, if_pos h, passMessage, ← flat_eq_text]
          exact List.append_nil _
        · rw [turnWith_of_not_answerable _ h, if_neg h]
          rfl
      rw [List.map_cons, List.flatten_cons, writtenBytes_append, ih, hpass, List.filter_cons]
      by_cases h : Answerable handlings pass
      · rw [if_pos h, if_pos (decide_eq_true h)]
        rfl
      · rw [if_neg h, if_neg (by rw [decide_eq_true_iff]; exact h)]
        rfl

/-- The bytes of a connection: the responses to its requests, and what is written when a read
fails. -/
theorem writtenBytes_connection (server : HttpsServer) (config : HeaderConfig)
    (handlings : Nat → Handling) (p : Parser) (endings : List Ending) (reads : List Text) :
    ∃ ending, writtenBytes
        ((server.loadCommonConfig config).handleConnectionWith handlings p endings reads) =
      ((((server.loadCommonConfig config).answered handlings p endings reads).map
        (server.passMessage config handlings)).map HeadedMessage.text).flatten ++ ending := by
  obtain ⟨ending, -, hevents⟩ := @requestLoop_eq_turns _ p
    ((server.loadCommonConfig config).turnWith handlings) (server.loadCommonConfig config).onError 0
    (.start endings) reads
  refine ⟨writtenBytes ending, ?_⟩
  have hbytes := congrArg writtenBytes hevents
  rw [writtenBytes_unplaced, writtenBytes_append, writtenBytes_unplaced,
    writtenBytes_passes] at hbytes
  exact hbytes

/-- On every connection whose handlers leave what can be sent, a client that knows the methods of
the requests that are answered finds each response in what is written, with its status line, its
fields and its body; and whatever part of it has arrived is read as the first of these responses.
A client that has sent a request which the loop drops does not know them. -/
theorem responses_readable (hconfig : config.Clean)
    (hreason : ∀ status, ∀ c ∈ server.wire.reason status, isTextChar c = true)
    (handlings : Nat → Handling) (p : Parser) (endings : List Ending) (reads : List Text)
    (hpresentable : ∀ pass ∈ (server.loadCommonConfig config).answered handlings p endings reads,
      Presentable handlings pass) :
    let passes := (server.loadCommonConfig config).answered handlings p endings reads
    let bytes := writtenBytes
      ((server.loadCommonConfig config).handleConnectionWith handlings p endings reads)
    let rules := passes.map fun pass => responseLength pass.2.method
    let responses := passes.map fun pass => (server.passMessage config handlings pass).received
    messages rules bytes = responses ∧
      ∀ part, part <+: bytes → messages rules part <+: responses := by
  obtain ⟨ending, hbytes⟩ := writtenBytes_connection server config handlings p endings reads
  have hclean : ∀ pass ∈ (server.loadCommonConfig config).answered handlings p endings reads,
      (server.passMessage config handlings pass).Clean (responseLength pass.2.method) := by
    intro pass hpass
    exact clean_passMessage hconfig hreason (hpresentable pass hpass)
      (of_decide_eq_true (List.mem_filter.mp hpass).2)
  intro passes bytes rules responses
  have hall : List.Forall₂ Clean rules (passes.map (server.passMessage config handlings)) := by
    rw [List.forall₂_map_left_iff, List.forall₂_map_right_iff, List.forall₂_same]
    exact hclean
  have hresponses : (passes.map (server.passMessage config handlings)).map received = responses :=
    List.map_map
  refine ⟨?_, fun part hpart => ?_⟩
  · show messages rules (writtenBytes _) = _
    rw [hbytes, messages_written hall, hresponses]
  · rw [← hresponses]
    refine messages_prefix hall ending ?_
    rw [← hbytes]
    exact hpart

/-- A handler that answers with the target. -/
def answersTarget : Handling := fun req res =>
  (.returns, { res with status := 200, body := if req.method = "HEAD" then [] else req.target })

theorem presentable_answersTarget (pass : Progress × Request) :
    Presentable (fun _ => answersTarget) pass := by
  have hvalue : ∀ keepAlive, SendableFields [(("Connection" : Text), ownValue keepAlive)] := by
    intro keepAlive
    refine sendable_other (by decide) ?_
    cases keepAlive <;> exact List.all_eq_true.mp (by decide)
  have hnone : SendableFields [] := ⟨nofun, nofun⟩
  refine ⟨fun _ => le_rfl, ?_, fun hmethod => ⟨rfl, ?_⟩⟩
  · show SendableFields (opened pass.1.res pass.2).fields
    rw [opened_fields]
    split <;> split
    · exact hnone
    · exact hvalue false
    · exact hvalue true
    · exact hnone
  · show (if pass.2.method = "HEAD" then [] else pass.2.target) = []
    rw [if_pos hmethod]

theorem responses_readable_plain :
    let passes := plainSite.answered (fun _ => answersTarget) plainParser []
      ["GET /a HTTP/1.1\r\n\r\n", "GET /b HTTP/1.1\r\n\r\n"]
    let bytes := writtenBytes (plainSite.handleConnectionWith (fun _ => answersTarget) plainParser
      [] ["GET /a HTTP/1.1\r\n\r\n", "GET /b HTTP/1.1\r\n\r\n"])
    let rules := passes.map fun pass => responseLength pass.2.method
    let responses := passes.map fun pass =>
      (plainSite.passMessage ⟨"brazier", true, "max-age=31536000"⟩ (fun _ => answersTarget)
        pass).received
    messages rules bytes = responses ∧
      ∀ part, part <+: bytes → messages rules part <+: responses := by
  have hconfig : HeaderConfig.Clean ⟨"brazier", true, "max-age=31536000"⟩ :=
    ⟨List.all_eq_true.mp (by decide), List.all_eq_true.mp (by decide)⟩
  have hok : ∀ c ∈ ("OK" : Text), isTextChar c = true := List.all_eq_true.mp (by decide)
  exact responses_readable hconfig (fun _ => hok) (fun _ => answersTarget) plainParser [] _
    (fun pass _ => presentable_answersTarget pass)

end HttpsServer

end Brazier
