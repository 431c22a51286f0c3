import Brazier.Http.Responses
import Brazier.ProofLib.Lines
import Mathlib.Data.List.DropRight

/-!
# The Connection field

The HTTPS server writes the line `Connection:` by hand, in front of the fields of the response
object, where `keep_alive` of Boost.Beast and the handler may have put the field as well.
`consistent_iff` says when a client reads one such field, and `close` in it exactly when the server
leaves the loop.
-/

namespace Brazier

open ProofLib

/-! ## What a client reads -/

/-- A text without the blanks around it. -/
def trim (text : Text) : Text :=
  (text.dropWhile (fun c => c = ' ' || c = '\t')).rdropWhile (fun c => c = ' ' || c = '\t')

/-- The value of a line with a `Connection` field. The case of its name does not matter. -/
def connectionValue (line : Text) : Option Text :=
  if ':' ∈ line ∧ (line.takeWhile (fun c => c ≠ ':')).map Char.toLower = ("connection" : Text) then
    some (trim ((line.dropWhile (fun c => c ≠ ':')).drop 1))
  else none

/-- The values of the `Connection` fields of some lines. -/
def connectionValues (lines : List Text) : List Text := lines.filterMap connectionValue

/-- The lines in front of the first empty one. -/
def headLines (lines : List Text) : List Text := lines.takeWhile (fun line => line ≠ [])

/-- The values of the `Connection` fields of a response: of the lines behind the status line and in
front of the empty line. -/
def connectionFields (bytes : Text) : List Text :=
  connectionValues ((headLines (Lines.lines bytes)).drop 1)

/-- A value has the token `close`. -/
def saysClose (value : Text) : Bool :=
  ((getlines ',' value).map fun token => (trim token).map Char.toLower).contains ("close" : Text)

/-! ## What the server writes -/

/-- What the configuration says about the static headers. -/
structure HeaderConfig where
  serverName : Text
  hstsEnabled : Bool
  hstsHeader : Text

namespace HttpsServer

/-- The static headers that `load_common_config_from_global` makes up. -/
def staticHeadersOf (config : HeaderConfig) : Text :=
  ("Server: " : Text) ++ config.serverName ++ Lines.crlf ++
    if config.hstsEnabled then
      ("Strict-Transport-Security: " : Text) ++ config.hstsHeader ++ Lines.crlf
    else []

/-- `load_common_config_from_global`. -/
def loadCommonConfig (server : HttpsServer) (config : HeaderConfig) : HttpsServer :=
  { server with staticHeaders := staticHeadersOf config }

/-- The text in front of the line that is written by hand. -/
def preamble (server : HttpsServer) (status : Nat) : Text :=
  ("HTTP/1.1 " : Text) ++ natText status ++ (" " : Text) ++ server.wire.reason status ++
    Lines.crlf ++ server.staticHeaders

/-- The value in that line. -/
def ownValue (keepAlive : Bool) : Text := if keepAlive then "keep-alive" else "close"

/-- The text of the fields of the response object. -/
def fieldText (fields : List (Text × Text)) : Text :=
  (fields.map (fun field => field.1 ++ (": " : Text) ++ field.2 ++ Lines.crlf)).flatten

/-- The response that is written in the pass has one `Connection` field, which says `close` exactly
when the loop is left. -/
def ConsistentConnection (server : HttpsServer) (handlings : Nat → Handling)
    (pass : Progress × Request) : Prop :=
  ∀ res bytes, .writes res bytes ∈ (server.turnWith handlings pass.1 pass.2).1 →
    ∃ value, connectionFields bytes = [value] ∧
      (saysClose value = true ↔ (server.turnWith handlings pass.1 pass.2).2 = none)

/-- The line that is written by hand is the only one, and if it says that the connection is kept,
the write succeeds and the idle timer does not fire before the test of the loop. Where the static
headers have an empty line, that line is not reached. -/
structure OnlyLine (server : HttpsServer) (handlings : Nat → Handling)
    (pass : Progress × Request) : Prop where
  reached : [] ∉ Lines.lines (server.preamble (prepared handlings pass).status) →
    connectionValues ((Lines.lines (server.preamble (prepared handlings pass).status)).drop 1) =
        [] ∧
      connectionValues (headLines (Lines.lines (fieldText (prepared handlings pass).fields))) =
        [] ∧
      (keepsAlive handlings pass = true → (pass.1.endings.headD .inTime).goesOn = true)
  unreached : [] ∈ Lines.lines (server.preamble (prepared handlings pass).status) →
    ∃ value, connectionValues
        ((headLines (Lines.lines (server.preamble (prepared handlings pass).status))).drop 1) =
          [value] ∧
      (saysClose value = true ↔
        ¬ ((pass.1.endings.headD .inTime).goesOn = true ∧ keepsAlive handlings pass = true))

/-! ## The lines of a response -/

theorem flat_eq (server : HttpsServer) (res : Response) (keepAlive : Bool) :
    server.flat res keepAlive = server.preamble res.status ++
      ((("Connection: " : Text) ++ ownValue keepAlive) ++ Lines.crlf ++
        (fieldText res.fields ++ (Lines.crlf ++ res.body))) := by
  unfold flat preamble fieldText ownValue Lines.crlf
  cases keepAlive <;> simp

/-- The static headers have ended. -/
theorem ended_staticHeadersOf (config : HeaderConfig) : Lines.Ended (staticHeadersOf config) := by
  refine (Lines.ended_crlf _).append ?_
  cases config.hstsEnabled with
  | true => exact Lines.ended_crlf _
  | false => rfl

theorem ended_preamble (server : HttpsServer) (config : HeaderConfig) (status : Nat) :
    Lines.Ended ((server.loadCommonConfig config).preamble status) :=
  (Lines.ended_crlf _).append (ended_staticHeadersOf config)

theorem ended_fieldText (fields : List (Text × Text)) : Lines.Ended (fieldText fields) := by
  induction fields with
  | nil => rfl
  | cons field rest ih => exact Lines.Ended.append (Lines.ended_crlf _) ih

/-- The line that is written by hand is one line. -/
theorem unbroken_own (keepAlive : Bool) :
    Lines.Unbroken (("Connection: " : Text) ++ ownValue keepAlive) := by
  cases keepAlive <;> decide

theorem connectionValue_own (keepAlive : Bool) :
    connectionValue (("Connection: " : Text) ++ ownValue keepAlive) =
      some (ownValue keepAlive) := by
  cases keepAlive <;> decide

theorem saysClose_own (keepAlive : Bool) : saysClose (ownValue keepAlive) = !keepAlive := by
  cases keepAlive <;> decide

/-- The lines of a response: those of the preamble, the one written by hand, those of the fields,
the empty one, and those of the body. -/
theorem lines_flat (server : HttpsServer) (config : HeaderConfig) (res : Response)
    (keepAlive : Bool) :
    Lines.lines ((server.loadCommonConfig config).flat res keepAlive) =
      Lines.lines ((server.loadCommonConfig config).preamble res.status) ++
        (("Connection: " : Text) ++ ownValue keepAlive) ::
          (Lines.lines (fieldText res.fields) ++ [] :: Lines.lines res.body) := by
  rw [flat_eq, Lines.lines_append (server.ended_preamble config res.status),
    Lines.lines_line (unbroken_own keepAlive), Lines.lines_append (ended_fieldText res.fields)]
  rfl

/-- The lines in front of the first empty one, where there is none at first. -/
theorem headLines_append {lines : List Text} (h : [] ∉ lines) (rest : List Text) :
    headLines (lines ++ rest) = lines ++ headLines rest := by
  refine List.takeWhile_append_of_pos fun line hline => decide_eq_true ?_
  intro hnil
  exact h (hnil ▸ hline)

/-- Behind an empty line nothing counts. -/
theorem headLines_of_mem {lines : List Text} (h : [] ∈ lines) (rest : List Text) :
    headLines (lines ++ rest) = headLines lines := by
  induction lines with
  | nil => cases h
  | cons line lines ih =>
      by_cases hline : line = []
      · subst hline
        rfl
      · have hmem : [] ∈ lines := by
          rw [List.mem_cons] at h
          exact h.resolve_left fun heq => hline heq.symm
        rw [List.cons_append, headLines, headLines,
          List.takeWhile_cons_of_pos (by simpa using hline),
          List.takeWhile_cons_of_pos (by simpa using hline)]
        exact congrArg (fun lines => line :: lines) (ih hmem)

/-- The empty line itself does not count. -/
theorem headLines_append_nil (lines rest : List Text) :
    headLines (lines ++ [] :: rest) = headLines lines := by
  by_cases h : [] ∈ lines
  · exact headLines_of_mem h _
  · have hall := headLines_append h []
    rw [List.append_nil] at hall
    rw [headLines_append h, hall]
    rfl

/-- The preamble begins with the status line. -/
theorem preamble_lines_ne_nil (server : HttpsServer) (config : HeaderConfig) (status : Nat) :
    Lines.lines ((server.loadCommonConfig config).preamble status) ≠ [] := by
  refine Lines.lines_ne_nil (server.ended_preamble config status) ?_
  unfold preamble
  simp

/-- The `Connection` fields that a client reads where the line written by hand is reached. -/
theorem connectionFields_reached (server : HttpsServer) (config : HeaderConfig) (res : Response)
    (keepAlive : Bool)
    (h : [] ∉ Lines.lines ((server.loadCommonConfig config).preamble res.status)) :
    connectionFields ((server.loadCommonConfig config).flat res keepAlive) =
      connectionValues
          ((Lines.lines ((server.loadCommonConfig config).preamble res.status)).drop 1) ++
        ownValue keepAlive ::
          connectionValues (headLines (Lines.lines (fieldText res.fields))) := by
  have hown : headLines ((("Connection: " : Text) ++ ownValue keepAlive) ::
      (Lines.lines (fieldText res.fields) ++ [] :: Lines.lines res.body)) =
        (("Connection: " : Text) ++ ownValue keepAlive) ::
          headLines (Lines.lines (fieldText res.fields)) := by
    rw [← headLines_append_nil (Lines.lines (fieldText res.fields)) (Lines.lines res.body)]
    exact List.takeWhile_cons_of_pos (by cases keepAlive <;> decide)
  obtain ⟨status, headers, hlines⟩ :=
    List.exists_cons_of_ne_nil (server.preamble_lines_ne_nil config res.status)
  rw [connectionFields, lines_flat, headLines_append h, hown, hlines, List.cons_append,
    List.drop_one, List.drop_one, List.tail_cons, List.tail_cons, connectionValues,
    List.filterMap_append, List.filterMap_cons_some (connectionValue_own keepAlive)]
  rfl

/-- And where an empty line of the static headers stands in front of it. -/
theorem connectionFields_unreached (server : HttpsServer) (config : HeaderConfig) (res : Response)
    (keepAlive : Bool)
    (h : [] ∈ Lines.lines ((server.loadCommonConfig config).preamble res.status)) :
    connectionFields ((server.loadCommonConfig config).flat res keepAlive) =
      connectionValues
        ((headLines
          (Lines.lines ((server.loadCommonConfig config).preamble res.status))).drop 1) := by
  rw [connectionFields, lines_flat, headLines_of_mem h]

/-! ## A pass -/

/-- The property of a pass that is answered. -/
theorem consistentConnection_of_answerable (server : HttpsServer) {handlings : Nat → Handling}
    {pass : Progress × Request} (h : Answerable handlings pass) :
    server.ConsistentConnection handlings pass ↔
      ∃ value, connectionFields
          (server.flat (prepared handlings pass) (keepsAlive handlings pass)) = [value] ∧
        (saysClose value = true ↔
          ¬ ((pass.1.endings.headD .inTime).goesOn = true ∧ keepsAlive handlings pass = true)) := by
  obtain ⟨hwrites, hleft⟩ := server.turnWith_of_answerable h
  rw [ConsistentConnection, hwrites, hleft]
  constructor
  · exact fun hall => hall _ _ (List.mem_singleton_self _)
  · intro hone res bytes hmem
    cases List.mem_singleton.mp hmem
    exact hone

/-- A list with one value in the middle has this one value. -/
theorem append_cons_eq_singleton {before after : List Text} {own value : Text} :
    before ++ own :: after = [value] ↔ before = [] ∧ after = [] ∧ value = own := by
  constructor
  · intro h
    have hlength := congrArg List.length h
    rw [List.length_append, List.length_cons, List.length_singleton] at hlength
    obtain rfl : before = [] := List.eq_nil_of_length_eq_zero (by omega)
    obtain rfl : after = [] := List.eq_nil_of_length_eq_zero (by omega)
    exact ⟨rfl, rfl, (List.cons.inj h).1.symm⟩
  · intro ⟨hbefore, hafter, hvalue⟩
    rw [hbefore, hafter, hvalue]
    rfl

/-- One pass. -/
theorem consistentConnection_iff (server : HttpsServer) (config : HeaderConfig)
    (handlings : Nat → Handling) (pass : Progress × Request) :
    (server.loadCommonConfig config).ConsistentConnection handlings pass ↔
      (Answerable handlings pass → (server.loadCommonConfig config).OnlyLine handlings pass) := by
  by_cases h : Answerable handlings pass
  · rw [consistentConnection_of_answerable _ h, imp_iff_right h]
    by_cases hempty : [] ∈ Lines.lines
        ((server.loadCommonConfig config).preamble (prepared handlings pass).status)
    -- the fields and the line written by hand are part of the body
    · rw [server.connectionFields_unreached config _ _ hempty]
      exact ⟨fun hone => ⟨fun hno => absurd hempty hno, fun _ => hone⟩,
        fun honly => honly.unreached hempty⟩
    · rw [server.connectionFields_reached config _ _ hempty]
      constructor
      · intro ⟨value, hvalue, hsaid⟩
        -- the one value is that of the line written by hand
        obtain ⟨hbefore, hafter, rfl⟩ := append_cons_eq_singleton.mp hvalue
        rw [saysClose_own] at hsaid
        refine ⟨fun _ => ⟨hbefore, hafter, fun hkeeps => ?_⟩, fun hyes => absurd hyes hempty⟩
        rw [hkeeps] at hsaid
        -- `keep-alive` was written, so neither the write nor the timer may leave the loop
        by_contra hfails
        exact Bool.false_ne_true (hsaid.mpr fun hboth => hfails hboth.1)
      · intro honly
        obtain ⟨hbefore, hafter, hwrite⟩ := honly.reached hempty
        refine ⟨ownValue (keepsAlive handlings pass),
          append_cons_eq_singleton.mpr ⟨hbefore, hafter, rfl⟩, ?_⟩
        rw [saysClose_own, Bool.not_eq_true']
        constructor
        · intro hclose hboth
          rw [hclose] at hboth
          exact Bool.false_ne_true hboth.2
        · intro hleft
          by_contra hkeeps
          rw [Bool.not_eq_false] at hkeeps
          exact hleft ⟨hwrite hkeeps, hkeeps⟩
  · refine iff_of_true ?_ fun hyes => absurd hyes h
    intro res bytes hmem
    rw [HttpsServer.turnWith_of_not_answerable _ h] at hmem
    cases hmem

/-- On every connection, each response that is written has one `Connection` field, and that says
`close` exactly when the loop is left, exactly when the line written by hand is the only one. -/
theorem consistent_iff (server : HttpsServer) (config : HeaderConfig)
    (handlings : Nat → Handling) (p : Parser) (endings : List Ending) (reads : List Text) :
    (∀ pass ∈ (server.loadCommonConfig config).passes handlings p endings reads,
        (server.loadCommonConfig config).ConsistentConnection handlings pass) ↔
      ∀ pass ∈ (server.loadCommonConfig config).passes handlings p endings reads,
        Answerable handlings pass → (server.loadCommonConfig config).OnlyLine handlings pass :=
  forall₂_congr fun pass _ => server.consistentConnection_iff config handlings pass

/-- The static headers have no empty line and no `Connection` field, and the handler leaves those
that `keep_alive` has put into the response object. -/
structure Modest (server : HttpsServer) (handlings : Nat → Handling)
    (pass : Progress × Request) : Prop where
  reached : [] ∉ Lines.lines (server.preamble (prepared handlings pass).status)
  headers : connectionValues
    ((Lines.lines (server.preamble (prepared handlings pass).status)).drop 1) = []
  handler :
    connectionValues (headLines (Lines.lines (fieldText (prepared handlings pass).fields))) =
      connectionValues (headLines (Lines.lines (fieldText (opened pass.1.res pass.2).fields)))

/-- What `keep_alive` puts into a cleared response. -/
theorem opened_fields (res : Response) (req : Request) :
    (opened res req).fields =
      if 11 ≤ req.version then
        if req.keepAlive then [] else [(("Connection" : Text), ("close" : Text))]
      else if req.keepAlive then [(("Connection" : Text), ("keep-alive" : Text))] else [] := by
  unfold opened Response.keepAlive
  split <;> split <;> rfl

/-- It puts no field there where the version says as much. -/
theorem connectionValues_opened (res : Response) (req : Request) :
    connectionValues (headLines (Lines.lines (fieldText (opened res req).fields))) = [] ↔
      (11 ≤ req.version ↔ req.keepAlive = true) := by
  rw [opened_fields]
  by_cases hversion : 11 ≤ req.version
  · rw [if_pos hversion, iff_true_left hversion]
    cases req.keepAlive with
    | true => exact iff_of_true rfl rfl
    | false => exact iff_of_false (by decide) Bool.false_ne_true
  · rw [if_neg hversion, iff_false_left hversion]
    cases req.keepAlive with
    | true => exact iff_of_false (by decide) (fun h => h rfl)
    | false => exact iff_of_true rfl Bool.false_ne_true

/-- With such headers and handlers it is the only line when a client of version 1.1 keeps the
connection, or an older one does not. -/
theorem onlyLine_iff_of_modest {server : HttpsServer} {handlings : Nat → Handling}
    {pass : Progress × Request} (h : server.Modest handlings pass) :
    server.OnlyLine handlings pass ↔
      (11 ≤ pass.2.version ↔ pass.2.keepAlive = true) ∧
        (keepsAlive handlings pass = true → (pass.1.endings.headD .inTime).goesOn = true) := by
  rw [← connectionValues_opened pass.1.res, ← h.handler]
  constructor
  · intro honly
    exact (honly.reached h.reached).2
  · intro hboth
    exact ⟨fun _ => ⟨h.headers, hboth⟩, fun hempty => absurd hempty h.reached⟩

/-- A server with the default headers. -/
def plainSite : HttpsServer :=
  loadCommonConfig ⟨⟨fun _ => []⟩, [], ⟨fun _ => "OK", fun _ => []⟩⟩
    ⟨"brazier", true, "max-age=31536000"⟩

/-- A request of a client that closes the connection. -/
def closingRequest : Request := ⟨"GET", "/test", 11, [("Connection", "close")], [], false⟩

/-- Its text. -/
def closingText : Text := "GET /test HTTP/1.1\r\nConnection: close\r\n\r\n"

/-- The parser, as far as it knows this text. -/
def closingParser : Parser where
  parse bytes := if bytes = closingText then .complete closingRequest bytes.length else .incomplete
  parse_nil := by decide

/-- A handler that leaves the response as it is. -/
def returnsIt : Handling := fun _ res => (.returns, res)

/-- The client that closes the connection is told so twice. -/
theorem close_written_twice :
    ¬ ∀ pass ∈ plainSite.passes (fun _ => returnsIt) closingParser [] [closingText],
      plainSite.ConsistentConnection (fun _ => returnsIt) pass := by
  intro h
  have hread : asyncRead closingParser [] [closingText] = .request closingRequest 41 [] [] := by
    decide
  have hpass := h _ (plainSite.start_mem_passes hread)
  have hanswerable : Answerable (fun _ => returnsIt) (Progress.start [], closingRequest) :=
    ⟨nofun, fun _ => Or.inl rfl⟩
  obtain ⟨value, hvalue, -⟩ := (consistentConnection_of_answerable _ hanswerable).mp hpass
  have htwice : connectionFields (plainSite.flat
      (prepared (fun _ => returnsIt) (Progress.start [], closingRequest))
      (keepsAlive (fun _ => returnsIt) (Progress.start [], closingRequest))) =
        ["close", "close"] := by
    decide
  rw [htwice] at hvalue
  cases hvalue

end HttpsServer

end Brazier
