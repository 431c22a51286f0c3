import Brazier.ProofLib.DotLines
import Brazier.ProofLib.Throwing
import Brazier.Text

/-!
# Sending a mail

`SmtpClient::send` of `src/SmtpClient.cpp`, from the first reply of the server on. The session keeps
the replies that are still to come and a log of what was written and which replies were accepted.
`decoded_iff` says for which arguments the message arrives as it was given, and `beyond_ne` that it
is never followed by `QUIT` alone.
-/

namespace Brazier

open ProofLib

/-- The members of an `SmtpClient` that a mail is made of, and `base64_encode`. -/
structure SmtpClient where
  host : Text
  username : Text
  password : Text
  base64Encode : Text → Text

/-- What happens in a session. -/
inductive Exchange where
  | written (bytes : Text)
  | accepted (code : Int)
  deriving DecidableEq

/-- A session: for each reply that is still to come the lines that arrive, and the log. -/
structure SmtpSession where
  replies : List (List Text)
  log : List Exchange

namespace SmtpClient

/-- A part of the session. -/
abbrev Action := Throwing SmtpSession Text

/-- `write_line`. -/
def writeLine (line : Text) : Action Unit :=
  modify fun s => { s with log := s.log ++ [.written (line ++ Lines.crlf)] }

/-- `std::isspace` in the C locale. -/
def isSpace (c : Char) : Bool :=
  c = ' ' || c = '\t' || c = '\n' || c = '\x0b' || c = '\x0c' || c = '\r'

/-- The number of some digits. -/
def digitsValue (digits : Text) : Int :=
  digits.foldl (fun value d => 10 * value + (d.toNat - '0'.toNat : Nat)) 0

/-- `std::stoi` of a text without a number. -/
def stoiDigits (text : Text) : Except Text Int :=
  match text.takeWhile Char.isDigit with
  | [] => .error ("stoi" : Text)
  | digits => .ok (digitsValue digits)

/-- `std::stoi`, of a text of three characters. -/
def stoi (text : Text) : Except Text Int :=
  match text.dropWhile isSpace with
  | '-' :: rest => (stoiDigits rest).map (fun value => -value)
  | '+' :: rest => stoiDigits rest
  | rest => stoiDigits rest

/-- A line without the carriage return at its end. -/
def popReturn (line : Text) : Text :=
  if line.getLast? = some '\r' then line.dropLast else line

/-- The loop of `read_response`. When no line is left the connection has ended. -/
def scanReply (expected : Int) : List Text → Except Text Unit
  | [] => .error ("End of file" : Text)
  | read :: rest =>
      let line := popReturn read
      if line.length < 3 then .error (("Invalid SMTP response: " : Text) ++ line)
      else
        match stoi (line.take 3) with
        | .error e => .error e
        | .ok code =>
            -- the last line of the reply; only its code is compared
            if (line.drop 3).head? = some ' ' then
              if code ≠ expected then
                .error (("SMTP Error: Expected " : Text) ++ intText expected ++ (", got " : Text) ++
                  line)
              else .ok ()
            else scanReply expected rest

/-- `read_response`. What is left in its buffer is lost with it. -/
def readResponse (expected : Int) : Action Unit := do
  let s ← get
  match scanReply expected (s.replies.headD []) with
  | .error e => throw e
  | .ok () =>
      modify fun s => { replies := s.replies.tail, log := s.log ++ [.accepted expected] }

/-- The fields of the mail, with the empty line behind them. -/
def header (client : SmtpClient) (recipient senderName : Text) : Text :=
  ("From: " : Text) ++
    (if senderName.length > 0 then senderName ++ (" <" : Text) ++ client.username ++ (">" : Text)
      else client.username) ++ Lines.crlf ++
    ("To: " : Text) ++ recipient ++ Lines.crlf ++
    ("Subject: Notification" : Text) ++ Lines.crlf ++
    ("MIME-Version: 1.0" : Text) ++ Lines.crlf ++
    ("Content-Type: text/html; charset=utf-8" : Text) ++ Lines.crlf ++
    Lines.crlf

/-- `email_data`. -/
def emailData (client : SmtpClient) (recipient message senderName : Text) : Text :=
  client.header recipient senderName ++ message ++ Lines.crlf ++ ['.'] ++ Lines.crlf

/-- `MAIL FROM`, and what comes before it, with the reply that each line waits for. -/
def greeting (client : SmtpClient) : List (Text × Int) :=
  [(("EHLO " : Text) ++ client.host, 250),
   (("AUTH PLAIN" : Text), 334),
   (client.base64Encode ('\x00' :: (client.username ++ '\x00' :: client.password)), 235),
   (("MAIL FROM:<" : Text) ++ client.username ++ (">" : Text), 250)]

/-- `RCPT TO`, and `DATA`. -/
def envelope (recipient : Text) : List (Text × Int) :=
  [(("RCPT TO:<" : Text) ++ recipient ++ (">" : Text), 250), (("DATA" : Text), 354)]

/-- A line, and the reply to it. -/
def exchange (step : Text × Int) : Action Unit := do
  writeLine step.1
  readResponse step.2

/-- The `try` block of `send`, from the first reply on. -/
def send (client : SmtpClient) (recipient message senderName : Text) : Action Unit := do
  readResponse 220
  (client.greeting ++ envelope recipient).forM exchange
  exchange (client.emailData recipient message senderName, 250)
  writeLine ("QUIT" : Text)

/-! ## The log of a session -/

/-- The bytes that a log has written. -/
def bytesOf (log : List Exchange) : Text :=
  log.flatMap fun
    | .written bytes => bytes
    | .accepted _ => []

/-- The bytes that were written before the 354 reply, and those that were written after it, if there
was one. -/
def splitAt354 : List Exchange → Option (Text × Text)
  | [] => none
  | .written bytes :: rest => (splitAt354 rest).map fun (before, after) => (bytes ++ before, after)
  | .accepted code :: rest => if code = 354 then some ([], bytesOf rest) else splitAt354 rest

/-- The server accepts with each of these codes in turn. -/
def accepts : List Int → List (List Text) → Bool
  | [], _ => true
  | code :: codes, replies =>
      (scanReply code (replies.headD [])).isOk && accepts codes replies.tail

/-- What is in the log after some steps that were accepted. -/
def entries (steps : List (Text × Int)) : List Exchange :=
  steps.flatMap fun step => [.written (step.1 ++ Lines.crlf), .accepted step.2]

/-- A reply that is accepted is logged, and one that is not changes nothing. -/
theorem readResponse_ends (expected : Int) (s : SmtpSession) :
    Ends (readResponse expected) s (fun r s' =>
      match r with
      | .ok () => accepts [expected] s.replies = true ∧
          s' = ⟨s.replies.tail, s.log ++ [.accepted expected]⟩
      | .error _ => accepts [expected] s.replies = false ∧ s' = s) := by
  refine ends_get_bind ?_
  unfold accepts
  cases hscan : scanReply expected (s.replies.headD []) with
  | error e => exact ends_throw ⟨rfl, rfl⟩
  | ok _ => exact ends_modify ⟨rfl, rfl⟩

theorem accepts_cons (code : Int) (codes : List Int) (replies : List (List Text)) :
    accepts (code :: codes) replies = (accepts [code] replies && accepts codes replies.tail) := by
  simp [accepts]

/-- A line is in the log even when the reply to it is not accepted. -/
theorem exchange_ends (step : Text × Int) (s : SmtpSession) :
    Ends (exchange step) s (fun r s' =>
      match r with
      | .ok () => accepts [step.2] s.replies = true ∧
          s' = ⟨s.replies.tail, s.log ++ entries [step]⟩
      | .error _ => accepts [step.2] s.replies = false ∧
          s' = ⟨s.replies, s.log ++ [.written (step.1 ++ Lines.crlf)]⟩) := by
  refine ends_modify_bind ((readResponse_ends step.2 _).imp ?_)
  intro r s' h
  cases r with
  | error e => exact h
  | ok _ =>
      refine ⟨h.1, h.2.trans ?_⟩
      show SmtpSession.mk _ (s.log ++ [_] ++ [_]) = _
      rw [List.append_assoc]
      rfl

/-- Either all steps were accepted and logged, or the code of the last one is not in the log. -/
theorem exchanges_end (steps : List (Text × Int)) (s : SmtpSession) :
    Ends (steps.forM exchange) s (fun r s' =>
      match r with
      | .ok () => accepts (steps.map Prod.snd) s.replies = true ∧
          s' = ⟨s.replies.drop steps.length, s.log ++ entries steps⟩
      | .error _ => accepts (steps.map Prod.snd) s.replies = false ∧
          ∀ code ∉ steps.dropLast.map Prod.snd, .accepted code ∉ s.log →
            .accepted code ∉ s'.log) := by
  induction steps generalizing s with
  | nil => exact ends_pure ⟨rfl, by simp [entries]⟩
  | cons step rest ih =>
      show Ends (exchange step >>= fun _ => rest.forM exchange) s _
      refine (exchange_ends step s).bind ?_ ?_
      · intro _ s₁ ⟨haccepts, hs₁⟩
        refine (ih s₁).imp ?_
        intro r s' h
        rw [List.map_cons, accepts_cons, haccepts, Bool.true_and]
        subst hs₁
        cases r with
        | ok _ =>
            refine ⟨h.1, h.2.trans ?_⟩
            simp [entries, List.append_assoc]
        | error e =>
            refine ⟨h.1, ?_⟩
            intro code hcode hlog
            -- a refused step is behind this one, so the code of this one is not the last
            have hne : rest ≠ [] := by
              intro hnil
              rw [hnil] at h
              cases h.1
            rw [List.dropLast_cons_of_ne_nil hne, List.map_cons, List.mem_cons, not_or] at hcode
            refine h.2 code hcode.2 ?_
            simp [entries, hlog, hcode.1]
      · intro e s' ⟨haccepts, hs'⟩
        rw [List.map_cons, accepts_cons, haccepts, Bool.false_and]
        refine ⟨rfl, ?_⟩
        intro code _ hlog
        rw [hs']
        simpa using hlog

/-- The codes that `send` waits for up to `DATA`. -/
def openingCodes : List Int := [220, 250, 334, 235, 250, 250, 354]

/-- The bytes that are written before the 354 reply. -/
def openingBytes (client : SmtpClient) (recipient : Text) : Text :=
  bytesOf (entries (client.greeting ++ envelope recipient))

theorem splitAt354_of_not_mem {log : List Exchange} (h : .accepted 354 ∉ log) :
    splitAt354 log = none := by
  induction log with
  | nil => rfl
  | cons entry rest ih =>
      rw [List.mem_cons, not_or] at h
      cases entry with
      | written bytes => simp [splitAt354, ih h.2]
      | accepted code =>
          have hcode : code ≠ 354 := by
            intro heq
            exact h.1 (heq ▸ rfl)
          rw [splitAt354, if_neg hcode, ih h.2]

variable (client : SmtpClient) (recipient message senderName : Text)

/-- What `send` writes before and after the 354 reply. -/
def written (replies : List (List Text)) : Option (Text × Text) :=
  splitAt354 ((client.send recipient message senderName).outcome ⟨replies, []⟩).2.log

/-- `QUIT` is written when the mail was accepted. -/
def closing (replies : List (List Text)) : Text :=
  if accepts [250] (replies.drop 7) then ("QUIT" : Text) ++ Lines.crlf else []

theorem splitAt354_opening (log : List Exchange) :
    splitAt354 (.accepted 220 :: (entries (client.greeting ++ envelope recipient) ++ log)) =
      some (client.openingBytes recipient, bytesOf log) := by
  rfl

/-- Without a 354 reply there are no bytes behind it; otherwise the mail and another line end are
written, and then `QUIT`, if the mail is accepted. -/
theorem written_eq (replies : List (List Text)) :
    client.written recipient message senderName replies =
      if accepts openingCodes replies then
        some (client.openingBytes recipient,
          client.emailData recipient message senderName ++ Lines.crlf ++ closing replies)
      else none := by
  have hcodes : accepts openingCodes replies =
      (accepts [220] replies &&
        accepts ((client.greeting ++ envelope recipient).map Prod.snd) replies.tail) :=
    accepts_cons 220 _ replies
  have hclosing : accepts [250] (replies.tail.drop (client.greeting ++ envelope recipient).length) =
      accepts [250] (replies.drop 7) := by
    cases replies with
    | nil => rfl
    | cons reply rest => rfl
  show Ends (client.send recipient message senderName) ⟨replies, []⟩ (fun _ s =>
    splitAt354 s.log = _)
  rw [hcodes]
  refine (readResponse_ends 220 _).bind ?_ ?_
  · intro _ s ⟨haccepts, hs⟩
    subst hs
    rw [haccepts, Bool.true_and]
    refine (exchanges_end _ _).bind ?_ ?_
    · intro _ s ⟨haccepts, hs⟩
      subst hs
      rw [if_pos haccepts]
      refine (exchange_ends _ _).bind ?_ ?_
      · intro _ s ⟨haccepts, hs⟩
        subst hs
        have hquit : closing replies = ("QUIT" : Text) ++ Lines.crlf :=
          if_pos (hclosing.symm.trans haccepts)
        refine ends_modify ?_
        simp only [List.nil_append, List.cons_append, List.append_assoc]
        rw [splitAt354_opening, hquit]
        simp [entries, bytesOf]
      · intro _ s ⟨haccepts, hs⟩
        subst hs
        have hquit : closing replies = [] :=
          if_neg (by rw [← hclosing]; exact Bool.eq_false_iff.mp haccepts)
        simp only [List.nil_append, List.cons_append, List.append_assoc]
        rw [splitAt354_opening, hquit]
        simp [bytesOf]
    · intro _ s ⟨haccepts, hnone⟩
      dsimp only at haccepts
      rw [haccepts, if_neg Bool.false_ne_true]
      -- 354 is the code of the last of these steps, so it was not logged
      refine splitAt354_of_not_mem (hnone 354 ?_ ?_)
      · show 354 ∉ [250, 334, 235, 250, 250]
        decide
      · simp
  · intro _ s ⟨haccepts, hs⟩
    dsimp only at haccepts
    rw [hs, haccepts, Bool.false_and, if_neg Bool.false_ne_true]
    rfl

/-! ## What the server reads -/

/-- The mail, a dot in a line of its own, and another line end. -/
theorem stream_eq (replies : List (List Text)) :
    client.emailData recipient message senderName ++ Lines.crlf ++ closing replies =
      client.header recipient senderName ++ message ++ Lines.crlf ++
        '.' :: (Lines.crlf ++ (Lines.crlf ++ closing replies)) := by
  simp [emailData]

variable {client recipient message senderName}

/-- The message arrives as it was given exactly when no line of the mail begins with a dot. -/
theorem decoded_iff {replies : List (List Text)} {before after : Text}
    (h : client.written recipient message senderName replies = some (before, after)) :
    Lines.decoded after = client.header recipient senderName ++ message ++ Lines.crlf ↔
      ∀ line ∈ Lines.lines (client.header recipient senderName ++ message ++ Lines.crlf),
        ¬ Lines.Dotted line := by
  rw [written_eq, Option.ite_none_right_eq_some] at h
  obtain ⟨-, h⟩ := h
  cases h
  rw [stream_eq]
  exact Lines.decoded_eq_iff (Lines.ended_crlf _) _

/-- Something else than `QUIT` stands behind the data. -/
theorem beyond_ne {replies : List (List Text)} {before after : Text}
    (h : client.written recipient message senderName replies = some (before, after)) :
    Lines.beyond after ≠ ("QUIT" : Text) ++ Lines.crlf := by
  rw [written_eq, Option.ite_none_right_eq_some] at h
  obtain ⟨-, h⟩ := h
  cases h
  rw [stream_eq]
  obtain ⟨between, hended, hbeyond⟩ := Lines.beyond_append
    (Lines.ended_crlf (client.header recipient senderName ++ message))
    (Lines.crlf ++ closing replies)
  -- a text that has ended and the second line end stand there, before `QUIT` if that was written
  rw [hbeyond, closing]
  split
  · intro heq
    have hlength := congrArg List.length heq
    simp only [List.length_append] at hlength
    have hcrlf : Lines.crlf.length = 2 := rfl
    omega
  · intro heq
    rw [List.append_nil] at heq
    rw [List.append_cancel_right heq] at hended
    exact absurd hended (by decide)

theorem bytesOf_entries (steps : List (Text × Int)) :
    bytesOf (entries steps) = Lines.unlines (steps.map Prod.fst) := by
  induction steps with
  | nil => rfl
  | cons step rest ih =>
      show step.1 ++ Lines.crlf ++ bytesOf (entries rest) = _
      rw [ih]
      rfl

/-- A server that accepts everything. -/
def willing : List (List Text) :=
  ["220 ready", "250 ok", "334 go on", "235 ok", "250 ok", "250 ok", "354 go on", "250 ok"].map
    fun line => [line.toList]

end SmtpClient

end Brazier
