import Brazier.Mail.Masking
import Mathlib.Tactic.IntervalCases

/-!
# The dialogue with the server

`SmtpClient::send` with its error path, over a connection that may be closed at any time: a reply
may break off, and a line may fail to be written. `transcript` is the dialogue as it should go.
`send_safe` says that the log of a session is always a beginning of it, which stops with the first
reply that is not the one that was waited for, and when 0 is returned.
-/

namespace Brazier

open ProofLib

namespace SmtpClient

/-! ## Replies -/

/-- A line that ends a reply: its fourth character is a space. -/
def isFinal (line : Text) : Bool := (line.drop 3).head? = some ' '

/-- The code of the last line of a reply, if it has one with a number. -/
def finalCode (reply : List Text) : Option Int :=
  ((reply.map popReturn).find? isFinal).bind fun line => (stoi (line.take 3)).toOption

/-- A line that is long enough for a code, and begins with a number. -/
def Numbered (line : Text) : Prop := 3 ≤ line.length ∧ (stoi (line.take 3)).isOk = true

instance (line : Text) : Decidable (Numbered line) := inferInstanceAs (Decidable (_ ∧ _))

/-- The lines in front of the last one are numbered. -/
def FrontNumbered (reply : List Text) : Prop :=
  ∀ line ∈ (reply.map popReturn).takeWhile fun line => !isFinal line, Numbered line

instance (reply : List Text) : Decidable (FrontNumbered reply) :=
  inferInstanceAs (Decidable (∀ line ∈ _, Numbered line))

/-- A reply is accepted exactly when its last line has the code, and the others are numbered. -/
theorem scanReply_isOk_iff (expected : Int) (reply : List Text) :
    (scanReply expected reply).isOk = true ↔
      finalCode reply = some expected ∧ FrontNumbered reply := by
  induction reply with
  | nil => simp [scanReply, finalCode, Except.isOk, Except.toBool]
  | cons read rest ih =>
      unfold finalCode FrontNumbered at ih ⊢
      rw [scanReply, List.map_cons]
      generalize popReturn read = line
      cases hfinal : isFinal line with
      | true =>
          have hspace : (line.drop 3).head? = some ' ' := by simpa [isFinal] using hfinal
          have hlength : ¬ line.length < 3 := by
            intro hlt
            rw [List.drop_eq_nil_of_le (by omega)] at hspace
            cases hspace
          rw [List.find?_cons_of_pos hfinal, List.takeWhile_cons_of_neg (by simp [hfinal]),
            if_neg hlength, Option.bind_some]
          cases stoi (line.take 3) with
          | error e => simp [Except.isOk, Except.toBool, Except.toOption]
          | ok code =>
              dsimp only
              rw [if_pos hspace]
              by_cases hcode : code = expected
              · simp [hcode, Except.isOk, Except.toBool, Except.toOption]
              · simp [hcode, Except.isOk, Except.toBool, Except.toOption]
      | false =>
          have hspace : ¬ (line.drop 3).head? = some ' ' := by simpa [isFinal] using hfinal
          rw [List.find?_cons_of_neg (by simp [hfinal]),
            List.takeWhile_cons_of_pos (by simp [hfinal]), List.forall_mem_cons]
          rcases Nat.lt_or_ge line.length 3 with hshort | hlong
          · rw [if_pos hshort]
            refine iff_of_false (by simp [Except.isOk, Except.toBool]) fun h => ?_
            exact absurd h.2.1.1 (by omega)
          · have hnumbered : Numbered line ↔ (stoi (line.take 3)).isOk = true :=
              and_iff_right hlong
            rw [if_neg (Nat.not_lt.mpr hlong), hnumbered]
            cases stoi (line.take 3) with
            | error e => simp [Except.isOk, Except.toBool]
            | ok code =>
                dsimp only
                rw [if_neg hspace, ih]
                simp [Except.isOk, Except.toBool]

/-- Every reply is the one that its code waits for. -/
theorem accepts_iff {codes : List Int} {replies : List (List Text)} :
    accepts codes replies = true ↔
      ∀ i < codes.length, finalCode (replies.getD i []) = codes[i]? ∧
        FrontNumbered (replies.getD i []) := by
  induction codes generalizing replies with
  | nil => simp [accepts]
  | cons code codes ih =>
      rw [accepts, Bool.and_eq_true, scanReply_isOk_iff, ih]
      have hhead : replies.headD [] = replies.getD 0 [] := by cases replies <;> rfl
      have htail : ∀ i, replies.tail.getD i [] = replies.getD (i + 1) [] := by
        intro i
        cases replies <;> rfl
      simp only [hhead, htail]
      constructor
      · rintro ⟨hfirst, hrest⟩ i hi
        cases i with
        | zero => exact hfirst
        | succ i => exact hrest i (Nat.lt_of_succ_lt_succ hi)
      · intro h
        exact ⟨h 0 (Nat.succ_pos _), fun i hi => h (i + 1) (Nat.succ_lt_succ hi)⟩

/-! ## Sending over a connection that may break -/

/-- What becomes of the next line, after some exchanges: it is written, or `async_write` throws. -/
abbrev Network := List Exchange → Option Text

/-- `write_line`. A line may have been written in part when the connection breaks, so it is in the
log. -/
def writeLineOver (network : Network) (line : Text) : Action Unit := do
  let s ← get
  modify fun s => { s with log := s.log ++ [.written (line ++ Lines.crlf)] }
  match network s.log with
  | some what => throw what
  | none => pure ()

/-- A line, and the reply to it. -/
def exchangeOver (network : Network) (step : Text × Int) : Action Unit := do
  writeLineOver network step.1
  readResponse step.2

/-- The `try` block of `send`, from the first reply on. -/
def sendOver (network : Network) (client : SmtpClient) (recipient message senderName : Text) :
    Action Unit := do
  readResponse 220
  (client.greeting ++ envelope recipient).forM (exchangeOver network)
  exchangeOver network (client.emailData recipient message senderName, 250)
  writeLineOver network ("QUIT" : Text)

/-- What a call of `send` leaves: its result, the session, and the text that was logged. -/
structure SendResult where
  code : Int
  session : SmtpSession
  logged : Option Text

/-- `send`, with its error path. The fuel is for the two loops there. -/
def sendMail (network : Network) (client : SmtpClient) (recipient message senderName : Text)
    (replies : List (List Text)) (fuel : Nat) : Option SendResult :=
  match (client.sendOver network recipient message senderName).outcome ⟨replies, []⟩ with
  | (.ok (), s) => some ⟨0, s, none⟩
  | (.error what, s) => (client.errorText fuel what).map fun text => ⟨-1, s, some text⟩

/-- A connection that does not break. -/
def unbroken : Network := fun _ => none

theorem sendOver_unbroken (client : SmtpClient) (recipient message senderName : Text) :
    client.sendOver unbroken recipient message senderName =
      client.send recipient message senderName := rfl

/-! ## The dialogue as it should go -/

/-- The line with the credentials. -/
def credentialsLine (client : SmtpClient) : Text :=
  client.base64Encode ('\x00' :: (client.username ++ '\x00' :: client.password)) ++ Lines.crlf

/-- The lines with the replies that they wait for. -/
def steps (client : SmtpClient) (recipient message senderName : Text) : List (Text × Int) :=
  client.greeting ++ envelope recipient ++ [(client.emailData recipient message senderName, 250)]

/-- The codes that are waited for. -/
def sendCodes : List Int := openingCodes ++ [250]

/-- Everything that is exchanged. -/
def transcript (client : SmtpClient) (recipient message senderName : Text) : List Exchange :=
  .accepted 220 :: (entries (client.steps recipient message senderName) ++
    [.written (("QUIT" : Text) ++ Lines.crlf)])

/-- The codes that were accepted. -/
def acceptedCodes (log : List Exchange) : List Int :=
  log.filterMap fun
    | .written _ => none
    | .accepted code => some code

/-- What holds when `send` has returned. -/
structure SafeDialogue (network : Network) (client : SmtpClient)
    (recipient message senderName : Text) (replies : List (List Text)) (result : SendResult) :
    Prop where
  inOrder : result.session.log <+: client.transcript recipient message senderName
  credentials : ∀ before after,
    result.session.log = before ++ .written client.credentialsLine :: after →
      [220, 250, 334] <+: acceptedCodes before
  mail : ∀ before after,
    result.session.log =
        before ++ .written (client.emailData recipient message senderName ++ Lines.crlf) :: after →
      openingCodes <+: acceptedCodes before
  stops : ∀ i < 8,
    ¬ (finalCode (replies.getD i []) = sendCodes[i]? ∧ FrontNumbered (replies.getD i [])) →
    result.session.log <+: (client.transcript recipient message senderName).take (2 * i)
  code : result.code = 0 ∨ result.code = -1
  zero_iff : result.code = 0 ↔
    (∀ i < 8, finalCode (replies.getD i []) = sendCodes[i]? ∧ FrontNumbered (replies.getD i [])) ∧
      ∀ i < 8,
        network ((client.transcript recipient message senderName).take (2 * i + 1)) = none

/-! ## One line, and several -/

/-- A line is in the log whether it could be written or not. -/
theorem writeLineOver_ends (network : Network) (line : Text) (s : SmtpSession) :
    Ends (writeLineOver network line) s (fun r s' =>
      s' = ⟨s.replies, s.log ++ [.written (line ++ Lines.crlf)]⟩ ∧
        (r = .ok () ↔ network s.log = none)) := by
  refine ends_get_bind (ends_modify_bind ?_)
  cases network s.log with
  | none => exact ends_pure ⟨rfl, by simp⟩
  | some what => exact ends_throw ⟨rfl, by simp⟩

/-- The line was written and its reply accepted, or the line is the last one in the log. -/
theorem exchangeOver_ends (network : Network) (step : Text × Int) (s : SmtpSession) :
    Ends (exchangeOver network step) s (fun r s' =>
      match r with
      | .ok () => (network s.log = none ∧ accepts [step.2] s.replies = true) ∧
          s' = ⟨s.replies.tail, s.log ++ entries [step]⟩
      | .error _ => ¬ (network s.log = none ∧ accepts [step.2] s.replies = true) ∧
          s' = ⟨s.replies, s.log ++ [.written (step.1 ++ Lines.crlf)]⟩) := by
  refine (writeLineOver_ends network step.1 s).bind ?_ ?_
  · rintro _ s₁ ⟨rfl, hwritten⟩
    have hnone := hwritten.mp rfl
    refine (readResponse_ends step.2 _).imp ?_
    intro r s' h
    cases r with
    | ok _ =>
        refine ⟨⟨hnone, h.1⟩, h.2.trans ?_⟩
        simp [entries]
    | error e =>
        refine ⟨fun hboth => ?_, h.2⟩
        cases h.1.symm.trans hboth.2
  · rintro e s₁ ⟨hs₁, hwritten⟩
    refine ⟨fun hboth => ?_, hs₁⟩
    cases hwritten.mpr hboth.1

/-- Every line can be written, and every reply is accepted. -/
def Passes (network : Network) (steps : List (Text × Int)) (s : SmtpSession) : Prop :=
  accepts (steps.map Prod.snd) s.replies = true ∧
    ∀ i < steps.length, network (s.log ++ (entries steps).take (2 * i)) = none

theorem entries_cons (step : Text × Int) (rest : List (Text × Int)) :
    entries (step :: rest) = entries [step] ++ entries rest := rfl

theorem take_entries_cons (step : Text × Int) (rest : List (Text × Int)) (m : Nat) :
    (entries (step :: rest)).take (m + 2) = entries [step] ++ (entries rest).take m := rfl

theorem passes_cons (network : Network) (step : Text × Int) (rest : List (Text × Int))
    (s : SmtpSession) :
    Passes network (step :: rest) s ↔
      (network s.log = none ∧ accepts [step.2] s.replies = true) ∧
        Passes network rest ⟨s.replies.tail, s.log ++ entries [step]⟩ := by
  unfold Passes
  have hstart : s.log ++ (entries (step :: rest)).take (2 * 0) = s.log := by simp
  have hlater : ∀ i, s.log ++ (entries (step :: rest)).take (2 * (i + 1)) =
      s.log ++ entries [step] ++ (entries rest).take (2 * i) := by
    intro i
    rw [Nat.mul_add, take_entries_cons, List.append_assoc]
  rw [List.map_cons, accepts_cons, Bool.and_eq_true, List.length_cons]
  constructor
  · rintro ⟨⟨hfirst, hrest⟩, hnone⟩
    refine ⟨⟨?_, hfirst⟩, hrest, fun i hi => ?_⟩
    · rw [← hstart]
      exact hnone 0 (Nat.succ_pos _)
    · rw [← hlater]
      exact hnone (i + 1) (Nat.succ_lt_succ hi)
  · rintro ⟨⟨hnone, hfirst⟩, hrest, hnones⟩
    refine ⟨⟨hfirst, hrest⟩, fun i hi => ?_⟩
    cases i with
    | zero => rwa [hstart]
    | succ i =>
        rw [hlater]
        exact hnones i (Nat.lt_of_succ_lt_succ hi)

/-- Either all lines were written and all replies accepted, or the log stops somewhere; the replies
in it were accepted. -/
theorem exchangesOver_end (network : Network) (steps : List (Text × Int)) (s : SmtpSession) :
    Ends (steps.forM (exchangeOver network)) s (fun r s' =>
      match r with
      | .ok () => Passes network steps s ∧
          s' = ⟨s.replies.drop steps.length, s.log ++ entries steps⟩
      | .error _ => ¬ Passes network steps s ∧ ∃ m ≤ 2 * steps.length,
          s'.log = s.log ++ (entries steps).take m ∧
          accepts ((steps.map Prod.snd).take (m / 2)) s.replies = true) := by
  induction steps generalizing s with
  | nil => exact ends_pure ⟨⟨rfl, by simp⟩, by simp [entries]⟩
  | cons step rest ih =>
      show Ends (exchangeOver network step >>= fun _ => rest.forM (exchangeOver network)) s _
      refine (exchangeOver_ends network step s).bind ?_ ?_
      · rintro _ s₁ ⟨hstep, rfl⟩
        refine (ih _).imp ?_
        intro r s' h
        rw [passes_cons, and_iff_right hstep]
        cases r with
        | ok _ =>
            refine ⟨h.1, h.2.trans ?_⟩
            simp [entries]
        | error e =>
            obtain ⟨hfails, m, hm, hlog, haccepts⟩ := h
            refine ⟨hfails, m + 2, Nat.add_le_add_right hm 2, ?_, ?_⟩
            · rw [hlog, take_entries_cons, List.append_assoc]
            · rw [Nat.add_div_right m (by decide), List.map_cons, List.take_succ_cons, accepts_cons,
                hstep.2, haccepts]
              rfl
      · rintro e s₁ ⟨hstep, rfl⟩
        rw [passes_cons]
        refine ⟨fun h => hstep h.1, 1, ?_, rfl, rfl⟩
        rw [List.length_cons]
        omega

/-! ## The whole dialogue -/

variable (network : Network) (client : SmtpClient) (recipient message senderName : Text)

theorem sendOver_eq :
    client.sendOver network recipient message senderName = (do
      readResponse 220
      (client.steps recipient message senderName).forM (exchangeOver network)
      writeLineOver network ("QUIT" : Text)) := by
  simp [sendOver, steps, List.forM_append, bind_assoc]

theorem length_entries (steps : List (Text × Int)) : (entries steps).length = 2 * steps.length := by
  induction steps with
  | nil => rfl
  | cons step rest ih =>
      rw [entries_cons, List.length_append, ih, List.length_cons]
      show 2 + _ = _
      omega

/-- A beginning of the transcript that does not have `QUIT`. -/
theorem take_transcript {m : Nat} (hm : m ≤ 14) :
    (client.transcript recipient message senderName).take (m + 1) =
      [.accepted 220] ++ (entries (client.steps recipient message senderName)).take m := by
  have hlength : m ≤ (entries (client.steps recipient message senderName)).length := by
    rw [length_entries]
    exact hm
  rw [transcript, List.take_succ_cons, List.take_append_of_le_length hlength]
  rfl

/-- The log is a beginning of the transcript, of which all replies were accepted; and it is known
when nothing was thrown. -/
theorem sendOver_ends (replies : List (List Text)) :
    Ends (client.sendOver network recipient message senderName) ⟨replies, []⟩ (fun r s =>
      (∃ m, s.log = (client.transcript recipient message senderName).take m ∧
        accepts (sendCodes.take ((m + 1) / 2)) replies = true) ∧
      (r = .ok () ↔ accepts sendCodes replies = true ∧ ∀ i < 8,
        network ((client.transcript recipient message senderName).take (2 * i + 1)) = none)) := by
  have hcodes : accepts sendCodes replies = (accepts [220] replies &&
      accepts ((client.steps recipient message senderName).map Prod.snd) replies.tail) :=
    accepts_cons 220 _ replies
  rw [sendOver_eq]
  refine (readResponse_ends 220 _).bind ?_ ?_
  · rintro _ s ⟨hfirst, rfl⟩
    dsimp only at hfirst
    refine (exchangesOver_end network _ _).bind ?_ ?_
    · rintro _ s ⟨⟨haccepts, hnone⟩, rfl⟩
      refine (writeLineOver_ends network _ _).imp ?_
      rintro r s ⟨rfl, hquit⟩
      dsimp only [List.nil_append] at hquit haccepts hnone
      have hall : accepts sendCodes replies = true := by rw [hcodes, hfirst, haccepts]; rfl
      refine ⟨⟨16, ?_, hall⟩, ?_⟩
      · rfl
      · rw [hquit, and_iff_right hall]
        constructor
        · intro hlast i hi
          rw [take_transcript client recipient message senderName (by omega)]
          rcases Nat.lt_or_ge i 7 with hlt | hge
          · exact hnone i hlt
          · obtain rfl : i = 7 := by omega
            exact hlast
        · intro h
          have hlast := h 7 (by decide)
          rw [take_transcript client recipient message senderName (by decide)] at hlast
          exact hlast
    · rintro e s ⟨hfails, m, hm, hlog, haccepts⟩
      refine ⟨⟨m + 1, ?_, ?_⟩, ?_⟩
      · rw [take_transcript client recipient message senderName hm, hlog]
        rfl
      · have hhalf : (m + 1 + 1) / 2 = m / 2 + 1 := by omega
        rw [hhalf]
        show accepts (220 :: ((client.steps recipient message senderName).map Prod.snd).take _)
          replies = true
        rw [accepts_cons, hfirst]
        exact haccepts
      · refine iff_of_false (by simp) fun h => hfails ⟨?_, fun i hi => ?_⟩
        · have hall := h.1
          rw [hcodes, hfirst] at hall
          exact hall
        · have hi : i < 7 := hi
          have hwrite := h.2 i (by omega)
          rw [take_transcript client recipient message senderName (by omega)] at hwrite
          exact hwrite
  · rintro e s ⟨hfirst, rfl⟩
    refine ⟨⟨0, rfl, rfl⟩, iff_of_false (by simp) fun h => ?_⟩
    have hall := h.1
    dsimp only at hfirst
    rw [hcodes, hfirst] at hall
    cases hall

theorem acceptedCodes_take_entries (steps : List (Text × Int)) (m : Nat) :
    acceptedCodes ((entries steps).take m) = (steps.map Prod.snd).take (m / 2) := by
  induction steps generalizing m with
  | nil => simp [entries, acceptedCodes]
  | cons step rest ih =>
      rcases m with _ | _ | m
      · rfl
      · rfl
      · have hhalf : (m + 1 + 1) / 2 = m / 2 + 1 := by omega
        rw [take_entries_cons, hhalf, List.map_cons, List.take_succ_cons, ← ih]
        rfl

variable {network client recipient message senderName}

/-- In front of a line in the log as many codes were accepted as its place says. -/
theorem written_place {m : Nat} {before after : List Exchange} {bytes : Text}
    (h : (client.transcript recipient message senderName).take m =
      before ++ .written bytes :: after) :
    (client.transcript recipient message senderName)[before.length]? = some (.written bytes) ∧
      acceptedCodes before = sendCodes.take ((before.length + 1) / 2) := by
  have hlength : (client.transcript recipient message senderName).length = 16 := by
    rw [transcript, List.length_cons, List.length_append, length_entries]
    rfl
  have hplace := congrArg (fun log => log[before.length]?) h
  have hbefore := congrArg (List.take before.length) h
  have hlt := congrArg List.length h
  simp only [List.length_take, List.length_append, List.length_cons, hlength] at hlt
  simp only [List.getElem?_append_right (le_refl _), Nat.sub_self, List.getElem?_cons_zero,
    List.getElem?_take_of_lt (show before.length < m by omega)] at hplace
  refine ⟨hplace, ?_⟩
  rw [List.take_take, Nat.min_eq_left (by omega), List.take_left] at hbefore
  have hcodes := (congrArg acceptedCodes hbefore).symm
  rw [hcodes]
  cases hcount : before.length with
  | zero => rfl
  | succ count =>
      have hhalf : (count + 1 + 1) / 2 = count / 2 + 1 := by omega
      have hfirst : ∀ log, acceptedCodes ([.accepted 220] ++ log) = 220 :: acceptedCodes log :=
        fun _ => rfl
      rw [take_transcript client recipient message senderName (by omega), hhalf, hfirst,
        acceptedCodes_take_entries]
      rfl

/-- The credentials stand behind the third code. -/
theorem credentials_place (hbase64 : ∀ text, ' ' ∉ client.base64Encode text) {place : Nat}
    (h : (client.transcript recipient message senderName)[place]? =
      some (.written client.credentialsLine)) : 5 ≤ place := by
  have hspace : ' ' ∉ client.credentialsLine := by
    simp [credentialsLine, hbase64, Lines.crlf]
  by_contra hlt
  have hplace : place < 5 := Nat.lt_of_not_le hlt
  interval_cases place
  · cases h
  · refine hspace ?_
    rw [← Exchange.written.inj (Option.some.inj h)]
    simp
  · cases h
  · refine hspace ?_
    rw [← Exchange.written.inj (Option.some.inj h)]
    decide
  · cases h

/-- The mail stands behind the seventh. -/
theorem mail_place (hbase64 : ∀ text, ' ' ∉ client.base64Encode text) {place : Nat}
    (h : (client.transcript recipient message senderName)[place]? =
      some (.written (client.emailData recipient message senderName ++ Lines.crlf))) :
    13 ≤ place := by
  obtain ⟨rest, hrest⟩ : ∃ rest, client.emailData recipient message senderName ++ Lines.crlf =
      ("From: " : Text) ++ rest := by
    unfold emailData header
    simp only [List.append_assoc]
    exact ⟨_, rfl⟩
  rw [hrest] at h
  have hspace : ' ' ∈ ("From: " : Text) ++ rest := List.mem_append_left rest (by decide)
  have hhead : ∀ line, some (Exchange.written line) = some (.written (("From: " : Text) ++ rest)) →
      line.head? = some 'F' := by
    intro line hline
    rw [Exchange.written.inj (Option.some.inj hline)]
    rfl
  by_contra hlt
  have hplace : place < 13 := Nat.lt_of_not_le hlt
  interval_cases place
  · cases h
  · cases hhead _ h
  · cases h
  · cases hhead _ h
  · cases h
  · rw [← Exchange.written.inj (Option.some.inj h)] at hspace
    simp [hbase64, Lines.crlf] at hspace
  · cases h
  · cases hhead _ h
  · cases h
  · cases hhead _ h
  · cases h
  · cases hhead _ h
  · cases h

/-- The log of a session is in order, and the two lines that matter stand where they should. -/
theorem safe_log (hbase64 : ∀ text, ' ' ∉ client.base64Encode text) {m : Nat}
    {before after : List Exchange} :
    ((client.transcript recipient message senderName).take m =
        before ++ .written client.credentialsLine :: after →
      [220, 250, 334] <+: acceptedCodes before) ∧
    ((client.transcript recipient message senderName).take m =
        before ++ .written (client.emailData recipient message senderName ++ Lines.crlf) :: after →
      openingCodes <+: acceptedCodes before) := by
  constructor
  · intro h
    obtain ⟨hplace, hcodes⟩ := written_place h
    have hlate := credentials_place hbase64 hplace
    have htake : [220, 250, 334] = sendCodes.take 3 := rfl
    rw [hcodes, htake]
    exact List.take_prefix_take_left (by omega)
  · intro h
    obtain ⟨hplace, hcodes⟩ := written_place h
    have hlate := mail_place hbase64 hplace
    have htake : openingCodes = sendCodes.take 7 := rfl
    rw [hcodes, htake]
    exact List.take_prefix_take_left (by omega)

/-- A log whose replies were accepted stops in front of the first one that cannot be accepted. -/
theorem stops_of_accepts {replies : List (List Text)} {m i : Nat}
    (haccepts : accepts (sendCodes.take ((m + 1) / 2)) replies = true) (hi : i < 8)
    (hreply : ¬ (finalCode (replies.getD i []) = sendCodes[i]? ∧
      FrontNumbered (replies.getD i []))) : m ≤ 2 * i := by
  by_contra hlt
  have hplace : i < (sendCodes.take ((m + 1) / 2)).length := by
    rw [List.length_take]
    have hlength : sendCodes.length = 8 := rfl
    omega
  have hfinal := accepts_iff.mp haccepts i hplace
  rw [List.getElem?_take_of_lt (by omega)] at hfinal
  exact hreply hfinal

variable (network client recipient message senderName)

/-- The loops of the error path end when the user name and the password are long enough. -/
theorem errorText_ends (husername : 6 ≤ client.username.length)
    (hpassword : 6 ≤ client.password.length) (what : Text) :
    ∃ fuel text, client.errorText fuel what = some text := by
  rw [errorText_ends_iff]
  exact ⟨fun h => not_infix_stars (by omega) h.1, fun h => not_infix_stars (by omega) h.1⟩

/-- `send` returns, and the dialogue was safe: the credentials and the mail are written behind the
codes that allow it, nothing is written behind the first reply that has another code or cannot be
read, and 0 is returned exactly when all eight replies have their codes, no line in front of their
last ones is without a number, and every line could be written. -/
theorem send_safe (husername : 6 ≤ client.username.length)
    (hpassword : 6 ≤ client.password.length) (hbase64 : ∀ text, ' ' ∉ client.base64Encode text)
    (replies : List (List Text)) :
    (∃ fuel result,
        client.sendMail network recipient message senderName replies fuel = some result) ∧
      ∀ fuel result,
        client.sendMail network recipient message senderName replies fuel = some result →
          SafeDialogue network client recipient message senderName replies result := by
  have hends := client.sendOver_ends network recipient message senderName replies
  unfold Ends at hends
  unfold sendMail
  generalize (client.sendOver network recipient message senderName).outcome ⟨replies, []⟩ =
    outcome at hends
  obtain ⟨r, s⟩ := outcome
  obtain ⟨⟨m, hlog, haccepts⟩, hreturns⟩ := hends
  dsimp only at hlog hreturns
  have hzero : r = .ok () ↔
      (∀ i < 8, finalCode (replies.getD i []) = sendCodes[i]? ∧
        FrontNumbered (replies.getD i [])) ∧
      ∀ i < 8, network ((client.transcript recipient message senderName).take (2 * i + 1)) =
        none := by
    rw [hreturns, accepts_iff]
    rfl
  have hsafe : ∀ code logged, (code = 0 ↔ r = .ok ()) → code = 0 ∨ code = -1 →
      SafeDialogue network client recipient message senderName replies ⟨code, s, logged⟩ := by
    intro code logged hcode hvalues
    refine ⟨?_, ?_, ?_, ?_, hvalues, hcode.trans hzero⟩
    · exact hlog ▸ List.take_prefix m _
    · intro before after h
      exact (safe_log hbase64).1 (hlog.symm.trans h)
    · intro before after h
      exact (safe_log hbase64).2 (hlog.symm.trans h)
    · intro i hi hreply
      exact hlog ▸ List.take_prefix_take_left (stops_of_accepts haccepts hi hreply)
  cases r with
  | ok _ =>
      refine ⟨⟨0, _, rfl⟩, fun fuel result hresult => ?_⟩
      cases hresult
      exact hsafe 0 none (by simp) (by simp)
  | error what =>
      obtain ⟨fuel, text, htext⟩ := client.errorText_ends husername hpassword what
      refine ⟨⟨fuel, _, congrArg (Option.map _) htext⟩, fun fuel result hresult => ?_⟩
      obtain ⟨text, -, rfl⟩ := Option.map_eq_some_iff.mp hresult
      exact hsafe (-1) (some text) (by simp) (by simp)

/-- A client with a user name and a password, and what `base64_encode` makes of them. -/
def notifier : SmtpClient where
  host := ("example.com" : Text)
  username := ("username" : Text)
  password := ("password" : Text)
  base64Encode := fun _ => ("AHVzZXJuYW1lAHBhc3N3b3Jk" : Text)

/-- A mail to a server that accepts everything. -/
theorem send_safe_notifier :
    6 ≤ notifier.username.length ∧ 6 ≤ notifier.password.length ∧
      ∃ fuel result,
        notifier.sendMail unbroken "recipient@example.com" "Hi" [] willing fuel = some result ∧
          SafeDialogue unbroken notifier "recipient@example.com" "Hi" [] willing result := by
  have husername : 6 ≤ notifier.username.length := by decide
  have hpassword : 6 ≤ notifier.password.length := by decide
  have hbase64 : ∀ text, ' ' ∉ notifier.base64Encode text := by
    intro text
    show ' ' ∉ ("AHVzZXJuYW1lAHBhc3N3b3Jk" : Text)
    decide
  obtain ⟨⟨fuel, result, hresult⟩, hsafe⟩ := send_safe unbroken notifier "recipient@example.com"
    "Hi" [] husername hpassword hbase64 willing
  exact ⟨husername, hpassword, fuel, result, hresult, hsafe fuel result hresult⟩

/-- A server that greets with a line without a number in front of the one with the code. -/
def wordy : List (List Text) := ["abc-hello", "220 ready"] :: willing.tail

/-- A connection that is closed before `QUIT` is written. -/
def closedEarly : Network := fun log => if log.length < 15 then none else some "Broken pipe"

/-- The last lines of all replies have the right codes, and -1 is returned: because of the line in
front of one, or because `QUIT` cannot be written. -/
theorem right_codes_refused :
    (∀ i < 8, finalCode (wordy.getD i []) = sendCodes[i]?) ∧
      (notifier.sendMail unbroken "recipient@example.com" "Hi" [] wordy 1).map SendResult.code =
        some (-1) ∧
      (∀ i < 8, finalCode (willing.getD i []) = sendCodes[i]?) ∧
      (notifier.sendMail closedEarly "recipient@example.com" "Hi" [] willing 1).map
        SendResult.code = some (-1) := by
  refine ⟨by decide, by decide +kernel, by decide, by decide +kernel⟩

end SmtpClient

end Brazier
