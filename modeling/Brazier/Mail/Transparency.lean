import Brazier.Mail.Dialogue

/-!
# What the server reads of a session

A server reads what `SmtpClient::send` writes as commands, one a line, until it sends the 354 reply,
then as the data of the mail, and behind the data as commands again. `sessionLog_eq` says how far a
session gets, and `transparent_iff` when all that was written is read as it was meant: the mail as
data, and no part of the arguments as a command.
-/

namespace Brazier

open ProofLib

namespace SmtpClient

/-- How many of the codes are accepted, one after the other. -/
def acceptedCount : List Int → List (List Text) → Nat
  | [], _ => 0
  | code :: codes, replies =>
      if accepts [code] replies then acceptedCount codes replies.tail + 1 else 0

/-- The log of a session. -/
def sessionLog (client : SmtpClient) (recipient message senderName : Text)
    (replies : List (List Text)) : List Exchange :=
  ((client.send recipient message senderName).outcome ⟨replies, []⟩).2.log

/-- What is exchanged before the 354 reply, or at all if there is none. -/
def opening (log : List Exchange) : List Exchange :=
  log.takeWhile fun entry => entry ≠ .accepted 354

/-- The lines that were written. -/
def writtenLines (log : List Exchange) : List Text :=
  log.filterMap fun
    | .written bytes => some bytes
    | .accepted _ => none

/-- The lines that the server reads as commands: those in front of the data of the mail, and those
behind them. -/
def commandLines (log : List Exchange) : List Text :=
  Lines.lines (bytesOf (opening log)) ++
    match splitAt354 log with
    | none => []
    | some (_, after) => Lines.lines (Lines.beyond after)

/-- The first commands as they are meant: the lines of those that are made of the settings, and one
line for each of those behind them. -/
def commandsMeant (client : SmtpClient) (recipient : Text) (count : Nat) : List Text :=
  Lines.lines (Lines.unlines ((client.greeting.take count).map Prod.fst)) ++
    ((envelope recipient).take (count - client.greeting.length)).map Prod.fst

/-- What a session should look like to the server: if there was a 354 reply, the data are the fields
and the message, whose last line ends with the line end of the terminator, and behind the data there
is `QUIT`; and however far the session gets, what is written before that is read as the commands
that are meant. -/
structure Transparent (client : SmtpClient) (recipient message senderName : Text)
    (log : List Exchange) : Prop where
  content : ∀ before after, splitAt354 log = some (before, after) →
    Lines.decoded after = client.header recipient senderName ++ message ++ Lines.crlf
  rest : ∀ before after, splitAt354 log = some (before, after) →
    Lines.beyond after = ("QUIT" : Text) ++ Lines.crlf
  commands : Lines.lines (bytesOf (opening log)) =
    client.commandsMeant recipient (writtenLines (opening log)).length

/-! ## How far a session gets -/

theorem accepts_take_iff (codes : List Int) {n : Nat} (hn : n ≤ codes.length)
    (replies : List (List Text)) :
    accepts (codes.take n) replies = true ↔ n ≤ acceptedCount codes replies := by
  induction codes generalizing n replies with
  | nil =>
      obtain rfl : n = 0 := Nat.le_zero.mp hn
      exact iff_of_true rfl (Nat.zero_le _)
  | cons code codes ih =>
      cases n with
      | zero => exact iff_of_true rfl (Nat.zero_le _)
      | succ n =>
          rw [List.take_succ_cons, accepts_cons, Bool.and_eq_true,
            ih (Nat.le_of_succ_le_succ hn), acceptedCount]
          split
          · next hfirst => simp [hfirst]
          · next hfirst => simp [hfirst]

/-- The steps in front of the first reply that is not accepted are in the log, and the line that it
was the reply to. -/
theorem exchanges_log (steps : List (Text × Int)) (s : SmtpSession) :
    Ends (steps.forM exchange) s (fun r s' =>
      s'.log = s.log ++
        (entries steps).take (2 * acceptedCount (steps.map Prod.snd) s.replies + 1) ∧
      (r = .ok () → s'.replies = s.replies.drop steps.length ∧
        acceptedCount (steps.map Prod.snd) s.replies = steps.length) ∧
      (r ≠ .ok () → acceptedCount (steps.map Prod.snd) s.replies < steps.length)) := by
  induction steps generalizing s with
  | nil => exact ends_pure ⟨by simp [entries], fun _ => ⟨rfl, rfl⟩, fun h => absurd rfl h⟩
  | cons step rest ih =>
      show Ends (exchange step >>= fun _ => rest.forM exchange) s _
      refine (exchange_ends step s).bind ?_ ?_
      · rintro _ s₁ ⟨haccepts, rfl⟩
        have hcount : acceptedCount ((step :: rest).map Prod.snd) s.replies =
            acceptedCount (rest.map Prod.snd) s.replies.tail + 1 := if_pos haccepts
        refine (ih _).imp ?_
        rintro r s' ⟨hlog, hok, herror⟩
        rw [hcount]
        refine ⟨?_, fun hr => ?_, fun hr => Nat.succ_lt_succ (herror hr)⟩
        · rw [hlog, Nat.mul_add, Nat.add_right_comm, take_entries_cons, List.append_assoc]
        · obtain ⟨hreplies, hall⟩ := hok hr
          refine ⟨?_, congrArg Nat.succ hall⟩
          rw [hreplies, List.length_cons, List.drop_tail]
      · rintro e s' ⟨haccepts, rfl⟩
        have hcount : acceptedCount ((step :: rest).map Prod.snd) s.replies = 0 :=
          if_neg (Bool.eq_false_iff.mp haccepts)
        rw [hcount]
        refine ⟨rfl, fun hr => ?_, fun _ => Nat.succ_pos _⟩
        cases hr

variable (client : SmtpClient) (recipient message senderName : Text)

/-- The log of a session is the transcript, up to the line behind the last reply that was
accepted. -/
theorem sessionLog_eq (replies : List (List Text)) :
    client.sessionLog recipient message senderName replies =
      (client.transcript recipient message senderName).take
        (2 * acceptedCount sendCodes replies) := by
  have hcons : acceptedCount sendCodes replies = if accepts [220] replies then
      acceptedCount ((client.steps recipient message senderName).map Prod.snd) replies.tail + 1
    else 0 := rfl
  have hsend : client.send recipient message senderName = (do
      readResponse 220
      (client.steps recipient message senderName).forM exchange
      writeLine ("QUIT" : Text)) := by
    simp [send, steps, List.forM_append, bind_assoc]
  show Ends (client.send recipient message senderName) ⟨replies, []⟩ (fun _ s => s.log = _)
  rw [hcons, hsend]
  refine (readResponse_ends 220 _).bind ?_ ?_
  · rintro _ s ⟨hfirst, rfl⟩
    dsimp only at hfirst
    rw [hfirst, if_pos rfl]
    refine (exchanges_log _ _).bind ?_ ?_
    · rintro _ s ⟨hlog, hok, -⟩
      obtain ⟨-, hall⟩ := hok rfl
      dsimp only at hlog hall
      rw [hall] at hlog ⊢
      refine ends_modify ?_
      rw [hlog]
      rfl
    · rintro e s ⟨hlog, -, herror⟩
      have hlt := herror (by simp)
      dsimp only at hlog hlt
      have hseven : (client.steps recipient message senderName).length = 7 := rfl
      rw [hlog, Nat.mul_add, take_transcript client recipient message senderName (by omega)]
      rfl
  · rintro e s ⟨hfirst, rfl⟩
    dsimp only at hfirst
    rw [hfirst, if_neg Bool.false_ne_true]
    rfl

/-- There is a 354 reply when the seven codes up to it are accepted. -/
theorem splitAt354_sessionLog (replies : List (List Text)) :
    splitAt354 (client.sessionLog recipient message senderName replies) =
      if openingCodes.length ≤ acceptedCount sendCodes replies then
        some (client.openingBytes recipient,
          client.emailData recipient message senderName ++ Lines.crlf ++ closing replies)
      else none := by
  have haccepts : accepts openingCodes replies = true ↔
      openingCodes.length ≤ acceptedCount sendCodes replies :=
    accepts_take_iff sendCodes (n := 7) (by decide) replies
  have hwritten := client.written_eq recipient message senderName replies
  simp only [haccepts] at hwritten
  exact hwritten

/-- The bytes of some steps, the last of which waits for its reply. -/
theorem bytesOf_take_entries (steps : List (Text × Int)) (k : Nat) :
    bytesOf ((entries steps).take (2 * k + 1)) =
      Lines.unlines ((steps.take (k + 1)).map Prod.fst) := by
  induction steps generalizing k with
  | nil => rfl
  | cons step rest ih =>
      cases k with
      | zero => rfl
      | succ k =>
          rw [Nat.mul_add, Nat.add_right_comm, take_entries_cons, List.take_succ_cons,
            List.map_cons, Lines.unlines_cons, ← ih]
          rfl

/-- And their lines. -/
theorem length_writtenLines_take_entries (steps : List (Text × Int)) (k : Nat) :
    (writtenLines ((entries steps).take (2 * k + 1))).length = (steps.take (k + 1)).length := by
  induction steps generalizing k with
  | nil => rfl
  | cons step rest ih =>
      cases k with
      | zero => rfl
      | succ k =>
          rw [Nat.mul_add, Nat.add_right_comm, take_entries_cons, List.take_succ_cons,
            List.length_cons, ← ih]
          rfl

/-- Without a 354 reply the whole log is the opening. -/
theorem opening_eq_self {log : List Exchange} (h : splitAt354 log = none) : opening log = log := by
  refine List.takeWhile_eq_self_iff.mpr fun entry hentry => decide_eq_true fun heq => ?_
  subst heq
  induction log with
  | nil => cases hentry
  | cons entry rest ih =>
      cases entry with
      | written bytes =>
          rw [splitAt354, Option.map_eq_none_iff] at h
          exact ih h (by simpa using hentry)
      | accepted code =>
          rw [splitAt354] at h
          split at h
          · cases h
          · next hcode =>
              obtain heq | hrest := List.mem_cons.mp hentry
              · exact hcode (Exchange.accepted.inj heq).symm
              · exact ih h hrest

/-- What was written before the 354 reply are the bytes of the opening. -/
theorem before_eq {log : List Exchange} {before after : Text}
    (h : splitAt354 log = some (before, after)) : before = bytesOf (opening log) := by
  induction log generalizing before with
  | nil => cases h
  | cons entry rest ih =>
      cases entry with
      | written bytes =>
          rw [splitAt354, Option.map_eq_some_iff] at h
          obtain ⟨⟨front, behind⟩, hrest, heq⟩ := h
          cases heq
          rw [ih hrest]
          rfl
      | accepted code =>
          rw [splitAt354] at h
          split at h
          · next hcode =>
              cases h
              subst hcode
              rfl
          · next hcode =>
              have hopening : opening (.accepted code :: rest) = .accepted code :: opening rest :=
                List.takeWhile_cons_of_pos
                  (decide_eq_true fun heq => hcode (Exchange.accepted.inj heq))
              rw [hopening, ih h]
              rfl

/-- A session in which the 354 reply was not accepted: the commands that were written. -/
theorem opening_sessionLog {replies : List (List Text)}
    (h : acceptedCount sendCodes replies < openingCodes.length) :
    bytesOf (opening (client.sessionLog recipient message senderName replies)) =
        Lines.unlines (((client.greeting ++ envelope recipient).take
          (acceptedCount sendCodes replies)).map Prod.fst) ∧
      (writtenLines (opening (client.sessionLog recipient message senderName replies))).length =
        acceptedCount sendCodes replies := by
  have hnone : splitAt354 (client.sessionLog recipient message senderName replies) = none := by
    rw [splitAt354_sessionLog, if_neg (Nat.not_le.mpr h)]
  rw [opening_eq_self hnone, sessionLog_eq]
  have hlength : openingCodes.length = 7 := rfl
  rw [hlength] at h
  cases hcount : acceptedCount sendCodes replies with
  | zero => exact ⟨rfl, rfl⟩
  | succ k =>
      have hsteps : (client.steps recipient message senderName).take (k + 1) =
          (client.greeting ++ envelope recipient).take (k + 1) := by
        refine List.take_append_of_le_length ?_
        show k + 1 ≤ 6
        omega
      rw [Nat.mul_add, take_transcript client recipient message senderName (by omega)]
      constructor
      · rw [← hsteps, ← bytesOf_take_entries]
        rfl
      · refine (length_writtenLines_take_entries _ k).trans ?_
        rw [hsteps, List.length_take]
        show min (k + 1) 6 = k + 1
        omega

/-! ## What the server reads -/

/-- The recipient is in the fifth command. -/
theorem commandsMeant_iff {count : Nat} (hcount : count ≤ 6) :
    Lines.lines (Lines.unlines (((client.greeting ++ envelope recipient).take count).map
        Prod.fst)) = client.commandsMeant recipient count ↔
      (5 ≤ count → Lines.Unbroken recipient) := by
  have hrcpt : Lines.Unbroken (("RCPT TO:<" : Text) ++ recipient ++ (">" : Text)) ↔
      Lines.Unbroken recipient := by
    rw [List.append_assoc, Lines.unbroken_append (by decide)]
    exact Lines.unbroken_concat (by decide)
  have hdata : Lines.Unbroken ("DATA" : Text) := by decide
  have hfour : client.greeting.length = 4 := rfl
  rw [commandsMeant, List.take_append, List.map_append, Lines.unlines_append,
    Lines.lines_append (Lines.ended_unlines _), List.append_cancel_left_eq,
    Lines.lines_unlines_iff, hfour, List.map_take]
  rw [← hrcpt]
  show (∀ line ∈ List.take (count - 4) [_, ("DATA" : Text)], Lines.Unbroken line) ↔ _
  obtain hle | rfl | rfl : count ≤ 4 ∨ count = 5 ∨ count = 6 := by omega
  · rw [Nat.sub_eq_zero_of_le hle]
    exact iff_of_true (List.forall_mem_nil _) fun h => absurd h (by omega)
  · rw [imp_iff_right le_rfl]
    exact List.forall_mem_singleton
  · rw [imp_iff_right (by omega)]
    show (∀ line ∈ [_, ("DATA" : Text)], Lines.Unbroken line) ↔ _
    rw [List.forall_mem_cons, List.forall_mem_singleton, and_iff_left hdata]

/-- No session in which the mail is written is transparent, because of what stands behind the data;
and of the others those are in which no recipient with a line end was written. -/
theorem transparent_iff (replies : List (List Text)) :
    Transparent client recipient message senderName
        (client.sessionLog recipient message senderName replies) ↔
      accepts openingCodes replies = false ∧
        (accepts (openingCodes.take 5) replies = true → Lines.Unbroken recipient) := by
  have hsplit := client.splitAt354_sessionLog recipient message senderName replies
  have hseven : accepts openingCodes replies = true ↔
      openingCodes.length ≤ acceptedCount sendCodes replies :=
    accepts_take_iff sendCodes (n := 7) (by decide) replies
  have hfive : accepts (openingCodes.take 5) replies = true ↔
      5 ≤ acceptedCount sendCodes replies :=
    accepts_take_iff sendCodes (n := 5) (by decide) replies
  rw [← Bool.not_eq_true, hseven, hfive]
  by_cases hall : openingCodes.length ≤ acceptedCount sendCodes replies
  · rw [if_pos hall] at hsplit
    refine iff_of_false (fun h => ?_) fun h => h.1 hall
    exact beyond_ne hsplit (h.rest _ _ hsplit)
  · have hlt := Nat.lt_of_not_le hall
    rw [if_neg hall] at hsplit
    obtain ⟨hbytes, hcount⟩ := client.opening_sessionLog recipient message senderName hlt
    rw [and_iff_right hall, ← client.commandsMeant_iff recipient (Nat.le_of_lt_succ hlt)]
    constructor
    · intro h
      have hmeant := h.commands
      rwa [hbytes, hcount] at hmeant
    · intro h
      refine ⟨fun before after hwritten => ?_, fun before after hwritten => ?_, ?_⟩
      · rw [hsplit] at hwritten
        cases hwritten
      · rw [hsplit] at hwritten
        cases hwritten
      · rw [hbytes, hcount]
        exact h

/-- A client whose user has a short name. -/
def sender : SmtpClient where
  host := ['h']
  username := ['u', '@', 'h']
  password := ['p']
  base64Encode := id

/-- A message with a line that is a dot, and a command behind it. -/
def forged : Text := ("Hi" : Text) ++ Lines.crlf ++ ['.'] ++ Lines.crlf ++ ("VRFY root" : Text)

/-- A recipient with a line end, and a command behind it. -/
def smuggled : Text := ("r>" : Text) ++ Lines.crlf ++ ("VRFY root" : Text)

/-- A server that accepts every step but the recipient. -/
def choosy : List (List Text) := willing.take 5 ++ [[("550 no such user" : Text)]]

/-- The end of the message is read as commands; and so is a part of the recipient, also where the
server does not take it. -/
theorem forged_command :
    ¬ Transparent sender ['r'] forged [] (sender.sessionLog ['r'] forged [] willing) ∧
      (commandLines (sender.sessionLog ['r'] forged [] willing)).drop 4 =
        [("RCPT TO:<r>" : Text), ("DATA" : Text), ("VRFY root" : Text), ['.'], [],
          ("QUIT" : Text)] ∧
      ¬ Transparent sender smuggled [] [] (sender.sessionLog smuggled [] [] choosy) ∧
      (commandLines (sender.sessionLog smuggled [] [] choosy)).drop 4 =
        [("RCPT TO:<r>" : Text), ("VRFY root>" : Text)] := by
  have haccepts : accepts openingCodes willing = true := by decide
  have hrefuses : accepts openingCodes choosy = false := by decide
  have hfive : accepts (openingCodes.take 5) choosy = true := by decide
  have hbroken : ¬ Lines.Unbroken smuggled := by decide
  refine ⟨fun h => ?_, by decide +kernel, fun h => ?_, by decide +kernel⟩
  · have hno := ((sender.transparent_iff ['r'] forged [] willing).mp h).1
    rw [haccepts] at hno
    cases hno
  · exact hbroken (((sender.transparent_iff smuggled [] [] choosy).mp h).2 hfive)

end SmtpClient

end Brazier
