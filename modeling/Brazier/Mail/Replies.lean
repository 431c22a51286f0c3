import Brazier.Mail.SmtpClient
import Brazier.ProofLib.Streams
import Mathlib.Data.Bool.AllAny

/-!
# Reading a reply

`SmtpClient::read_response` of `src/SmtpClient.cpp` on the bytes of the connection, in whatever
pieces they arrive. `readReply_step` is one round of its loop, and `consumed_iff` says which replies
it reads to their end and no further.
-/

namespace Brazier

open ProofLib

/-- How `read_response` ends: it returns, it throws, or it waits for a line that does not come. -/
inductive ReadEnd where
  | returned
  | threw (what : Text)
  | waits
  deriving DecidableEq

/-- A reply as RFC 5321 has it: some lines `ddd-text` and a line `ddd` or `ddd text`. -/
structure SmtpReply where
  digits : Text
  first : List Text
  last : Option Text
  digits_length : digits.length = 3
  isDigit : ∀ c ∈ digits, c.isDigit = true
  in_line : ∀ text ∈ first ++ last.toList, '\r' ∉ text ∧ '\n' ∉ text

namespace SmtpReply

/-- The code of a reply. -/
def code (reply : SmtpReply) : Int := SmtpClient.digitsValue reply.digits

/-- A line that another one follows. -/
def firstLine (reply : SmtpReply) (text : Text) : Text := reply.digits ++ '-' :: text

/-- The last line. -/
def lastLine (reply : SmtpReply) : Text :=
  match reply.last with
  | none => reply.digits
  | some text => reply.digits ++ ' ' :: text

/-- The bytes of a reply. -/
def bytes (reply : SmtpReply) : Text :=
  Lines.unlines (reply.first.map reply.firstLine ++ [reply.lastLine])

end SmtpReply

namespace SmtpClient

/-- `std::getline`: the line in front of the first line feed, and what is behind it. -/
def getline (buf : Text) : Text × Text := (cutAt '\n' buf).getD (buf, [])

/-- What the loop of `read_response` does with a line. It goes on unless the line ends it. -/
def checkLine (expected : Int) (read : Text) : Option (Except Text Unit) :=
  let line := popReturn read
  if line.length < 3 then some (.error (("Invalid SMTP response: " : Text) ++ line))
  else
    match stoi (line.take 3) with
    | .error e => some (.error e)
    | .ok code =>
        if (line.drop 3).head? = some ' ' then
          if code ≠ expected then
            some (.error (("SMTP Error: Expected " : Text) ++ intText expected ++
              (", got " : Text) ++ line))
          else some (.ok ())
        else none

/-- How it ends then. -/
def endOf : Except Text Unit → ReadEnd
  | .ok () => .returned
  | .error what => .threw what

/-- What `getline` leaves of a buffer is shorter. -/
theorem length_getline_lt {buf : Text} (hne : buf ≠ []) : (getline buf).2.length < buf.length := by
  unfold getline
  cases hcut : cutAt '\n' buf with
  | none => exact List.length_pos_of_ne_nil hne
  | some parts =>
      have htext : buf = parts.1 ++ '\n' :: parts.2 := eq_of_cutAt hcut
      have hlength := congrArg List.length htext
      simp only [List.length_append, List.length_cons] at hlength
      show parts.2.length < buf.length
      omega

/-- What is left of a stream after a line was taken. -/
def afterLine (s : Stream Char) : Stream Char := ⟨(getline s.buffer).2, s.reads⟩

/-- A line that was read takes something from the stream. -/
theorem length_afterLine_lt {s s' : Stream Char} (h : Stream.readUntil Lines.crlf s = some s') :
    (afterLine s').text.length < s.text.length := by
  obtain ⟨htext, hcrlf, -⟩ := Stream.readUntil_eq_some h
  have hne : s'.buffer ≠ [] := by
    intro hnil
    rw [hnil] at hcrlf
    exact absurd hcrlf (by decide)
  have hlt := length_getline_lt hne
  rw [← htext]
  simp only [Stream.text, afterLine, List.length_append]
  omega

/-- `read_response`: how it ends, and what is left of the stream. -/
def readReply (expected : Int) (s : Stream Char) : ReadEnd × Stream Char :=
  match _hread : Stream.readUntil Lines.crlf s with
  | none => (.waits, s)
  | some s' =>
      match checkLine expected (getline s'.buffer).1 with
      | some result => (endOf result, afterLine s')
      | none => readReply expected (afterLine s')
  termination_by s.text.length
  decreasing_by exact length_afterLine_lt _hread

/-- The loop over the lines of a reply, one line at a time. -/
theorem scanReply_cons (expected : Int) (read : Text) (rest : List Text) :
    scanReply expected (read :: rest) =
      (checkLine expected read).getD (scanReply expected rest) := by
  unfold checkLine
  rw [scanReply]
  dsimp only
  split
  · rfl
  · cases stoi ((popReturn read).take 3) with
    | error e => rfl
    | ok code =>
        dsimp only
        split
        · split <;> rfl
        · rfl

/-! ## One line -/

/-- A line with its line end, in whatever pieces it arrives. -/
theorem getline_of_append {buf more line : Text} {rest : Text} (hline : '\n' ∉ line)
    (htext : buf ++ more = line ++ Lines.crlf ++ rest) (hcrlf : Lines.crlf <:+: buf) :
    (getline buf).1 = line ++ ['\r'] ∧ (getline buf).2 ++ more = rest := by
  have hmem : '\n' ∈ buf := hcrlf.subset (by simp [Lines.crlf])
  have hfeed : '\n' ∉ line ++ ['\r'] := by simpa using hline
  unfold getline
  cases hcut : cutAt '\n' buf with
  | none => exact absurd hmem (cutAt_eq_none_iff.mp hcut)
  | some parts =>
      obtain ⟨front, behind⟩ := parts
      -- both are the cut of the whole text at its first line feed
      have hwhole : front ++ '\n' :: (behind ++ more) = line ++ ['\r'] ++ '\n' :: rest := by
        rw [eq_of_cutAt hcut] at htext
        simpa [Lines.crlf] using htext
      have hcuts := congrArg (cutAt '\n') hwhole
      rw [cutAt_append (not_mem_of_cutAt hcut), cutAt_append hfeed] at hcuts
      cases hcuts
      exact ⟨rfl, rfl⟩

variable {expected : Int} {s : Stream Char} {line rest : Text}

variable (expected) in
/-- One round of the loop: a line is taken, and it ends the loop or is followed by another round. -/
theorem readReply_step (hline : '\n' ∉ line) (htext : s.text = line ++ Lines.crlf ++ rest)
    (hreads : s.Delivers) (later : List Text) :
    ∃ s' : Stream Char, s'.text = rest ∧ s'.Delivers ∧
      readReply expected (s.followed later) =
        match checkLine expected (line ++ ['\r']) with
        | some result => (endOf result, s'.followed later)
        | none => readReply expected (s'.followed later) := by
  have hcrlf : Lines.crlf <:+: s.text := ⟨line, rest, htext.symm⟩
  obtain ⟨s₁, hread, hs₁, hfound, hsuffix⟩ := Stream.readUntil_append hcrlf later
  have hget := getline_of_append hline (hs₁.trans htext) hfound
  refine ⟨afterLine s₁, hget.2, fun h => hreads (hsuffix.subset h), ?_⟩
  rw [readReply, hread]
  dsimp only [Stream.followed]
  rw [hget.1]
  rfl

/-- Lines that do not end the loop are taken one after the other. -/
theorem readReply_skip {lines : List Text} (hlines : ∀ line ∈ lines, '\n' ∉ line)
    (hnone : ∀ line ∈ lines, checkLine expected (line ++ ['\r']) = none)
    (htext : s.text = Lines.unlines lines ++ rest) (hreads : s.Delivers) (later : List Text) :
    ∃ s' : Stream Char, s'.text = rest ∧ s'.Delivers ∧
      readReply expected (s.followed later) = readReply expected (s'.followed later) := by
  induction lines generalizing s with
  | nil => exact ⟨s, htext, hreads, rfl⟩
  | cons line lines ih =>
      rw [List.forall_mem_cons] at hlines hnone
      have hcons : s.text = line ++ Lines.crlf ++ (Lines.unlines lines ++ rest) := by
        rw [htext]
        simp [Lines.unlines]
      obtain ⟨s₁, hs₁, hreads₁, hstep⟩ := readReply_step expected hlines.1 hcons hreads later
      rw [hnone.1] at hstep
      obtain ⟨s', hs', hreads', hrun⟩ := ih hlines.2 hnone.2 hs₁ hreads₁
      exact ⟨s', hs', hreads', hstep.trans hrun⟩

/-- A reply that is read to its end takes something from the stream. -/
theorem readReply_takes (expected : Int) (s : Stream Char) :
    (readReply expected s).1 = .waits ∨
      (readReply expected s).2.text.length < s.text.length := by
  fun_induction readReply expected s with
  | case1 s hread => exact .inl rfl
  | case2 s s' hread result hcheck => exact .inr (length_afterLine_lt hread)
  | case3 s s' hread hcheck ih => exact ih.imp_right fun h => h.trans (length_afterLine_lt hread)

/-- On whole lines the loop ends as it does over the list of them, unless it waits for another. -/
theorem readReply_lines {lines : List Text} (hlines : ∀ line ∈ lines, '\n' ∉ line)
    (htext : s.text = Lines.unlines lines) (hreads : s.Delivers) :
    (readReply expected s).1 = .waits ∨
      (readReply expected s).1 =
        endOf (scanReply expected (lines.map (fun line => line ++ ['\r']))) := by
  induction lines generalizing s with
  | nil =>
      refine .inl ?_
      rw [Stream.eq_of_text_nil htext hreads]
      rw [readReply]
      rfl
  | cons line lines ih =>
      rw [List.forall_mem_cons] at hlines
      have hcons : s.text = line ++ Lines.crlf ++ Lines.unlines lines := by
        rw [htext]
        simp [Lines.unlines]
      obtain ⟨s', hs', hreads', hstep⟩ := readReply_step expected hlines.1 hcons hreads []
      have hfollowed : ∀ s : Stream Char, s.followed [] = s := by
        intro s
        simp [Stream.followed]
      rw [hfollowed, hfollowed] at hstep
      rw [hstep, List.map_cons, scanReply_cons]
      cases checkLine expected (line ++ ['\r']) with
      | some result => exact .inr rfl
      | none => exact ih hlines.2 hs' hreads'

/-! ## Whole replies -/

theorem popReturn_concat (line : Text) : popReturn (line ++ ['\r']) = line := by
  simp [popReturn]

/-- Digits are read as their number. -/
theorem stoi_digits {digits : Text} (hne : digits ≠ [])
    (hdigits : ∀ c ∈ digits, c.isDigit = true) : stoi digits = .ok (digitsValue digits) := by
  obtain ⟨d, rest, rfl⟩ := List.exists_cons_of_ne_nil hne
  have hd := hdigits d List.mem_cons_self
  have hsigns : ∀ c, c.isDigit = false → d ≠ c := by
    rintro c hc rfl
    rw [hd] at hc
    cases hc
  have hspace : isSpace d = false := by
    simp [isSpace, hsigns]
  have htake : (d :: rest).takeWhile Char.isDigit = d :: rest :=
    List.takeWhile_eq_self_iff.mpr hdigits
  unfold stoi
  rw [List.dropWhile_cons_of_neg (by rw [hspace]; exact Bool.false_ne_true)]
  split
  · next heq => exact absurd (List.cons.inj heq).1 (hsigns '-' rfl)
  · next heq => exact absurd (List.cons.inj heq).1 (hsigns '+' rfl)
  · rw [stoiDigits, htake]

end SmtpClient

namespace SmtpReply

open SmtpClient

variable (reply : SmtpReply) (expected : Int)

/-- What the loop does with a line of a reply depends on the character behind the code. -/
theorem checkLine_coded (behind : Text) :
    checkLine expected (reply.digits ++ behind ++ ['\r']) =
      if behind.head? = some ' ' then
        some (if reply.code ≠ expected then
          .error (("SMTP Error: Expected " : Text) ++ intText expected ++ (", got " : Text) ++
            (reply.digits ++ behind))
        else .ok ())
      else none := by
  have hne : reply.digits ≠ [] := by
    intro hnil
    have hlength := reply.digits_length
    rw [hnil] at hlength
    cases hlength
  have hlength : ¬ (reply.digits ++ behind).length < 3 := by
    rw [List.length_append, reply.digits_length]
    omega
  have htake : (reply.digits ++ behind).take 3 = reply.digits := List.take_left' reply.digits_length
  have hdrop : (reply.digits ++ behind).drop 3 = behind := List.drop_left' reply.digits_length
  unfold checkLine
  rw [popReturn_concat]
  dsimp only
  rw [if_neg hlength, htake, hdrop, stoi_digits hne reply.isDigit]
  dsimp only
  split
  · show (if reply.code ≠ expected then _ else _) = _
    split <;> rfl
  · rfl

/-- The reply is read to its end and no further, and the routine returns if the code is the expected
one and throws otherwise. -/
def Consumed (reads later : List Text) : Prop :=
  (readReply expected ⟨[], reads ++ later⟩).2 = ⟨[], later⟩ ∧
    match (readReply expected ⟨[], reads ++ later⟩).1 with
    | .returned => reply.code = expected
    | .threw _ => reply.code ≠ expected
    | .waits => False

theorem not_mem_digits {c : Char} (hc : c.isDigit = false) : c ∉ reply.digits := by
  intro hmem
  rw [reply.isDigit c hmem] at hc
  cases hc

/-- The lines of a reply have no line feed. -/
theorem not_mem_firstLine {text : Text} (htext : text ∈ reply.first) :
    '\n' ∉ reply.firstLine text := by
  have hin := (reply.in_line text (List.mem_append_left _ htext)).2
  have hdigits := reply.not_mem_digits (c := '\n') rfl
  simp [firstLine, hin, hdigits]

theorem not_mem_lastLine : '\n' ∉ reply.lastLine := by
  have hdigits := reply.not_mem_digits (c := '\n') rfl
  unfold lastLine
  split
  · exact hdigits
  · next text hlast =>
      have hin := (reply.in_line text (List.mem_append_right _ (by rw [hlast]; simp))).2
      simp [hin, hdigits]

variable {reply expected}

/-- The loop takes the lines that another one follows, and then it is the turn of the last. -/
theorem readReply_last {reads : List Text} (hreads : [] ∉ reads)
    (hcut : reads.flatten = reply.bytes) (later : List Text) :
    readReply expected ⟨[], reads ++ later⟩ =
      match checkLine expected (reply.lastLine ++ ['\r']) with
      | some result => (endOf result, ⟨[], later⟩)
      | none => readReply expected ⟨[], later⟩ := by
  have htext : Stream.text ⟨[], reads⟩ =
      Lines.unlines (reply.first.map reply.firstLine) ++ (reply.lastLine ++ Lines.crlf ++ []) := by
    rw [Stream.text, List.nil_append, hcut, bytes]
    simp [Lines.unlines]
  have hfeed : ∀ line ∈ reply.first.map reply.firstLine, '\n' ∉ line := by
    rw [List.forall_mem_map]
    exact fun text htext => reply.not_mem_firstLine htext
  have hnone : ∀ line ∈ reply.first.map reply.firstLine,
      checkLine expected (line ++ ['\r']) = none := by
    rw [List.forall_mem_map]
    exact fun text _ => reply.checkLine_coded expected ('-' :: text)
  obtain ⟨s₁, hs₁, hreads₁, hskip⟩ :=
    readReply_skip (s := ⟨[], reads⟩) hfeed hnone htext hreads later
  obtain ⟨s', hs', hreads', hstep⟩ := readReply_step expected
    reply.not_mem_lastLine hs₁ hreads₁ later
  rw [Stream.eq_of_text_nil hs' hreads'] at hstep
  exact hskip.trans hstep

/-- A reply is read to its end, in whatever pieces it arrives, exactly when there is a space behind
the code of its last line. -/
theorem consumed_iff {reads : List Text} (hreads : [] ∉ reads) (hcut : reads.flatten = reply.bytes)
    (later : List Text) : reply.Consumed expected reads later ↔ reply.last.isSome = true := by
  unfold Consumed
  rw [readReply_last hreads hcut later]
  unfold lastLine
  cases hlast : reply.last with
  | some text =>
      have hcheck := reply.checkLine_coded expected (' ' :: text)
      rw [List.head?_cons, if_pos rfl] at hcheck
      dsimp only
      rw [hcheck]
      refine iff_of_true ⟨rfl, ?_⟩ rfl
      by_cases hcode : reply.code = expected
      · rw [if_neg (not_not.mpr hcode)]
        exact hcode
      · rw [if_pos hcode]
        exact hcode
  | none =>
      have hcheck := reply.checkLine_coded expected []
      rw [List.append_nil, if_neg (by simp)] at hcheck
      dsimp only
      rw [hcheck]
      refine iff_of_false ?_ (by simp)
      dsimp only
      -- the loop goes on: it waits, or it takes something of what belongs to the next reply
      intro ⟨hrest, hend⟩
      rcases readReply_takes expected ⟨[], later⟩ with hwaits | hlt
      · rw [hwaits] at hend
        exact hend
      · rw [hrest] at hlt
        exact absurd hlt (lt_irrefl _)

/-- The reply to `EHLO` of a server that has one extension. -/
def ehlo : SmtpReply where
  digits := ("250" : Text)
  first := [("mx.example.com" : Text)]
  last := some ("AUTH PLAIN" : Text)
  digits_length := rfl
  isDigit := List.all_iff_forall_prop.mp (by decide)
  in_line := by decide

/-- It arrives in two pieces, which are cut in the middle of a line end. -/
theorem ehlo_consumed :
    ehlo.Consumed 250
      [("250-mx.example.com" : Text) ++ ['\r'],
        '\n' :: ("250 AUTH PLAIN" : Text) ++ Lines.crlf] [] :=
  (consumed_iff (by decide) (by decide) []).mpr rfl

/-- A reply of a code and nothing else. -/
def bare : SmtpReply where
  digits := ("250" : Text)
  first := []
  last := none
  digits_length := rfl
  isDigit := List.all_iff_forall_prop.mp (by decide)
  in_line := by decide

/-- It arrived whole, but `read_response` waits for another line. -/
theorem bare_waits :
    bare.bytes = ("250" : Text) ++ Lines.crlf ∧
      (readReply 250 ⟨[], [bare.bytes] ++ []⟩).1 = .waits ∧
      ¬ bare.Consumed 250 [bare.bytes] [] := by
  have hreads : [] ∉ [bare.bytes] := by decide
  have hcut : [bare.bytes].flatten = bare.bytes := by decide
  have hlast : readReply 250 ⟨[], [bare.bytes] ++ []⟩ =
      match checkLine 250 (bare.lastLine ++ ['\r']) with
      | some result => (endOf result, ⟨[], []⟩)
      | none => readReply 250 ⟨[], []⟩ :=
    readReply_last hreads hcut []
  have hcheck : checkLine 250 (bare.lastLine ++ ['\r']) = none := by decide
  have hend : (readReply 250 ⟨[], [bare.bytes] ++ []⟩).1 = .waits := by
    rw [hlast, hcheck]
    dsimp only
    rw [readReply]
    rfl
  refine ⟨by decide, hend, ?_⟩
  intro ⟨_, h⟩
  rw [hend] at h
  exact h

end SmtpReply

end Brazier
