import Brazier.Mail.Transparency
import Brazier.ProofLib.Backtracking
import Brazier.ProofLib.HeadedMessages

/-!
# Mails to validated recipients

`Validator` of `src/Validator.cpp`, which checks passwords and addresses. `SmtpClient::send` writes
the recipient into a command and into a field as it is. `validated_recipient` says that an address
that `Validator::email` accepts stays what it is in both: however far a session gets, the server
reads the commands and the fields that were meant, and no others, but for an empty command behind
the data.
-/

namespace Brazier

open ProofLib

namespace Validator

/-! ## Passwords -/

/-- What the loop has seen. -/
structure Seen where
  hasDigit : Bool
  hasUpper : Bool
  hasSpecial : Bool
  deriving DecidableEq

/-- One pass of the loop. -/
def see (seen : Seen) (ch : Char) : Seen :=
  if ch.isDigit then { seen with hasDigit := true }
  else if ch.isUpper then { seen with hasUpper := true }
  else if !ch.isAlphanum then { seen with hasSpecial := true }
  else seen

/-- `passwordError`. -/
def passwordError (password : Text) : Text :=
  if password.length < 8 then "Password is too short (minimum 8 characters)."
  else if password.length > 20 then "Password is too long (maximum 20 characters)."
  else
    let seen := password.foldl see ⟨false, false, false⟩
    if !seen.hasDigit then "Password must contain at least one digit."
    else if !seen.hasUpper then "Password must contain at least one uppercase letter."
    else if !seen.hasSpecial then "Password must contain at least one special character."
    else []

/-- `password`. -/
def password (password : Text) : Bool := passwordError password = []

/-- A digit is no upper-case letter. -/
theorem isUpper_of_isDigit {ch : Char} (h : ch.isDigit = true) : ch.isUpper = false := by
  simp only [Char.isDigit, ge_iff_le, UInt32.le_iff_toNat_le] at h
  have hnine : ch.val.toNat ≤ 57 := of_decide_eq_true (Bool.and_eq_true_iff.mp h).2
  refine decide_eq_false fun hupper => ?_
  have hletter : 65 ≤ ch.val.toNat := UInt32.le_iff_toNat_le.mp hupper.1
  omega

/-- The branches of the loop do not stand in each other's way. -/
theorem see_eq (seen : Seen) (ch : Char) :
    see seen ch = ⟨seen.hasDigit || ch.isDigit, seen.hasUpper || ch.isUpper,
      seen.hasSpecial || !ch.isAlphanum⟩ := by
  unfold see Char.isAlphanum Char.isAlpha
  cases hdigit : ch.isDigit with
  | true => simp [isUpper_of_isDigit hdigit]
  | false =>
      cases hupper : ch.isUpper with
      | true => simp
      | false => cases hlower : ch.isLower <;> simp

theorem foldl_see (seen : Seen) (password : Text) :
    password.foldl see seen =
      ⟨seen.hasDigit || password.any Char.isDigit, seen.hasUpper || password.any Char.isUpper,
        seen.hasSpecial || password.any (fun ch => !ch.isAlphanum)⟩ := by
  induction password generalizing seen with
  | nil => simp
  | cons ch rest ih =>
      rw [List.foldl_cons, ih, see_eq]
      simp only [List.any_cons, Bool.or_assoc]

/-- A password is accepted when it has a permitted length and each kind of character, in any
order. -/
theorem password_iff (password : Text) :
    Validator.password password = true ↔
      8 ≤ password.length ∧ password.length ≤ 20 ∧ (∃ ch ∈ password, ch.isDigit = true) ∧
        (∃ ch ∈ password, ch.isUpper = true) ∧ ∃ ch ∈ password, ch.isAlphanum = false := by
  have hne : ∀ text : String, text ≠ "" → text.toList ≠ [] := by
    intro text htext h
    exact htext (String.toList_eq_nil_iff.mp h)
  rw [Validator.password, decide_eq_true_iff, passwordError, foldl_see]
  split
  · exact iff_of_false (hne _ (by decide)) fun h => absurd h.1 (by omega)
  · split
    · exact iff_of_false (hne _ (by decide)) fun h => absurd h.2.1 (by omega)
    · have hlength : 8 ≤ password.length ∧ password.length ≤ 20 := by omega
      simp only [Bool.false_or]
      split
      · next hdigit =>
          refine iff_of_false (hne _ (by decide)) fun h => ?_
          simp [List.any_eq_true.mpr h.2.2.1] at hdigit
      · next hdigit =>
          split
          · next hupper =>
              refine iff_of_false (hne _ (by decide)) fun h => ?_
              simp [List.any_eq_true.mpr h.2.2.2.1] at hupper
          · next hupper =>
              simp only [Bool.not_eq_true', Bool.not_eq_false, List.any_eq_true] at hdigit hupper
              split
              · next hspecial =>
                  refine iff_of_false (hne _ (by decide)) fun h => ?_
                  obtain ⟨ch, hch, hother⟩ := h.2.2.2.2
                  simp only [Bool.not_eq_true', List.any_eq_false] at hspecial
                  exact hspecial ch hch (by rw [hother])
              · next hspecial =>
                  simp only [Bool.not_eq_true', Bool.not_eq_false, List.any_eq_true] at hspecial
                  exact iff_of_true rfl ⟨hlength.1, hlength.2, hdigit, hupper, hspecial⟩

/-! ## Addresses -/

/-- `[A-Za-z0-9._%+-]`. -/
def isUserChar (c : Char) : Bool := c.isAlphanum || "._%+-".toList.contains c

/-- `[A-Za-z0-9.-]`. -/
def isDomainChar (c : Char) : Bool := c.isAlphanum || ".-".toList.contains c

open Backtracking in
/-- `pattern`. -/
def pattern : Expr Char :=
  .seq .start (.seq (.many isUserChar 1 none) (.seq (.set (· = '@'))
    (.seq (.many isDomainChar 1 none) (.seq (.set (· = '.'))
      (.seq (.many Char.isAlpha 2 none) .stop)))))

/-- `email`. -/
def email (email : Text) : Bool := (Backtracking.matchAll pattern email).isSome

/-- The parts of an address. -/
structure Address where
  user : Text
  domain : Text
  top : Text
  user_ne : user ≠ []
  domain_ne : domain ≠ []
  two_le : 2 ≤ top.length
  userChars : ∀ c ∈ user, isUserChar c = true
  domainChars : ∀ c ∈ domain, isDomainChar c = true
  topChars : ∀ c ∈ top, c.isAlpha = true

/-- The text of an address. -/
def Address.text (address : Address) : Text :=
  address.user ++ '@' :: (address.domain ++ '.' :: address.top)

open Backtracking in
/-- The texts that are accepted are those of addresses. -/
theorem email_iff (text : Text) :
    email text = true ↔ ∃ address : Address, address.text = text := by
  rw [email, matchAll_isSome_iff]
  constructor
  · rintro ⟨s, ⟨_, ⟨-, rfl⟩, _, hfirst, _, hsecond, _, hthird, _, hfourth, _, hfifth, hrest, rfl⟩,
      -⟩
    obtain ⟨user, _, rfl, huser, huserChars, rfl⟩ := spans_many.mp hfirst
    obtain ⟨c, _, rfl, hc, rfl⟩ := spans_set.mp hsecond
    obtain ⟨domain, _, rfl, hdomain, hdomainChars, rfl⟩ := spans_many.mp hthird
    obtain ⟨d, _, rfl, hd, rfl⟩ := spans_set.mp hfourth
    obtain ⟨top, behind, rfl, htop, htopChars, rfl⟩ := spans_many.mp hfifth
    obtain rfl : behind = [] := hrest
    obtain rfl : c = '@' := of_decide_eq_true hc
    obtain rfl : d = '.' := of_decide_eq_true hd
    refine ⟨⟨user, domain, top, List.ne_nil_of_length_pos huser,
      List.ne_nil_of_length_pos hdomain, htop, huserChars, hdomainChars, htopChars⟩, ?_⟩
    show _ ++ _ :: (_ ++ _ :: top) = _ ++ _ :: (_ ++ _ :: (top ++ []))
    rw [List.append_nil]
  · rintro ⟨address, rfl⟩
    have htext : address.text =
        address.user ++ '@' :: (address.domain ++ '.' :: (address.top ++ [])) := by
      rw [List.append_nil]
      rfl
    rw [htext]
    refine ⟨_, ⟨_, ⟨rfl, rfl⟩, _, spans_many.mpr ⟨_, _, rfl, ?_, address.userChars, rfl⟩,
      _, spans_set.mpr ⟨_, _, rfl, by decide, rfl⟩,
      _, spans_many.mpr ⟨_, _, rfl, ?_, address.domainChars, rfl⟩,
      _, spans_set.mpr ⟨_, _, rfl, by decide, rfl⟩,
      _, spans_many.mpr ⟨_, _, rfl, address.two_le, address.topChars, rfl⟩, rfl, rfl⟩, rfl⟩
    · exact List.length_pos_of_ne_nil address.user_ne
    · exact List.length_pos_of_ne_nil address.domain_ne

/-- The characters of an address. -/
def isAddressChar (c : Char) : Bool := c.isAlphanum || "._%+-@".toList.contains c

theorem Address.isAddressChar_of_mem {address : Address} {c : Char} (h : c ∈ address.text) :
    isAddressChar c = true := by
  rw [Address.text, List.mem_append, List.mem_cons, List.mem_append, List.mem_cons] at h
  have hcases : c.isAlphanum = true ∨ c ∈ "._%+-@".toList := by
    obtain hc | rfl | hc | rfl | hc := h
    · have huser := address.userChars c hc
      rw [isUserChar, Bool.or_eq_true, List.contains_iff_mem] at huser
      refine huser.imp_right fun hmem => ?_
      exact (show "._%+-".toList ⊆ "._%+-@".toList by decide) hmem
    · exact .inr (by decide)
    · have hdomain := address.domainChars c hc
      rw [isDomainChar, Bool.or_eq_true, List.contains_iff_mem] at hdomain
      refine hdomain.imp_right fun hmem => ?_
      exact (show ".-".toList ⊆ "._%+-@".toList by decide) hmem
    · exact .inr (by decide)
    · exact .inl (by rw [Char.isAlphanum, address.topChars c hc, Bool.true_or])
  rw [isAddressChar, Bool.or_eq_true, List.contains_iff_mem]
  exact hcases

/-- What is no character of an address does not occur in one that is accepted. -/
theorem not_mem_of_email {text : Text} (h : email text = true) {c : Char}
    (hc : isAddressChar c = false) : c ∉ text := by
  obtain ⟨address, rfl⟩ := (email_iff text).mp h
  intro hmem
  rw [Address.isAddressChar_of_mem hmem] at hc
  cases hc

end Validator

/-! ## What the server reads -/

/-- The mailbox in a `RCPT` command, and what stands behind it. The words may be in any case. -/
def recipientOf (line : Text) : Option (Text × Text) :=
  if (line.take 9).map Char.toUpper = ("RCPT TO:<" : Text) then cutAt '>' (line.drop 9) else none

/-- A character that `base64_encode` writes. -/
def isBase64Char (c : Char) : Bool := c.isAlphanum || "+/=".toList.contains c

namespace SmtpClient

open HeadedMessage

/-- A client whose settings are lines. -/
structure Clean (client : SmtpClient) : Prop where
  host : ∀ c ∈ client.host, isTextChar c = true
  username : ∀ c ∈ client.username, isTextChar c = true
  base64 : ∀ text, ∀ c ∈ client.base64Encode text, isBase64Char c = true

variable (client : SmtpClient) (recipient message senderName : Text)

/-- The value of `From`. -/
def originator : Text :=
  if senderName.length > 0 then senderName ++ (" <" : Text) ++ client.username ++ (">" : Text)
  else client.username

/-- The fields that every mail has. -/
def fixedFields : List (Text × Text) :=
  [("Subject", "Notification"), ("MIME-Version", "1.0"),
    ("Content-Type", "text/html; charset=utf-8")]

/-- The fields of the mail. -/
def fields : List (Text × Text) :=
  ("From", client.originator senderName) :: ("To", recipient) :: fixedFields

/-- The commands of a whole session. The line end behind the data is read as an empty one. -/
def allCommands : List Text :=
  (client.greeting ++ envelope recipient).map Prod.fst ++ [[], ("QUIT" : Text)]

/-- What a server should read in a session, however far that gets: the first of these commands, no
recipient but the one, and if the data are sent, the fields of the mail with the message behind
them. The blanks around the sender are lost. -/
structure Addressed (log : List Exchange) : Prop where
  commands : commandLines log <+: client.allCommands recipient
  recipients : (commandLines log).filterMap recipientOf <+: [(recipient, [])]
  mail : ∀ before after, splitAt354 log = some (before, after) →
    HeadedMessage.head (Lines.decoded after) =
      some ((("From" : Text), ProofLib.trim isBlank (client.originator senderName)) ::
        ("To", recipient) :: fixedFields, message ++ Lines.crlf)

theorem header_eq :
    client.header recipient senderName =
      fieldLines (client.fields recipient senderName) ++ Lines.crlf := by
  have hfrom : fieldLines [("From", client.originator senderName)] = _ :=
    fieldLines_one (show ("From: " : Text) = _ by decide) (client.originator senderName)
  have hto : fieldLines [("To", recipient)] = _ :=
    fieldLines_one (show ("To: " : Text) = _ by decide) recipient
  have hfixed : fieldLines fixedFields =
      ("Subject: Notification" : Text) ++ (Lines.crlf ++ (("MIME-Version: 1.0" : Text) ++
        (Lines.crlf ++ (("Content-Type: text/html; charset=utf-8" : Text) ++ Lines.crlf)))) := by
    decide
  have hfields : fieldLines (client.fields recipient senderName) = _ :=
    (fieldLines_append [_] _).trans
      (congrArg₂ List.append hfrom ((fieldLines_append [_] _).trans
        (congrArg₂ List.append hto hfixed)))
  refine Eq.trans ?_ (congrArg (fun lines => lines ++ Lines.crlf) hfields).symm
  show _ = (_ ++ (_ ++ _)) ++ Lines.crlf
  unfold header originator
  simp only [List.append_assoc]

variable {client recipient message senderName}

theorem unbroken_of_isTextChar {text : Text} (h : ∀ c ∈ text, isTextChar c = true) :
    Lines.Unbroken text := by
  have hcr : '\r' ∉ text := fun hmem => absurd (h '\r' hmem) (by decide)
  rw [← List.append_nil text, Lines.unbroken_append hcr]
  rfl

/-- What is no upper-case letter is the upper-case form of itself only. -/
theorem eq_of_toUpper_eq {c d : Char} (hd : d.isUpper = false) (h : c.toUpper = d) : c = d := by
  unfold Char.toUpper at h
  split at h
  · next hlower =>
      rw [UInt32.le_iff_toNat_le, UInt32.le_iff_toNat_le] at hlower
      have hlow : 97 ≤ c.val.toNat := hlower.1
      have hhigh : c.val.toNat ≤ 122 := hlower.2
      have hdistance : ('A'.val - 'a'.val).toNat = 4294967264 := by decide
      have hval : d.val.toNat = c.val.toNat - 32 := by
        rw [← h, UInt32.toNat_add, hdistance]
        omega
      have hupper : d.isUpper = true := by
        refine decide_eq_true ⟨UInt32.le_iff_toNat_le.mpr ?_, UInt32.le_iff_toNat_le.mpr ?_⟩
        · show 65 ≤ d.val.toNat
          omega
        · show d.val.toNat ≤ 90
          omega
      rw [hd] at hupper
      cases hupper
  · exact h

/-- A line without a blank is no such command. -/
theorem recipientOf_of_not_mem {line : Text} (h : ' ' ∉ line) : recipientOf line = none := by
  refine if_neg fun heq => h ?_
  have hblank : ' ' ∈ (line.take 9).map Char.toUpper := by
    rw [heq]
    decide
  obtain ⟨c, hc, hupper⟩ := List.mem_map.mp hblank
  rw [← eq_of_toUpper_eq (by decide) hupper]
  exact List.mem_of_mem_take hc

/-- Nor is one that begins with another letter. -/
theorem recipientOf_of_head {c : Char} (hc : c.toUpper ≠ 'R') (rest : Text) :
    recipientOf (c :: rest) = none := by
  refine if_neg fun heq => hc ?_
  have hhead : ((List.take 9 (c :: rest)).map Char.toUpper).head? = some 'R' := by
    rw [heq]
    decide
  exact Option.some.inj hhead

theorem recipientOf_rcpt (h : '>' ∉ recipient) :
    recipientOf (("RCPT TO:<" : Text) ++ recipient ++ (">" : Text)) = some (recipient, []) := by
  have hlength : ("RCPT TO:<" : Text).length = 9 := by decide
  rw [recipientOf, List.append_assoc, List.take_left' hlength, List.drop_left' hlength,
    if_pos (by decide)]
  exact cutAt_append h []

/-- Every command of the greeting is one line, and none of them names a recipient. -/
theorem greeting_lines (h : client.Clean) :
    ∀ line ∈ client.greeting.map Prod.fst, Lines.Unbroken line ∧ recipientOf line = none := by
  have hwords : ∀ {word text : Text}, (∀ c ∈ word, isTextChar c = true) →
      (∀ c ∈ text, isTextChar c = true) → Lines.Unbroken (word ++ text) := fun hword htext =>
    unbroken_of_isTextChar (List.forall_mem_append.mpr ⟨hword, htext⟩)
  have hbase64 : ∀ text, ∀ c ∈ client.base64Encode text, isTextChar c = true ∧ c ≠ ' ' := by
    intro text c hc
    have hchar := h.base64 text c hc
    constructor
    · by_contra hcontrol
      simp only [isTextChar, Bool.and_eq_true, decide_eq_true_iff, not_and_or, not_not] at hcontrol
      obtain (rfl | rfl) | rfl := hcontrol <;> exact absurd hchar (by decide)
    · rintro rfl
      exact absurd hchar (by decide)
  unfold greeting
  simp only [List.map_cons, List.map_nil, List.forall_mem_cons]
  refine ⟨⟨hwords ?_ h.host, ?_⟩, ⟨?_, ?_⟩, ⟨?_, ?_⟩, ⟨?_, ?_⟩, ?_⟩
  · exact List.all_eq_true.mp (by decide)
  · exact recipientOf_of_head (c := 'E') (by decide) _
  · decide
  · exact recipientOf_of_head (c := 'A') (by decide) _
  · exact unbroken_of_isTextChar fun c hc => (hbase64 _ c hc).1
  · exact recipientOf_of_not_mem fun hmem => (hbase64 _ _ hmem).2 rfl
  · refine hwords (List.forall_mem_append.mpr ⟨List.all_eq_true.mp (by decide),
      h.username⟩) (List.all_eq_true.mp (by decide))
  · exact recipientOf_of_head (c := 'M') (by decide) _
  · exact nofun

theorem receivedField_of_not_mem {name value : Text} (hspace : ' ' ∉ value) (htab : '\t' ∉ value) :
    receivedField (name, value) = (name, value) := by
  refine congrArg (Prod.mk name) (trim_eq_self fun c hc => ?_)
  simp only [isBlank, Bool.or_eq_false_iff, decide_eq_false_iff_not]
  constructor
  · rintro rfl
    exact hspace hc
  · rintro rfl
    exact htab hc

/-- The fields are read as they were written. -/
theorem fields_clean (h : client.Clean) (hrecipient : ∀ c ∈ recipient, isTextChar c = true)
    (hsender : ∀ c ∈ senderName, isTextChar c = true) :
    ∀ f ∈ client.fields recipient senderName, CleanField f := by
  have horiginator : ∀ c ∈ client.originator senderName, isTextChar c = true := by
    unfold originator
    split
    · exact List.forall_mem_append.mpr ⟨List.forall_mem_append.mpr
        ⟨List.forall_mem_append.mpr ⟨hsender, List.all_eq_true.mp (by decide)⟩,
          h.username⟩, List.all_eq_true.mp (by decide)⟩
    · exact h.username
  have hfixed : ∀ f ∈ fixedFields, CleanField f := by
    have hall : ∀ f ∈ fixedFields, f.1 ≠ [] ∧ f.1.all isNameChar = true ∧
        f.2.all isTextChar = true := by
      decide
    intro f hf
    obtain ⟨hne, hname, hvalue⟩ := hall f hf
    exact ⟨hne, List.all_eq_true.mp hname, List.all_eq_true.mp hvalue⟩
  have hfrom : ∀ c ∈ ("From" : Text), isNameChar c = true :=
    List.all_eq_true.mp (by decide)
  have hto : ∀ c ∈ ("To" : Text), isNameChar c = true := List.all_eq_true.mp (by decide)
  unfold fields
  rw [List.forall_mem_cons, List.forall_mem_cons]
  exact ⟨⟨nofun, hfrom, horiginator⟩, ⟨nofun, hto, hrecipient⟩, hfixed⟩

/-- No line of the fields begins with a dot. -/
theorem undotted_fields (h : ∀ f ∈ client.fields recipient senderName, CleanField f) :
    ∀ line ∈ Lines.lines (client.header recipient senderName), ¬ Lines.Dotted line := by
  have hunbroken : ∀ line ∈ (client.fields recipient senderName).map fieldLine,
      Lines.Unbroken line := by
    refine List.forall_mem_map.mpr fun f hf => ?_
    refine unbroken_of_isTextChar (List.forall_mem_append.mpr ⟨fun c hc => ?_, ?_⟩)
    · exact isTextChar_of_isNameChar ((h f hf).name c hc)
    · refine List.forall_mem_cons.mpr ⟨by decide, List.forall_mem_cons.mpr ⟨by decide, ?_⟩⟩
      exact (h f hf).value
  have hlines : Lines.lines (client.header recipient senderName) =
      (client.fields recipient senderName).map fieldLine ++ [[]] := by
    rw [header_eq, fieldLines, Lines.lines_append (Lines.ended_unlines _),
      Lines.lines_unlines hunbroken]
    rfl
  have hfixed : ∀ f ∈ fixedFields, ¬ Lines.Dotted (fieldLine f) := by decide
  have hempty : ¬ Lines.Dotted ([] : Text) := by decide
  rw [hlines, List.forall_mem_append, List.forall_mem_singleton, List.forall_mem_map]
  refine ⟨?_, hempty⟩
  unfold fields
  rw [List.forall_mem_cons, List.forall_mem_cons]
  refine ⟨fun hdotted => ?_, fun hdotted => ?_, hfixed⟩
  · cases hdotted
  · cases hdotted

/-- A message without a line that begins with a dot is followed by an empty command, and by `QUIT`
if it was accepted. -/
theorem beyond_of_undotted {replies : List (List Text)} {before after : Text}
    (hundotted : ∀ line ∈ Lines.lines (client.header recipient senderName ++ message ++ Lines.crlf),
      ¬ Lines.Dotted line)
    (h : client.written recipient message senderName replies = some (before, after)) :
    Lines.lines (Lines.beyond after) <+: [[], ("QUIT" : Text)] := by
  rw [written_eq, Option.ite_none_right_eq_some] at h
  obtain ⟨-, h⟩ := h
  cases h
  rw [stream_eq, Lines.beyond_of_undotted (Lines.ended_crlf _) hundotted, closing]
  split
  · have hboth : Lines.lines (Lines.crlf ++ (("QUIT" : Text) ++ Lines.crlf)) =
        [[], ("QUIT" : Text)] := by
      decide
    rw [hboth]
  · exact ⟨[("QUIT" : Text)], rfl⟩

/-- However far a session gets, the commands that the server reads are the first of those that are
meant. -/
theorem commandLines_prefix
    (hlines : ∀ line ∈ (client.greeting ++ envelope recipient).map Prod.fst, Lines.Unbroken line)
    (hundotted : ∀ line ∈ Lines.lines (client.header recipient senderName ++ message ++ Lines.crlf),
      ¬ Lines.Dotted line)
    (replies : List (List Text)) :
    commandLines (client.sessionLog recipient message senderName replies) <+:
      client.allCommands recipient := by
  unfold commandLines allCommands
  cases hsplit : splitAt354 (client.sessionLog recipient message senderName replies) with
  | none =>
      have hlt : acceptedCount sendCodes replies < openingCodes.length := by
        by_contra hle
        rw [splitAt354_sessionLog, if_pos (Nat.le_of_not_lt hle)] at hsplit
        cases hsplit
      rw [(client.opening_sessionLog recipient message senderName hlt).1, List.append_nil,
        List.map_take,
        Lines.lines_unlines fun line hline => hlines line (List.mem_of_mem_take hline)]
      exact (List.take_prefix _ _).trans (List.prefix_append _ _)
  | some parts =>
      obtain ⟨before, after⟩ := parts
      have hbefore := before_eq hsplit
      have hbeyond := beyond_of_undotted hundotted hsplit
      rw [splitAt354_sessionLog, Option.ite_none_right_eq_some] at hsplit
      obtain ⟨-, hparts⟩ := hsplit
      cases hparts
      dsimp only
      rw [← hbefore, openingBytes, bytesOf_entries, Lines.lines_unlines hlines]
      exact (List.prefix_append_right_inj _).mpr hbeyond

/-- The one recipient that these commands name. -/
theorem recipients_allCommands (h : client.Clean) (hrecipient : '>' ∉ recipient) :
    (client.allCommands recipient).filterMap recipientOf = [(recipient, [])] := by
  have hgreeting : (client.greeting.map Prod.fst).filterMap recipientOf = [] :=
    List.filterMap_eq_nil_iff.mpr fun line hline => (greeting_lines h line hline).2
  have hothers : [("DATA" : Text), [], ("QUIT" : Text)].filterMap recipientOf = [] := by decide
  rw [allCommands, List.map_append, List.append_assoc, List.filterMap_append, hgreeting,
    List.nil_append]
  exact (List.filterMap_cons_some (recipientOf_rcpt hrecipient)).trans
    (congrArg (List.cons (recipient, [])) hothers)

/-- However far a session gets, a recipient that `Validator` accepts is read as it was given, and
adds nothing to the commands or to the fields of the mail. -/
theorem validated_recipient (h : client.Clean) (hrecipient : Validator.email recipient = true)
    (hsender : ∀ c ∈ senderName, isTextChar c = true)
    (hmessage : ∀ line ∈ Lines.lines (message ++ Lines.crlf), ¬ Lines.Dotted line)
    (replies : List (List Text)) :
    Addressed client recipient message senderName
      (client.sessionLog recipient message senderName replies) := by
  have hnone : ∀ c ∈ recipient, isTextChar c = true := by
    intro c hc
    by_contra hcontrol
    simp only [isTextChar, Bool.and_eq_true, decide_eq_true_iff, not_and_or, not_not] at hcontrol
    obtain (rfl | rfl) | rfl := hcontrol <;>
      exact Validator.not_mem_of_email hrecipient (by decide) hc
  have hfields := fields_clean h hnone hsender
  have hundotted : ∀ line ∈
      Lines.lines (client.header recipient senderName ++ message ++ Lines.crlf),
        ¬ Lines.Dotted line := by
    have hended : Lines.Ended (client.header recipient senderName) := Lines.ended_crlf _
    rw [List.append_assoc, Lines.lines_append hended, List.forall_mem_append]
    exact ⟨undotted_fields hfields, hmessage⟩
  have hlines : ∀ line ∈ (client.greeting ++ envelope recipient).map Prod.fst,
      Lines.Unbroken line := by
    rw [List.map_append, List.forall_mem_append]
    refine ⟨fun line hline => (greeting_lines h line hline).1, ?_⟩
    refine List.forall_mem_cons.mpr ⟨?_, List.forall_mem_singleton.mpr (by decide)⟩
    exact unbroken_of_isTextChar (List.forall_mem_append.mpr ⟨List.forall_mem_append.mpr
      ⟨List.all_eq_true.mp (by decide), hnone⟩, List.all_eq_true.mp (by decide)⟩)
  have hcommands := commandLines_prefix hlines hundotted replies
  have hall := recipients_allCommands h
    (Validator.not_mem_of_email hrecipient (c := '>') (by decide))
  refine ⟨hcommands, hall ▸ hcommands.filterMap recipientOf, fun before after hsplit => ?_⟩
  rw [(decoded_iff hsplit).mpr hundotted, header_eq, List.append_assoc, List.append_assoc,
    head_written hfields]
  refine congrArg (fun fields => some (fields, message ++ Lines.crlf)) ?_
  have hto : receivedField ("To", recipient) = (("To" : Text), recipient) :=
    receivedField_of_not_mem (Validator.not_mem_of_email hrecipient (by decide))
      (Validator.not_mem_of_email hrecipient (by decide))
  have hfixed : fixedFields.map receivedField = fixedFields := by decide
  exact congrArg₂ (fun first rest => receivedField _ :: first :: rest) hto hfixed

/-- A mail with the name of its sender. -/
theorem validated_recipient_notifier :
    Addressed notifier ("a.b@example.com" : Text) ("Hi" : Text) ("Ann" : Text)
        (notifier.sessionLog ("a.b@example.com" : Text) ("Hi" : Text) ("Ann" : Text) willing) ∧
      splitAt354 (notifier.sessionLog ("a.b@example.com" : Text) ("Hi" : Text) ("Ann" : Text)
        willing) ≠ none := by
  have hclean : notifier.Clean := by
    refine ⟨List.all_eq_true.mp (by decide), List.all_eq_true.mp (by decide), ?_⟩
    intro text
    exact List.all_eq_true.mp (show ("AHVzZXJuYW1lAHBhc3N3b3Jk" : Text).all isBase64Char = true by
      decide)
  refine ⟨validated_recipient hclean (by decide) (List.all_eq_true.mp (by decide)) (by decide)
    willing, ?_⟩
  rw [splitAt354_sessionLog, if_pos (by decide)]
  exact Option.some_ne_none _

end SmtpClient

end Brazier
