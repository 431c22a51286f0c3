import Brazier.Mail.SmtpClient
import Brazier.ProofLib.Occurrences

/-!
# Masked credentials

The error path of `SmtpClient::send`: the user name and then the password are replaced in the text
of the exception by their first three characters and three stars, and the text is logged. A loop
resumes behind as many characters as the key has, so a short key is searched for in its own mask,
and behind the mask of a long one some characters are skipped. `masks_iff` says when both loops end
and the password is not in the text that is logged.
-/

namespace Brazier

open ProofLib

namespace SmtpClient

/-- `masked_username` and `masked_password`. -/
def maskOf (key : Text) : Text := key.take 3 ++ ("***" : Text)

/-- The loop for one of them. -/
def maskAll (fuel : Nat) (key msg : Text) : Option Text :=
  replaceLoop key (maskOf key) fuel msg (findFrom key msg 0)

/-- The text that is handed to the logger, if both loops end. -/
def errorText (client : SmtpClient) (fuel : Nat) (what : Text) : Option Text := do
  let msg ← maskAll fuel client.username what
  let msg ← maskAll fuel client.password msg
  return ("SMTP Error: " : Text) ++ msg

/-- The loops end, and a password of more than six characters without a star is not in the text. -/
def Masks (client : SmtpClient) (what : Text) : Prop :=
  ∃ fuel text, client.errorText fuel what = some text ∧
    (6 < client.password.length → '*' ∉ client.password → ¬ client.password <:+: text)

/-- A text of which the first `start` characters are not searched shows the password: nothing is
found, and it is there; or it ends in front of the first that is found, or within the three
characters of it that stay; or it shows behind it, where as many characters are skipped as the
password is longer than its mask. -/
inductive Exposed (password : Text) : Nat → Text → Prop where
  | missed {start : Nat} {text : Text} (hfind : findFrom password text start = none)
      (h : password <:+: text) : Exposed password start text
  | inFront {start pos : Nat} {text : Text} (hfind : findFrom password text start = some pos)
      (h : password <:+: text.take (pos + 3)) : Exposed password start text
  | behind {start pos : Nat} {text : Text} (hfind : findFrom password text start = some pos)
      (h : Exposed password (password.length - 6) (text.drop (pos + password.length))) :
      Exposed password start text

/-! ## When the loops end -/

/-- There are three stars in a mask. -/
theorem not_infix_stars {key : Text} (h : 3 < key.length) : ¬ key <:+: ("***" : Text) := by
  intro hstars
  have hlength := hstars.length_le
  have hthree : ("***" : Text).length = 3 := rfl
  omega

/-- What is searched again of the mask of a short key are its stars. -/
theorem infix_drop_maskOf_iff (key : Text) :
    key <:+: (maskOf key).drop key.length ↔ key <:+: ("***" : Text) := by
  rcases Nat.lt_or_ge key.length 4 with hshort | hlong
  · rw [maskOf, List.take_of_length_le (by omega), List.drop_left]
  · refine iff_of_false (fun h => ?_) (not_infix_stars hlong)
    have hlength := h.length_le
    rw [List.length_drop, maskOf, List.length_append, List.length_take] at hlength
    have hthree : ("***" : Text).length = 3 := rfl
    omega

/-- A loop ends exactly when the key is not one that its mask has again, or does not occur. -/
theorem maskAll_ends_iff (key msg : Text) :
    (∃ fuel out, maskAll fuel key msg = some out) ↔
      ¬ (key <:+: ("***" : Text) ∧ key <:+: msg) := by
  unfold maskAll
  rw [replaceLoop_ends_iff, infix_drop_maskOf_iff]

theorem maskAll_mono {fuel more : Nat} (hle : fuel ≤ more) {key msg out : Text}
    (h : maskAll fuel key msg = some out) : maskAll more key msg = some out :=
  replaceLoop_mono hle h

/-- However much fuel there is, the text is the same. -/
theorem maskAll_unique {fuel more : Nat} {key msg out out' : Text}
    (h : maskAll fuel key msg = some out) (h' : maskAll more key msg = some out') : out = out' :=
  Option.some.inj ((maskAll_mono (Nat.le_max_left fuel more) h).symm.trans
    (maskAll_mono (Nat.le_max_right fuel more) h'))

/-- Some stars are in a text with a masked key when they are in the text or the key is. -/
theorem stars_infix_iff {stars : Text} (hstars : stars <:+: ("***" : Text)) {key msg out : Text}
    {fuel : Nat} (h : maskAll fuel key msg = some out) :
    stars <:+: out ↔ stars <:+: msg ∨ key <:+: msg := by
  rw [maskAll, replaceLoop_start] at h
  by_cases hkey : key <:+: msg
  · refine iff_of_true ?_ (.inr hkey)
    have hmask := mask_infix_of_replaceRest hkey h
    exact hstars.trans ((List.suffix_append _ _).isInfix.trans hmask)
  · rw [replaceRest_of_absent hkey h, or_iff_left hkey]

/-- The text that the second loop starts with. -/
theorem errorText_eq_some_iff (client : SmtpClient) (fuel : Nat) (what text : Text) :
    client.errorText fuel what = some text ↔
      ∃ msg out, maskAll fuel client.username what = some msg ∧
        maskAll fuel client.password msg = some out ∧ text = ("SMTP Error: " : Text) ++ out := by
  unfold errorText
  simp only [bind, Option.bind_eq_some_iff, pure, Option.some.injEq]
  constructor
  · rintro ⟨msg, hmsg, out, hout, rfl⟩
    exact ⟨msg, out, hmsg, hout, rfl⟩
  · rintro ⟨msg, out, hmsg, hout, rfl⟩
    exact ⟨msg, hmsg, out, hout, rfl⟩

/-- The error path reaches the logger exactly when neither key is one to three stars or empty and
occurs where it is searched for. -/
theorem errorText_ends_iff (client : SmtpClient) (what : Text) :
    (∃ fuel text, client.errorText fuel what = some text) ↔
      ¬ (client.username <:+: ("***" : Text) ∧ client.username <:+: what) ∧
        ¬ (client.password <:+: ("***" : Text) ∧
          (client.password <:+: what ∨ client.username <:+: what)) := by
  simp only [errorText_eq_some_iff]
  constructor
  · rintro ⟨fuel, text, msg, out, hmsg, hout, -⟩
    refine ⟨(maskAll_ends_iff _ _).mp ⟨fuel, msg, hmsg⟩, fun ⟨hstars, hoccurs⟩ => ?_⟩
    exact (maskAll_ends_iff _ _).mp ⟨fuel, out, hout⟩
      ⟨hstars, (stars_infix_iff hstars hmsg).mpr hoccurs⟩
  · rintro ⟨husername, hpassword⟩
    obtain ⟨fuel, msg, hmsg⟩ := (maskAll_ends_iff _ _).mpr husername
    obtain ⟨more, out, hout⟩ := (maskAll_ends_iff client.password msg).mpr fun ⟨hstars, hoccurs⟩ =>
      hpassword ⟨hstars, (stars_infix_iff hstars hmsg).mp hoccurs⟩
    exact ⟨max fuel more, _, msg, out, maskAll_mono (Nat.le_max_left _ _) hmsg,
      maskAll_mono (Nat.le_max_right _ _) hout, rfl⟩

/-! ## What is left of the password -/

/-- A text with a mask in it has the password in front of the stars or behind them. -/
theorem infix_masked_iff {password : Text} (hstar : '*' ∉ password) (front back : Text) :
    password <:+: front ++ (maskOf password ++ back) ↔
      password <:+: front ++ password.take 3 ∨ password <:+: back := by
  have hstars : front ++ (maskOf password ++ back) =
      (front ++ password.take 3) ++ '*' :: ([] ++ '*' :: ([] ++ '*' :: back)) := by
    rw [maskOf, List.append_assoc, ← List.append_assoc]
    rfl
  rw [hstars, infix_append_cons_iff hstar, infix_append_cons_iff hstar, infix_append_cons_iff hstar]
  constructor
  · rintro (h | h | h | h)
    · exact .inl h
    · exact .inl (h.trans List.nil_infix)
    · exact .inl (h.trans List.nil_infix)
    · exact .inr h
  · rintro (h | h)
    · exact .inl h
    · exact .inr (.inr (.inr h))

/-- The search goes on behind the mask of a long password, and behind some more characters. -/
theorem take_drop_masked {password : Text} (hlong : 6 < password.length) (back : Text) :
    (maskOf password ++ back).take password.length =
        maskOf password ++ back.take (password.length - 6) ∧
      (maskOf password ++ back).drop password.length = back.drop (password.length - 6) := by
  have hlength : (maskOf password).length = 6 := by
    rw [maskOf, List.length_append, List.length_take, Nat.min_eq_left (by omega)]
    rfl
  constructor
  · rw [List.take_append, hlength, List.take_of_length_le (by omega)]
  · rw [List.drop_append, hlength, List.drop_eq_nil_of_le (by omega), List.nil_append]

/-- What the loop leaves shows the password exactly when the text did, with the characters in front
that are not searched. The induction is on the fuel; a replacement leaves the text behind it, of
which the characters that are skipped are not searched. -/
theorem infix_masked_rest_iff {password : Text} (hlong : 6 < password.length)
    (hstar : '*' ∉ password) {fuel start : Nat} {text out : Text}
    (h : replaceRest password (maskOf password) fuel (text.drop start) = some out) :
    password <:+: text.take start ++ out ↔ Exposed password start text := by
  have hne : password ≠ [] := List.ne_nil_of_length_pos (by omega)
  induction fuel generalizing start text out with
  | zero => cases h
  | succ fuel ih =>
      rw [replaceRest] at h
      have hfind := findFrom_eq hne text start
      cases hpos : findIn password (text.drop start) with
      | none =>
          rw [hpos] at h hfind
          obtain rfl := Option.some.inj h
          rw [List.take_append_drop]
          constructor
          · exact .missed hfind
          · rintro (⟨-, hoccurs⟩ | ⟨hsome, -⟩ | ⟨hsome, -⟩)
            · exact hoccurs
            · cases hfind.symm.trans hsome
            · cases hfind.symm.trans hsome
      | some pos =>
          rw [hpos, Option.map_some] at hfind
          rw [hpos] at h
          have hrest : (text.drop start).drop (pos + password.length) =
              text.drop (start + pos + password.length) := by
            rw [List.drop_drop, Nat.add_assoc]
          have hkey : text.drop (start + pos) =
              password ++ text.drop (start + pos + password.length) := by
            have h := eq_of_findIn hpos
            rwa [hrest, List.drop_drop] at h
          obtain ⟨htake, hdrop⟩ := take_drop_masked hlong
            (text.drop (start + pos + password.length))
          dsimp only at h
          rw [hrest, htake, hdrop] at h
          obtain ⟨rest, hout, rfl⟩ := Option.map_eq_some_iff.mp h
          have hfront : text.take start ++ (text.drop start).take pos ++ password.take 3 =
              text.take (start + pos + 3) := by
            rw [← List.take_add, List.take_add (i := start + pos), hkey,
              List.take_append_of_le_length (by omega)]
          have hsplit : text.take start ++ ((text.drop start).take pos ++
              (maskOf password ++ (text.drop (start + pos + password.length)).take
                (password.length - 6)) ++ rest) =
              (text.take start ++ (text.drop start).take pos) ++ (maskOf password ++
                ((text.drop (start + pos + password.length)).take (password.length - 6) ++
                  rest)) := by
            simp only [List.append_assoc]
          have hbehind := ih hout
          rw [hsplit, infix_masked_iff hstar, hfront]
          constructor
          · rintro (hoccurs | hoccurs)
            · exact .inFront hfind hoccurs
            · exact .behind hfind (hbehind.mp hoccurs)
          · rintro (⟨hnone, -⟩ | ⟨hsome, hoccurs⟩ | ⟨hsome, hexposed⟩)
            · cases hfind.symm.trans hnone
            · obtain rfl := Option.some.inj (hfind.symm.trans hsome)
              exact .inl hoccurs
            · obtain rfl := Option.some.inj (hfind.symm.trans hsome)
              exact .inr (hbehind.mpr hexposed)

/-- The password is in the text that is logged exactly when it shows behind the words in front. -/
theorem infix_logged_iff {password msg out : Text} (hlong : 6 < password.length)
    (hstar : '*' ∉ password) {fuel : Nat} (h : maskAll fuel password msg = some out) :
    password <:+: ("SMTP Error: " : Text) ++ out ↔
      Exposed password 12 (("SMTP Error: " : Text) ++ msg) := by
  rw [maskAll, replaceLoop_start] at h
  have hrest : (("SMTP Error: " : Text) ++ msg).drop 12 = msg := rfl
  rw [← hrest] at h
  exact infix_masked_rest_iff hlong hstar h

/-- The error path masks the password exactly when both loops end, and the text that the second of
them starts with does not show it. -/
theorem masks_iff (client : SmtpClient) (what : Text) :
    client.Masks what ↔
      ¬ (client.username <:+: ("***" : Text) ∧ client.username <:+: what) ∧
        ¬ (client.password <:+: ("***" : Text) ∧
          (client.password <:+: what ∨ client.username <:+: what)) ∧
        (6 < client.password.length → '*' ∉ client.password →
          ∀ fuel msg, maskAll fuel client.username what = some msg →
            ¬ Exposed client.password 12 (("SMTP Error: " : Text) ++ msg)) := by
  rw [← and_assoc, ← errorText_ends_iff]
  constructor
  · rintro ⟨fuel, text, htext, hmasked⟩
    refine ⟨⟨fuel, text, htext⟩, fun hlong hstar more msg hmsg hexposed => ?_⟩
    obtain ⟨msg', out, hmsg', hout, rfl⟩ := (errorText_eq_some_iff ..).mp htext
    obtain rfl := maskAll_unique hmsg hmsg'
    exact hmasked hlong hstar ((infix_logged_iff hlong hstar hout).mpr hexposed)
  · rintro ⟨⟨fuel, text, htext⟩, hexposed⟩
    refine ⟨fuel, text, htext, fun hlong hstar hoccurs => ?_⟩
    obtain ⟨msg, out, hmsg, hout, rfl⟩ := (errorText_eq_some_iff ..).mp htext
    exact hexposed hlong hstar fuel msg hmsg ((infix_logged_iff hlong hstar hout).mp hoccurs)

/-- A client without a user name. -/
def anonymous : SmtpClient := ⟨"example.com", "", "hunter22", fun text => text⟩

/-- A client with a password of eight characters. -/
def mailer : SmtpClient := ⟨"example.com", "mailer", "hunter22", fun text => text⟩

/-- A reply that has the password twice in a row. -/
def twice : Text := "SMTP Error: Expected 235, got 535 hunter22hunter22"

/-- An empty user name is replaced for ever, and of two passwords in a row one stays. -/
theorem credentials_stay :
    (∀ fuel, anonymous.errorText fuel "stoi" = none) ∧ ¬ anonymous.Masks "stoi" ∧
      mailer.errorText 3 twice =
        some "SMTP Error: SMTP Error: Expected 235, got 535 hun***hunter22" ∧
      ¬ mailer.Masks twice := by
  have hnever : ∀ fuel, anonymous.errorText fuel "stoi" = none := by
    intro fuel
    rw [Option.eq_none_iff_forall_ne_some]
    intro text htext
    exact ((errorText_ends_iff anonymous "stoi").mp ⟨fuel, text, htext⟩).1
      ⟨List.nil_infix, List.nil_infix⟩
  have htwice : mailer.errorText 3 twice =
      some "SMTP Error: SMTP Error: Expected 235, got 535 hun***hunter22" := by decide
  refine ⟨hnever, ?_, htwice, ?_⟩
  · rintro ⟨fuel, text, htext, -⟩
    cases (hnever fuel).symm.trans htext
  · rintro ⟨fuel, text, htext, hmasked⟩
    obtain ⟨msg, out, hmsg, hout, rfl⟩ := (errorText_eq_some_iff ..).mp htext
    obtain ⟨msg', out', hmsg', hout', heq⟩ := (errorText_eq_some_iff ..).mp htwice
    obtain rfl := maskAll_unique hmsg hmsg'
    obtain rfl := maskAll_unique hout hout'
    refine hmasked (by decide) (by decide) ?_
    rw [← heq]
    exact ⟨"SMTP Error: SMTP Error: Expected 235, got 535 hun***", [], by decide⟩

end SmtpClient

end Brazier
