import Mathlib.Data.Bool.AllAny
import Mathlib.Data.Char
import Mathlib.Data.List.Basic

/-!
# Percent-encoding

Characters that are not plain are written as `%` and two hexadecimal digits. A text of bytes is
decoded to itself (`decode_encode`), and `Encoded` says what such a text looks like.
-/

namespace ProofLib

namespace PercentCoding

/-- The digits that are written. -/
def digits : List Char := "0123456789ABCDEF".toList

/-- The digit of a number below 16. -/
def digit (n : Nat) : Char := digits.getD n '0'

/-- The number of a digit; letters of both cases are read. -/
def digitValue (c : Char) : Option Nat := digits.idxOf? c.toUpper

/-- Every character is a byte. -/
def IsBytes (text : List Char) : Prop := ∀ c ∈ text, c.toNat < 256

instance (text : List Char) : Decidable (IsBytes text) :=
  List.decidableBAll (fun c : Char => c.toNat < 256) text

/-- How a byte is written. -/
def encodeChar (plain : Char → Bool) (c : Char) : List Char :=
  if plain c then [c] else ['%', digit (c.toNat / 16), digit (c.toNat % 16)]

/-- How a text is written. -/
def encode (plain : Char → Bool) (text : List Char) : List Char := text.flatMap (encodeChar plain)

/-- Reads a text. A `%` without two digits behind it is an error. -/
def decode : List Char → Option (List Char)
  | [] => some []
  | '%' :: high :: low :: rest =>
      match digitValue high, digitValue low with
      | some h, some l => (decode rest).map (Char.ofNat (16 * h + l) :: ·)
      | _, _ => none
  | c :: rest => if c = '%' then none else (decode rest).map (c :: ·)

/-- The text has plain characters, and `%` with two digits behind it. -/
def Encoded (plain : Char → Bool) : List Char → Prop
  | [] => True
  | '%' :: high :: low :: rest => high ∈ digits ∧ low ∈ digits ∧ Encoded plain rest
  | c :: rest => plain c = true ∧ Encoded plain rest

/-! ## Digits -/

theorem digitValue_digit {n : Nat} (hn : n < 16) : digitValue (digit n) = some n := by
  have hall : ∀ i : Fin 16, digitValue (digit i) = some i.1 := by decide +kernel
  exact hall ⟨n, hn⟩

theorem digit_mem {n : Nat} (hn : n < 16) : digit n ∈ digits := by
  have hall : ∀ i : Fin 16, digit i ∈ digits := by decide +kernel
  exact hall ⟨n, hn⟩

theorem digit_mem_bytes {c : Char} (hc : c.toNat < 256) :
    digit (c.toNat / 16) ∈ digits ∧ digit (c.toNat % 16) ∈ digits :=
  ⟨digit_mem (by omega), digit_mem (by omega)⟩

/-! ## Decoding -/

theorem decode_cons {c : Char} (hc : c ≠ '%') (rest : List Char) :
    decode (c :: rest) = (decode rest).map (c :: ·) := by
  rw [decode, if_neg hc]
  rintro high low rest' rfl
  exact absurd rfl hc

/-- A byte in front of a text is read. -/
theorem decode_encodeChar {plain : Char → Bool} (hplain : plain '%' = false) {c : Char}
    (hc : c.toNat < 256) (rest : List Char) :
    decode (encodeChar plain c ++ rest) = (decode rest).map (c :: ·) := by
  rw [encodeChar]
  split
  · next h =>
      have hne : c ≠ '%' := by
        rintro rfl
        rw [hplain] at h
        cases h
      exact decode_cons hne rest
  · have hvalue : 16 * (c.toNat / 16) + c.toNat % 16 = c.toNat := by omega
    show decode ('%' :: digit (c.toNat / 16) :: digit (c.toNat % 16) :: rest) = _
    rw [decode, digitValue_digit (by omega), digitValue_digit (by omega)]
    dsimp only
    rw [hvalue, Char.ofNat_toNat]

/-- A text of bytes is read back. -/
theorem decode_encode {plain : Char → Bool} (hplain : plain '%' = false) {text : List Char}
    (htext : IsBytes text) : decode (encode plain text) = some text := by
  induction text with
  | nil => rfl
  | cons c text ih =>
      obtain ⟨hc, htext⟩ := List.forall_mem_cons.mp htext
      rw [encode, List.flatMap_cons, decode_encodeChar hplain hc, ← encode, ih htext]
      rfl

/-- Texts of bytes are written in different ways. -/
theorem encode_injOn {plain : Char → Bool} (hplain : plain '%' = false) {first second : List Char}
    (hfirst : IsBytes first) (hsecond : IsBytes second)
    (h : encode plain first = encode plain second) : first = second := by
  have hdecode := congrArg decode h
  rw [decode_encode hplain hfirst, decode_encode hplain hsecond] at hdecode
  exact Option.some.inj hdecode

/-! ## What an encoded text looks like -/

variable {plain : Char → Bool}

theorem Encoded.cons {c : Char} {rest : List Char} (hpercent : plain '%' = false)
    (hc : plain c = true) (hrest : Encoded plain rest) : Encoded plain (c :: rest) := by
  rw [Encoded]
  · exact ⟨hc, hrest⟩
  · rintro high low rest' rfl
    rw [hpercent] at hc
    cases hc

theorem Encoded.append {first second : List Char} (hpercent : plain '%' = false)
    (hfirst : Encoded plain first) (hsecond : Encoded plain second) :
    Encoded plain (first ++ second) := by
  fun_induction Encoded plain first with
  | case1 => exact hsecond
  | case2 high low rest ih => exact ⟨hfirst.1, hfirst.2.1, ih hfirst.2.2⟩
  | case3 c rest _ ih => exact (ih hfirst.2).cons hpercent hfirst.1

/-- What is written is encoded, also where more characters count as plain. -/
theorem encoded_encode {written : Char → Bool} (hpercent : plain '%' = false)
    (hwritten : ∀ c, written c = true → plain c = true) {text : List Char} (htext : IsBytes text) :
    Encoded plain (encode written text) := by
  induction text with
  | nil => trivial
  | cons c text ih =>
      obtain ⟨hc, htext⟩ := List.forall_mem_cons.mp htext
      rw [encode, List.flatMap_cons, ← encode, encodeChar]
      split
      · next h => exact (ih htext).cons hpercent (hwritten c h)
      · exact ⟨(digit_mem_bytes hc).1, (digit_mem_bytes hc).2, ih htext⟩

/-- Its characters are plain, or `%` and digits. -/
theorem Encoded.mem {text : List Char} (h : Encoded plain text) {c : Char} (hc : c ∈ text) :
    plain c = true ∨ c = '%' ∨ c ∈ digits := by
  fun_induction Encoded plain text with
  | case1 => cases hc
  | case2 high low rest ih =>
      rcases List.mem_cons.mp hc with rfl | hc
      · exact .inr (.inl rfl)
      · rcases List.mem_cons.mp hc with rfl | hc
        · exact .inr (.inr h.1)
        · rcases List.mem_cons.mp hc with rfl | hc
          · exact .inr (.inr h.2.1)
          · exact ih h.2.2 hc
  | case3 d rest _ ih =>
      rcases List.mem_cons.mp hc with rfl | hc
      · exact .inl h.1
      · exact ih h.2 hc

/-- Behind every `%` there are two digits. -/
theorem Encoded.digits_behind {text : List Char} (h : Encoded plain text)
    (hpercent : plain '%' = false) {front rest : List Char} (htext : text = front ++ '%' :: rest) :
    ∃ high low more, rest = high :: low :: more ∧ high ∈ digits ∧ low ∈ digits := by
  have hdigit : ∀ c ∈ digits, c ≠ '%' := List.all_iff_forall_prop.mp (by decide)
  fun_induction Encoded plain text generalizing front with
  | case1 => simp at htext
  | case2 high low more ih =>
      match front, htext with
      | [], htext =>
          cases htext
          exact ⟨high, low, more, rfl, h.1, h.2.1⟩
      | [_], htext =>
          cases htext
          exact absurd rfl (hdigit '%' h.1)
      | [_, _], htext =>
          cases htext
          exact absurd rfl (hdigit '%' h.2.1)
      | _ :: _ :: _ :: front, htext =>
          simp only [List.cons_append, List.cons.injEq] at htext
          exact ih h.2.2 htext.2.2.2
  | case3 c more _ ih =>
      cases front with
      | nil =>
          cases htext
          rw [hpercent] at h
          cases h.1
      | cons d front =>
          simp only [List.cons_append, List.cons.injEq] at htext
          exact ih h.2 htext.2

end PercentCoding

end ProofLib
