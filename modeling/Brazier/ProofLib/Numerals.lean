import Mathlib.Data.List.Basic
import Mathlib.Data.List.Induction
import Mathlib.Data.Nat.Digits.Defs

/-!
# Numerals

A numeral of a number is a text of digits that has the value of the number and no leading zeros;
zero is a single `0`. The base is any up to ten. `numeral_iff` says that each number has one
numeral, and `Numeral.length_le_iff` says how long it is.
-/

namespace ProofLib

variable {b n d : Nat} {text : List Char}

/-- The text is a numeral of the number. -/
structure Numeral (b n : Nat) (text : List Char) : Prop where
  digits : ∀ c ∈ text, c.isDigit = true ∧ c.toNat - '0'.toNat < b
  noLeadingZero : text.head? = some '0' → text = ['0']
  value : Nat.ofDigitChars b text 0 = n
  ne_nil : text ≠ []

/-- The digits of a base are the characters of the numbers below it. -/
theorem digit_iff (hb : b ≤ 10) {c : Char} :
    c.isDigit = true ∧ c.toNat - '0'.toNat < b ↔ ∃ d < b, c = d.digitChar := by
  constructor
  · rintro ⟨hdigit, hlt⟩
    refine ⟨_, hlt, ?_⟩
    obtain ⟨hlow, hhigh⟩ := Char.isDigit_iff_toNat.mp hdigit
    have hback := Nat.toNat_digitChar_of_lt_ten (show c.toNat - '0'.toNat < 10 by omega)
    refine Char.ext (UInt32.toNat_inj.mp ?_)
    show c.toNat = (c.toNat - '0'.toNat).digitChar.toNat
    have hzero : '0'.toNat = 48 := rfl
    omega
  · rintro ⟨d, hd, rfl⟩
    have hten : d < 10 := by omega
    have hvalue : d.digitChar.toNat - '0'.toNat = d := Nat.toNat_digitChar_sub_48_of_lt_ten hten
    constructor
    · rw [Nat.isDigit_digitChar, decide_eq_true_eq]
      exact hten
    · rw [hvalue]
      exact hd

/-- The value with one more digit. -/
theorem value_append_digit (hd : d < 10) (text : List Char) :
    Nat.ofDigitChars b (text ++ [d.digitChar]) 0 = b * Nat.ofDigitChars b text 0 + d := by
  rw [Nat.ofDigitChars_append, Nat.ofDigitChars_cons_digitChar_of_lt_ten hd, Nat.ofDigitChars_nil]

/-- A number below the base has a numeral of one digit. -/
theorem numeral_digit (hb : b ≤ 10) (hd : d < b) : Numeral b d [d.digitChar] where
  digits := by
    intro c hc
    rw [List.mem_singleton.mp hc]
    exact (digit_iff hb).mpr ⟨d, hd, rfl⟩
  noLeadingZero := by
    intro h
    rw [List.head?_cons, Option.some.injEq] at h
    rw [h]
  value := by
    rw [Nat.ofDigitChars_cons_digitChar_of_lt_ten (by omega), Nat.ofDigitChars_nil]
    omega
  ne_nil := List.cons_ne_nil _ _

/-- A digit behind the numeral of a number that is not zero. -/
theorem Numeral.append_digit (hb : b ≤ 10) (h : Numeral b n text) (hn : 0 < n) (hd : d < b) :
    Numeral b (b * n + d) (text ++ [d.digitChar]) where
  digits := by
    intro c hc
    rcases List.mem_append.mp hc with hc | hc
    · exact h.digits c hc
    · rw [List.mem_singleton.mp hc]
      exact (digit_iff hb).mpr ⟨d, hd, rfl⟩
  noLeadingZero := by
    intro hzero
    rw [List.head?_append_of_ne_nil _ h.ne_nil] at hzero
    -- a numeral that begins with a zero is the one of zero
    have hvalue := h.value
    rw [h.noLeadingZero hzero] at hvalue
    have hdigit : Nat.ofDigitChars b ['0'] 0 = 0 := by
      show b * 0 + 0 = 0
      omega
    omega
  value := by rw [value_append_digit (by omega), h.value]
  ne_nil := List.append_ne_nil_of_right_ne_nil _ (List.cons_ne_nil _ _)

/-- The digits of a number that `Nat.toDigits` gives are its numeral. -/
theorem numeral_toDigits (hb' : 1 < b) (hb : b ≤ 10) (n : Nat) :
    Numeral b n (Nat.toDigits b n) := by
  induction n using Nat.base_induction b hb' with
  | single m hm =>
      rw [Nat.toDigits_of_lt_base hm]
      exact numeral_digit hb hm
  | digit m k hk hm ih =>
      rw [← Nat.toDigits_append_toDigits hb' hm hk, Nat.toDigits_of_lt_base hk]
      exact ih.append_digit hb hm hk

/-- A number has no other numeral. -/
theorem Numeral.eq_toDigits (hb' : 1 < b) (hb : b ≤ 10) (h : Numeral b n text) :
    text = Nat.toDigits b n := by
  induction text using List.reverseRecOn generalizing n with
  | nil => exact absurd rfl h.ne_nil
  | append_singleton text c ih =>
      obtain ⟨d, hd, rfl⟩ := (digit_iff hb).mp (h.digits c (List.mem_append_right _ (by simp)))
      have hvalue := h.value
      rw [value_append_digit (by omega)] at hvalue
      by_cases htext : text = []
      · subst htext
        rw [Nat.ofDigitChars_nil, Nat.mul_zero, Nat.zero_add] at hvalue
        rw [← hvalue, Nat.toDigits_of_lt_base hd, List.nil_append]
      · -- the digits in front are the numeral of the quotient, which is not zero
        have hhead : text.head? ≠ some '0' := by
          intro hzero
          have hall := h.noLeadingZero (by rw [List.head?_append_of_ne_nil _ htext, hzero])
          have hlength := congrArg List.length hall
          rw [List.length_append] at hlength
          have hpos := List.length_pos_iff.mpr htext
          simp only [List.length_singleton] at hlength
          omega
        have hfront : Numeral b (Nat.ofDigitChars b text 0) text :=
          ⟨fun c hc => h.digits c (List.mem_append_left _ hc), fun hzero => absurd hzero hhead, rfl,
            htext⟩
        have hdigits := ih hfront
        have hpos : 0 < Nat.ofDigitChars b text 0 := by
          rcases Nat.eq_zero_or_pos (Nat.ofDigitChars b text 0) with hzero | hpos
          · rw [hzero, Nat.toDigits_zero] at hdigits
            rw [hdigits] at hhead
            exact absurd rfl hhead
          · exact hpos
        calc text ++ [d.digitChar]
            = Nat.toDigits b (Nat.ofDigitChars b text 0) ++ Nat.toDigits b d := by
              rw [← hdigits, Nat.toDigits_of_lt_base hd]
          _ = Nat.toDigits b n := by
              rw [Nat.toDigits_append_toDigits hb' hpos hd, hvalue]

/-- Each number has one numeral. -/
theorem numeral_iff (hb' : 1 < b) (hb : b ≤ 10) : Numeral b n text ↔ text = Nat.toDigits b n := by
  refine ⟨Numeral.eq_toDigits hb' hb, ?_⟩
  rintro rfl
  exact numeral_toDigits hb' hb n

/-- The powers of the base bound the lengths of the numerals. -/
theorem Numeral.length_le_iff (hb' : 1 < b) (hb : b ≤ 10) (h : Numeral b n text) {k : Nat}
    (hk : 0 < k) : text.length ≤ k ↔ n < b ^ k := by
  rw [h.eq_toDigits hb' hb]
  exact Nat.length_toDigits_le_iff hb' hk

end ProofLib
