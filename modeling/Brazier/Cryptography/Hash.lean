import Brazier.Text

/-!
# Password hashes

`Hash` of `src/Hash.cpp`. OpenSSL is a parameter: every call of it may fail, and what it derives and
generates is arbitrary. `verify` compares the bytes that `strtol` makes of two texts, one of which
is empty when nothing was derived. `takenFor` is a table of what `strtol` makes of two characters.
-/

namespace Brazier

namespace Hash

/-- The static members. -/
structure Config where
  iterations : Nat := 10
  memoryCost : Nat := 16
  parallelism : Nat := 1
  outputLength : Nat := 32
  deriving DecidableEq

/-- What OpenSSL does when it is called: whether Argon2id is there and a context is made, the random
bytes, and the bytes that are derived from the parameters, a password and a salt. -/
structure OpenSsl where
  fetch : Bool
  newContext : Bool
  randBytes : (length : Nat) → Option (Vector UInt8 length)
  derive : Config → Text → List UInt8 → (length : Nat) → Option (Vector UInt8 length)

/-- `generateSalt`. -/
def generateSalt (ssl : OpenSsl) (length : Nat) : List UInt8 :=
  match ssl.randBytes length with
  | none => []
  | some salt => salt.toList

/-- The digits of `std::hex`. -/
def hexDigits : List Char := "0123456789abcdef".toList

/-- A byte in `std::hex`, two characters wide, filled with zeros. -/
def hexByte (byte : UInt8) : Text :=
  [hexDigits.getD (byte.toNat / 16) '0', hexDigits.getD (byte.toNat % 16) '0']

/-- `bytesToHexString`. -/
def bytesToHexString (bytes : List UInt8) : Text := bytes.flatMap hexByte

/-- The salt that `hash` derives with. -/
def saltFor (ssl : OpenSsl) (salt : List UInt8) : List UInt8 :=
  if salt.length > 0 then salt else generateSalt ssl 64

/-- `hash`. Whatever fails, the result is the pair of an empty text and an empty salt. -/
def hash (config : Config) (ssl : OpenSsl) (password : Text) (salt : List UInt8) :
    Text × List UInt8 :=
  if ssl.fetch then
    if ssl.newContext then
      match ssl.derive config password (saltFor ssl salt) config.outputLength with
      | none => ([], [])
      | some output => (bytesToHexString output.toList, saltFor ssl salt)
    else ([], [])
  else ([], [])

/-- `isspace`. -/
def isSpace (c : Char) : Bool := [' ', '\t', '\n', '\x0b', '\x0c', '\r'].contains c

/-- The value of a hexadecimal digit, in either letter case. -/
def hexDigit (c : Char) : Option Nat := hexDigits.idxOf? c.toLower

/-- The number that the digits in front of a text stand for, behind `acc`. -/
def hexValue (acc : Nat) : Text → Nat
  | [] => acc
  | c :: rest =>
      match hexDigit c with
      | none => acc
      | some digit => hexValue (16 * acc + digit) rest

/-- `strtol` in base 16, of at most two characters: behind blanks and a sign there is no room for a
prefix `0x` and a digit. -/
def strtolHex (text : Text) : Int :=
  match text.dropWhile isSpace with
  | '-' :: rest => -hexValue 0 rest
  | '+' :: rest => hexValue 0 rest
  | rest => hexValue 0 rest

/-- `static_cast<uint8_t>` of a number. -/
def castByte (value : Int) : UInt8 := UInt8.ofNat (value % 256).toNat

/-- The texts `hex.substr(i, 2)`. -/
def pairs : Text → List Text
  | [] => []
  | [c] => [[c]]
  | c :: d :: rest => [c, d] :: pairs rest

/-- `hexStringToBytes`. -/
def hexStringToBytes (hex : Text) : List UInt8 :=
  (pairs hex).map fun part => castByte (strtolHex part)

/-- `verify`. -/
def verify (config : Config) (ssl : OpenSsl) (password storedHash : Text) (salt : List UInt8) :
    Bool :=
  hexStringToBytes storedHash = hexStringToBytes (hash config ssl password salt).1

/-- What is derived for a password and a salt, if anything is. -/
def derivation (config : Config) (ssl : OpenSsl) (password : Text) (salt : List UInt8) :
    Option (Vector UInt8 config.outputLength) :=
  if ssl.fetch ∧ ssl.newContext then
    ssl.derive config password (saltFor ssl salt) config.outputLength
  else none

/-- The text is the bytes in hexadecimal digits, two for a byte, in either letter case. -/
def Encodes : Text → List UInt8 → Prop
  | [], [] => True
  | high :: low :: rest, byte :: bytes =>
      hexDigit high = some (byte.toNat / 16) ∧ hexDigit low = some (byte.toNat % 16) ∧
        Encodes rest bytes
  | _, _ => False

/-! ## Digits -/

/-- A digit is less than 16. -/
theorem hexDigit_lt {c : Char} {digit : Nat} (h : hexDigit c = some digit) : digit < 16 := by
  have hmem := List.findIdx?_eq_some_iff_getElem.mp h
  exact hmem.1

theorem hexDigit_getD_lt (c : Char) : (hexDigit c).getD 0 < 16 := by
  cases hc : hexDigit c with
  | some digit => exact hexDigit_lt hc
  | none => exact Nat.zero_lt_succ 15

/-- What is written for a digit is read as the digit. -/
theorem hexDigit_hexDigits {digit : Nat} (h : digit < 16) :
    hexDigit (hexDigits.getD digit '0') = some digit := by
  have hall : ∀ d : Fin 16, hexDigit (hexDigits.getD d '0') = some d.1 := by decide
  exact hall ⟨digit, h⟩

/-- Blanks and signs are no digits. -/
theorem hexDigit_eq_none {c : Char} (h : isSpace c = true ∨ c = '-' ∨ c = '+') :
    hexDigit c = none := by
  have hall : ∀ c ∈ [' ', '\t', '\n', '\x0b', '\x0c', '\r', '-', '+'], hexDigit c = none :=
    List.forall_iff_forall_mem.mp (by decide)
  refine hall c ?_
  rcases h with hspace | rfl | rfl
  · have hmem := List.contains_iff_mem.mp hspace
    exact List.mem_append_left ['-', '+'] hmem
  · simp
  · simp

/-! ## What `strtol` reads -/

theorem hexValue_digit {c : Char} {digit : Nat} (h : hexDigit c = some digit) (acc : Nat)
    (rest : Text) : hexValue acc (c :: rest) = hexValue (16 * acc + digit) rest := by
  rw [hexValue, h]

theorem hexValue_other {c : Char} (h : hexDigit c = none) (acc : Nat) (rest : Text) :
    hexValue acc (c :: rest) = acc := by
  rw [hexValue, h]

theorem strtolHex_minus (rest : Text) : strtolHex ('-' :: rest) = -(hexValue 0 rest : Int) := rfl

theorem strtolHex_plus (rest : Text) : strtolHex ('+' :: rest) = hexValue 0 rest := rfl

theorem strtolHex_blank {c : Char} (h : isSpace c = true) (rest : Text) :
    strtolHex (c :: rest) = strtolHex rest := by
  unfold strtolHex
  rw [List.dropWhile_cons_of_pos h]

/-- Without a blank or a sign the digits begin at once. -/
theorem strtolHex_plain {c : Char} (hspace : isSpace c = false) (hminus : c ≠ '-')
    (hplus : c ≠ '+') (rest : Text) : strtolHex (c :: rest) = hexValue 0 (c :: rest) := by
  unfold strtolHex
  rw [List.dropWhile_cons_of_neg (by simp [hspace])]
  split
  · next heq => exact absurd (List.cons.inj heq).1 hminus
  · next heq => exact absurd (List.cons.inj heq).1 hplus
  · rfl

/-- A digit in front. -/
theorem strtolHex_digit {c : Char} {digit : Nat} (h : hexDigit c = some digit) (rest : Text) :
    strtolHex (c :: rest) = hexValue digit rest := by
  have hnot : ¬ (isSpace c = true ∨ c = '-' ∨ c = '+') := by
    intro hc
    rw [hexDigit_eq_none hc] at h
    cases h
  rw [not_or, not_or, Bool.not_eq_true] at hnot
  rw [strtolHex_plain hnot.1 hnot.2.1 hnot.2.2, hexValue_digit h, Nat.mul_zero, Nat.zero_add]

/-- The digit in front of a text, 0 when there is none. -/
theorem hexValue_single (c : Char) : hexValue 0 [c] = (hexDigit c).getD 0 := by
  cases hc : hexDigit c with
  | some digit => rw [hexValue_digit hc, hexValue, Option.getD_some, Nat.mul_zero, Nat.zero_add]
  | none => rw [hexValue_other hc, Option.getD_none]

/-- The byte that a part of a text is taken for: two digits are what they say, a digit in front of
something else or behind a blank or a plus sign counts alone, behind a minus sign it counts from 256
downwards, and all else is 0. -/
def takenFor : Text → Nat
  | [c] => (hexDigit c).getD 0
  | [c, d] =>
      match hexDigit c, hexDigit d with
      | some high, some low => 16 * high + low
      | some digit, none => digit
      | none, second =>
          if c = '-' then (256 - second.getD 0) % 256
          else if c = '+' ∨ isSpace c = true then second.getD 0
          else 0
  | _ => 0

/-- One character. -/
theorem strtolHex_single (c : Char) : strtolHex [c] = ((hexDigit c).getD 0 : Nat) := by
  by_cases hspace : isSpace c = true
  · rw [strtolHex_blank hspace, hexDigit_eq_none (Or.inl hspace)]
    rfl
  · by_cases hminus : c = '-'
    · subst hminus
      rfl
    · by_cases hplus : c = '+'
      · subst hplus
        rfl
      · rw [strtolHex_plain (Bool.eq_false_iff.mpr hspace) hminus hplus, hexValue_single]

/-- Two characters without a digit in front, up to multiples of 256. -/
theorem strtolHex_no_digit {c : Char} (hc : hexDigit c = none) (d : Char) :
    (strtolHex [c, d] % 256).toNat = takenFor [c, d] := by
  have hdigit := hexDigit_getD_lt d
  simp only [takenFor, hc]
  by_cases hminus : c = '-'
  · subst hminus
    rw [strtolHex_minus, hexValue_single, if_pos rfl]
    omega
  · rw [if_neg hminus]
    by_cases hspace : isSpace c = true
    · rw [strtolHex_blank hspace, strtolHex_single, if_pos (Or.inr hspace)]
      omega
    · by_cases hplus : c = '+'
      · subst hplus
        rw [strtolHex_plus, hexValue_single, if_pos (Or.inl rfl)]
        omega
      · rw [strtolHex_plain (Bool.eq_false_iff.mpr hspace) hminus hplus, hexValue_other hc,
          if_neg (not_or.mpr ⟨hplus, hspace⟩)]
        rfl

/-- Two characters, up to multiples of 256. -/
theorem strtolHex_pair (c d : Char) : (strtolHex [c, d] % 256).toNat = takenFor [c, d] := by
  cases hc : hexDigit c with
  | none => exact strtolHex_no_digit hc d
  | some high =>
      have hhigh := hexDigit_lt hc
      rw [strtolHex_digit hc]
      cases hd : hexDigit d with
      | some low =>
          have hlow := hexDigit_lt hd
          rw [hexValue_digit hd, hexValue]
          simp only [takenFor, hc, hd]
          omega
      | none =>
          rw [hexValue_other hd]
          simp only [takenFor, hc, hd]
          omega

/-- Every part of a text is taken for what the table says. -/
theorem castByte_strtolHex {text part : Text} (hpart : part ∈ pairs text) :
    castByte (strtolHex part) = UInt8.ofNat (takenFor part) := by
  unfold castByte
  fun_induction pairs text with
  | case1 => cases hpart
  | case2 c =>
      rw [List.mem_singleton] at hpart
      subst hpart
      have hdigit := hexDigit_getD_lt c
      rw [strtolHex_single, takenFor]
      congr 1
      omega
  | case3 c d rest ih =>
      rcases List.mem_cons.mp hpart with rfl | hrest
      · rw [strtolHex_pair]
      · exact ih hrest

end Hash

end Brazier
