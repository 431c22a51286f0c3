import Brazier.Cryptography.Hash

/-!
# What `verify` accepts

A text that `verify` accepts should be the derived bytes in hexadecimal digits. `verify_sound_iff`
says exactly when that is so: an empty text is accepted when nothing is derived, and a text that is
not hexadecimal when `strtol` takes it for the derived bytes all the same.
-/

namespace Brazier

namespace Hash

variable (config : Config) (ssl : OpenSsl) (password storedHash : Text) (salt : List UInt8)

/-- What `hash` returns is the text of what is derived. -/
theorem hash_eq :
    (hash config ssl password salt).1 =
      match derivation config ssl password salt with
      | none => []
      | some output => bytesToHexString output.toList := by
  unfold hash derivation
  cases ssl.fetch with
  | false => rfl
  | true =>
      cases ssl.newContext with
      | false => rfl
      | true =>
          simp only [if_true, and_self]
          cases ssl.derive config password (saltFor ssl salt) config.outputLength with
          | none => rfl
          | some output => rfl

/-! ## Reading hexadecimal digits -/

/-- Two digits are taken for the byte that they are the digits of. -/
theorem byte_of_digits {byte : UInt8} {high low : Nat} (hhigh : high = byte.toNat / 16)
    (hlow : low = byte.toNat % 16) : UInt8.ofNat (16 * high + low) = byte := by
  have hsum : 16 * high + low = byte.toNat := by omega
  rw [hsum, UInt8.ofNat_toNat]

/-- The digits of a byte below 256. -/
theorem digits_of_byte {byte : UInt8} {high low : Nat} (hhigh : high < 16) (hlow : low < 16)
    (hbyte : UInt8.ofNat (16 * high + low) = byte) :
    high = byte.toNat / 16 ∧ low = byte.toNat % 16 := by
  subst hbyte
  have hval : (UInt8.ofNat (16 * high + low)).toNat = 16 * high + low := by
    rw [UInt8.toNat_ofNat']
    omega
  rw [hval]
  omega

/-- Two hexadecimal digits. -/
def IsHexPair : Text → Bool
  | [c, d] => (hexDigit c).isSome && (hexDigit d).isSome
  | _ => false

/-- The bytes that a text is taken for. -/
def takenForBytes (text : Text) : List UInt8 :=
  (pairs text).map fun part => UInt8.ofNat (takenFor part)

/-- They are the bytes that are read. -/
theorem hexStringToBytes_eq (text : Text) : hexStringToBytes text = takenForBytes text :=
  List.map_congr_left fun _ hpart => castByte_strtolHex hpart

/-- A text encodes the bytes when it has two digits for each and is taken for them. -/
theorem encodes_iff (text : Text) (bytes : List UInt8) :
    Encodes text bytes ↔
      (∀ part ∈ pairs text, IsHexPair part = true) ∧ takenForBytes text = bytes := by
  unfold takenForBytes
  fun_induction Encodes text bytes with
  | case1 => simp [pairs]
  | case2 high low rest byte bytes ih =>
      rw [pairs, List.forall_mem_cons, List.map_cons, List.cons.injEq, ih]
      constructor
      · intro h
        obtain ⟨hhigh, hlow, hrest, htaken⟩ := h
        refine ⟨⟨?_, hrest⟩, ?_, htaken⟩
        · rw [IsHexPair, hhigh, hlow]
          rfl
        · simp only [takenFor, hhigh, hlow]
          exact byte_of_digits rfl rfl
      · intro h
        obtain ⟨⟨hpair, hrest⟩, hbyte, htaken⟩ := h
        rw [IsHexPair, Bool.and_eq_true] at hpair
        obtain ⟨h, hhigh⟩ := Option.isSome_iff_exists.mp hpair.1
        obtain ⟨l, hlow⟩ := Option.isSome_iff_exists.mp hpair.2
        simp only [takenFor, hhigh, hlow] at hbyte
        have hdigits := digits_of_byte (hexDigit_lt hhigh) (hexDigit_lt hlow) hbyte
        rw [hhigh, hlow, ← hdigits.1, ← hdigits.2]
        exact ⟨rfl, rfl, hrest, htaken⟩
  | case3 text bytes hnil hcons =>
      refine iff_of_false (fun h => h) fun h => ?_
      obtain ⟨hpairs, htaken⟩ := h
      cases text with
      | nil =>
          cases bytes with
          | nil => exact hnil rfl rfl
          | cons byte bytes => cases htaken
      | cons c text =>
          cases text with
          | nil => exact absurd (hpairs [c] List.mem_cons_self) (by simp [IsHexPair])
          | cons d rest =>
              cases bytes with
              | nil => cases htaken
              | cons byte bytes => exact hcons c d rest byte bytes rfl rfl

/-- What is written is an encoding. -/
theorem encodes_bytesToHexString (bytes : List UInt8) : Encodes (bytesToHexString bytes) bytes := by
  induction bytes with
  | nil => trivial
  | cons byte bytes ih =>
      have hbyte := byte.toNat_lt
      exact ⟨hexDigit_hexDigits (by omega), hexDigit_hexDigits (by omega), ih⟩

/-- What is written is read back. -/
theorem hexStringToBytes_bytesToHexString (bytes : List UInt8) :
    hexStringToBytes (bytesToHexString bytes) = bytes := by
  rw [hexStringToBytes_eq]
  exact ((encodes_iff _ bytes).mp (encodes_bytesToHexString bytes)).2

/-- Only an empty text is taken for no bytes. -/
theorem takenForBytes_eq_nil {text : Text} : takenForBytes text = [] ↔ text = [] := by
  unfold takenForBytes
  cases text with
  | nil => simp [pairs]
  | cons c text =>
      cases text with
      | nil => simp [pairs]
      | cons d rest => simp [pairs]

/-! ## Soundness -/

/-- `verify` accepts when the stored text is taken for what is derived. -/
theorem verify_iff :
    verify config ssl password storedHash salt = true ↔
      match derivation config ssl password salt with
      | none => storedHash = []
      | some output => takenForBytes storedHash = output.toList := by
  unfold verify
  rw [decide_eq_true_eq, hash_eq, hexStringToBytes_eq storedHash]
  cases derivation config ssl password salt with
  | none => exact takenForBytes_eq_nil
  | some output => rw [hexStringToBytes_bytesToHexString]

/-- Nothing was derived and the stored text is not empty, or something was and the stored text is
hexadecimal or taken for something else. -/
def Reliable (derived : Option (List UInt8)) (storedHash : Text) : Prop :=
  match derived with
  | none => storedHash ≠ []
  | some output =>
      (∀ part ∈ pairs storedHash, IsHexPair part = true) ∨ takenForBytes storedHash ≠ output

/-- What `verify` accepts encodes the derived bytes exactly when the stored text is reliable. -/
theorem verify_sound_iff :
    (verify config ssl password storedHash salt = true →
        ∃ output, derivation config ssl password salt = some output ∧
          Encodes storedHash output.toList) ↔
      Reliable ((derivation config ssl password salt).map Vector.toList) storedHash := by
  rw [verify_iff]
  cases derivation config ssl password salt with
  | none =>
      refine ⟨fun h hempty => ?_, fun h hempty => absurd hempty h⟩
      obtain ⟨output, hnone, -⟩ := h hempty
      cases hnone
  | some output =>
      simp only [Option.some.injEq, exists_eq_left', encodes_iff, Option.map_some, Reliable]
      constructor
      · intro h
        by_cases htaken : takenForBytes storedHash = output.toList
        · exact Or.inl (h htaken).1
        · exact Or.inr htaken
      · intro hreliable htaken
        rcases hreliable with hpairs | hother
        · exact ⟨hpairs, htaken⟩
        · exact absurd htaken hother

/-- An OpenSSL without Argon2id. -/
def noArgon2 : OpenSsl where
  fetch := false
  newContext := true
  randBytes _ := none
  derive _ _ _ _ := none

/-- Then an empty text is accepted for every password. -/
theorem empty_hash_accepted :
    ¬ (verify {} noArgon2 ("secret" : Text) [] [1, 2, 3, 4, 5, 6, 7, 8] = true →
        ∃ output, derivation {} noArgon2 ("secret" : Text) [1, 2, 3, 4, 5, 6, 7, 8] = some output ∧
          Encodes [] output.toList) := by
  intro h
  obtain ⟨output, hnone, -⟩ := h (by decide +kernel)
  cases hnone

end Hash

end Brazier
