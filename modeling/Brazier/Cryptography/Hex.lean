import Brazier.Cryptography.AES
import Brazier.Cryptography.Verification

/-!
# Hexadecimal digits

`toHex` and `fromHex` of `AES256`, and how they agree with `bytesToHexString` and
`hexStringToBytes` of `Hash`. `fromHex_ok_iff` says that `fromHex` accepts a text exactly when it
encodes the bytes that are returned; `hexStringToBytes` reads such a text in the same way.
-/

namespace Brazier

namespace AES256

/-- `hexChars`. -/
def hexChars : List Char := "0123456789abcdef".toList

/-- `toHex`. -/
def toHex (binary : Bytes) : Text :=
  binary.flatMap fun (c : UInt8) =>
    [hexChars.getD (c >>> 4).toNat '0', hexChars.getD (c &&& 0x0F).toNat '0']

/-- What `fromHex` takes a character for. -/
def nibble (c : Char) : Option UInt8 :=
  if '0' ≤ c ∧ c ≤ '9' then some (UInt8.ofNat (c.toNat - '0'.toNat))
  else if 'a' ≤ c ∧ c ≤ 'f' then some (UInt8.ofNat (c.toNat - 'a'.toNat + 10))
  else if 'A' ≤ c ∧ c ≤ 'F' then some (UInt8.ofNat (c.toNat - 'A'.toNat + 10))
  else none

/-- The loop of `fromHex`. -/
def fromHexLoop : Text → Except Text Bytes
  | high :: low :: rest =>
      match nibble high with
      | none => .error ("Invalid hex character" : Text)
      | some h =>
          match nibble low with
          | none => .error ("Invalid hex character" : Text)
          | some l => do
              let binary ← fromHexLoop rest
              .ok ((h <<< 4 ||| l) :: binary)
  | _ => .ok []

/-- `fromHex`. -/
def fromHex (hex : Text) : Except Text Bytes :=
  if hex.length % 2 ≠ 0 then .error ("Invalid hex string length" : Text) else fromHexLoop hex

/-- The characters `[0-9a-fA-F]`. -/
def IsHexDigit (c : Char) : Prop :=
  ('0' ≤ c ∧ c ≤ '9') ∨ ('a' ≤ c ∧ c ≤ 'f') ∨ ('A' ≤ c ∧ c ≤ 'F')

/-! ## Characters -/

theorem nibble_isSome_iff {c : Char} : (nibble c).isSome = true ↔ IsHexDigit c := by
  unfold nibble IsHexDigit
  split
  · next h => simp [h]
  · split
    · next h => simp [h]
    · split
      · next h => simp [h]
      · next h₀ h₁ h₂ => simp [h₀, h₁, h₂]

/-- A digit is an ASCII character. -/
theorem IsHexDigit.lt {c : Char} (h : IsHexDigit c) : c.toNat < 128 := by
  obtain h | h | h := h
  · exact Nat.lt_of_le_of_lt (Char.le_def.mp h.2) (by decide)
  · exact Nat.lt_of_le_of_lt (Char.le_def.mp h.2) (by decide)
  · exact Nat.lt_of_le_of_lt (Char.le_def.mp h.2) (by decide)

/-- Both readers take a character for the same digit. -/
theorem hexDigit_eq (c : Char) : Hash.hexDigit c = (nibble c).map UInt8.toNat := by
  have hall : ∀ i : Fin 128,
      Hash.hexDigit (Char.ofNat i) = (nibble (Char.ofNat i)).map UInt8.toNat := by decide +kernel
  by_cases hlt : c.toNat < 128
  · have hc := hall ⟨c.toNat, hlt⟩
    rwa [Char.ofNat_toNat] at hc
  · have hnibble : nibble c = none := by
      rw [← Option.not_isSome_iff_eq_none, nibble_isSome_iff]
      exact fun h => hlt h.lt
    have hnot : ¬ (c.val ≥ 'A'.val ∧ c.val ≤ 'Z'.val) := fun h =>
      hlt (Nat.lt_of_le_of_lt (UInt32.le_iff_toNat_le.mp h.2) (by decide))
    have hlower : c.toLower = c := dif_neg hnot
    have hsmall : ∀ d ∈ Hash.hexDigits, d.toNat < 128 := by
      have hbool : Hash.hexDigits.all (fun d => d.toNat < 128) = true := by decide +kernel
      simpa using hbool
    rw [hnibble, Option.map_none, Hash.hexDigit, hlower, List.idxOf?_eq_none_iff]
    exact fun hmem => hlt (hsmall c hmem)

theorem hexDigit_isSome_iff {c : Char} :
    (∃ digit, Hash.hexDigit c = some digit) ↔ IsHexDigit c := by
  rw [← Option.isSome_iff_exists, hexDigit_eq, Option.isSome_map, nibble_isSome_iff]

/-- A digit in lower case is the one that is written for its value. -/
theorem toLower_of_hexDigit {c : Char} {digit : Nat} (h : Hash.hexDigit c = some digit) :
    c.toLower = Hash.hexDigits.getD digit '0' := by
  obtain ⟨hlt, heq, _⟩ := List.findIdx?_eq_some_iff_getElem.mp h
  rw [List.getD_eq_getElem?_getD, List.getElem?_eq_getElem hlt, Option.getD_some]
  exact (beq_iff_eq.mp heq).symm

/-! ## Writing -/

/-- Both writers give the same text. -/
theorem toHex_eq (binary : Bytes) : toHex binary = Hash.bytesToHexString binary := by
  refine List.flatMap_congr fun c _ => ?_
  have hhigh : (c >>> 4).toNat = c.toNat / 16 := by
    rw [UInt8.toNat_shiftRight]
    exact Nat.shiftRight_eq_div_pow _ 4
  have hlow : (c &&& 0x0F).toNat = c.toNat % 16 := by
    rw [UInt8.toNat_and]
    exact Nat.and_two_pow_sub_one_eq_mod _ 4
  rw [hhigh, hlow]
  rfl

/-- What is written for encoded bytes is the text in lower case. -/
theorem toHex_of_encodes {text : Text} {binary : Bytes} (h : Hash.Encodes text binary) :
    toHex binary = text.map Char.toLower := by
  rw [toHex_eq]
  fun_induction Hash.Encodes text binary with
  | case1 => rfl
  | case2 high low rest byte bytes ih =>
      obtain ⟨hhigh, hlow, hrest⟩ := h
      rw [List.map_cons, List.map_cons, toLower_of_hexDigit hhigh, toLower_of_hexDigit hlow,
        ← ih hrest]
      rfl
  | case3 => exact h.elim

/-! ## Reading -/

/-- Two digits give the byte that they stand for. -/
theorem byte_of_nibbles {h l byte : UInt8} (hh : h.toNat < 16) (hl : l.toNat < 16) :
    h <<< 4 ||| l = byte ↔ h.toNat = byte.toNat / 16 ∧ l.toNat = byte.toNat % 16 := by
  have hall : ∀ i j : Fin 16,
      (UInt8.ofNat i <<< 4 ||| UInt8.ofNat j).toNat = 16 * i.1 + j.1 := by decide +kernel
  have hvalue := hall ⟨h.toNat, hh⟩ ⟨l.toNat, hl⟩
  rw [UInt8.ofNat_toNat, UInt8.ofNat_toNat] at hvalue
  dsimp only at hvalue
  rw [← UInt8.toNat_inj, hvalue]
  omega

/-- The first two characters of a text that is accepted. -/
theorem fromHex_cons_ok_iff {high low : Char} {rest : Text} {binary : Bytes} :
    fromHex (high :: low :: rest) = .ok binary ↔
      ∃ byte bytes, binary = byte :: bytes ∧ Hash.hexDigit high = some (byte.toNat / 16) ∧
        Hash.hexDigit low = some (byte.toNat % 16) ∧ fromHex rest = .ok bytes := by
  have hparity : (high :: low :: rest).length % 2 = rest.length % 2 := by
    rw [List.length_cons, List.length_cons]
    omega
  rw [fromHex, fromHex, hparity, hexDigit_eq, hexDigit_eq]
  by_cases hodd : rest.length % 2 ≠ 0
  · rw [if_pos hodd, if_pos hodd]
    simp
  rw [if_neg hodd, if_neg hodd, fromHexLoop]
  cases hhigh : nibble high with
  | none => simp
  | some h =>
      cases hlow : nibble low with
      | none => simp
      | some l =>
          have hh : h.toNat < 16 := Hash.hexDigit_lt (c := high) (by rw [hexDigit_eq, hhigh]; rfl)
          have hl : l.toNat < 16 := Hash.hexDigit_lt (c := low) (by rw [hexDigit_eq, hlow]; rfl)
          cases fromHexLoop rest with
          | error e => simp [bind, Except.bind]
          | ok found =>
              show Except.ok ((h <<< 4 ||| l) :: found) = .ok binary ↔ _
              simp only [Except.ok.injEq, Option.map_some, Option.some.injEq]
              constructor
              · rintro rfl
                obtain ⟨hdiv, hmod⟩ := (byte_of_nibbles hh hl).mp rfl
                exact ⟨_, _, rfl, hdiv, hmod, rfl⟩
              · rintro ⟨byte, bytes, rfl, hdiv, hmod, rfl⟩
                rw [(byte_of_nibbles hh hl).mpr ⟨hdiv, hmod⟩]

/-- A text is accepted when it encodes what is returned. -/
theorem fromHex_ok_iff (text : Text) (binary : Bytes) :
    fromHex text = .ok binary ↔ Hash.Encodes text binary := by
  induction text using Hash.pairs.induct generalizing binary with
  | case1 =>
      show Except.ok [] = .ok binary ↔ _
      cases binary with
      | nil => exact iff_of_true rfl trivial
      | cons byte bytes => exact iff_of_false (by simp) id
  | case2 c =>
      show Except.error _ = .ok binary ↔ _
      refine iff_of_false (by simp) ?_
      cases binary <;> exact id
  | case3 high low rest ih =>
      rw [fromHex_cons_ok_iff]
      cases binary with
      | nil => exact iff_of_false (by simp) id
      | cons byte bytes =>
          simp only [List.cons.injEq, ← ih, Hash.Encodes]
          constructor
          · rintro ⟨_, _, ⟨rfl, rfl⟩, h⟩
            exact h
          · exact fun h => ⟨byte, bytes, ⟨rfl, rfl⟩, h⟩

/-- A text encodes bytes when it has an even length and hexadecimal digits only. -/
theorem encodes_some_iff (text : Text) :
    (∃ binary, Hash.Encodes text binary) ↔ text.length % 2 = 0 ∧ ∀ c ∈ text, IsHexDigit c := by
  induction text using Hash.pairs.induct with
  | case1 => exact iff_of_true ⟨[], trivial⟩ ⟨rfl, by simp⟩
  | case2 c =>
      refine iff_of_false ?_ (by simp)
      rintro ⟨binary, h⟩
      cases binary <;> exact h
  | case3 high low rest ih =>
      have hparity : (high :: low :: rest).length % 2 = rest.length % 2 := by
        rw [List.length_cons, List.length_cons]
        omega
      rw [hparity, List.forall_mem_cons, List.forall_mem_cons, ← hexDigit_isSome_iff,
        ← hexDigit_isSome_iff]
      constructor
      · rintro ⟨binary, h⟩
        cases binary with
        | nil => exact h.elim
        | cons byte bytes =>
            obtain ⟨hhigh, hlow, hrest⟩ := h
            obtain ⟨heven, hdigits⟩ := ih.mp ⟨bytes, hrest⟩
            exact ⟨heven, ⟨_, hhigh⟩, ⟨_, hlow⟩, hdigits⟩
      · rintro ⟨heven, ⟨h, hhigh⟩, ⟨l, hlow⟩, hdigits⟩
        obtain ⟨bytes, hrest⟩ := ih.mpr ⟨heven, hdigits⟩
        obtain ⟨hdiv, hmod⟩ :=
          Hash.digits_of_byte (Hash.hexDigit_lt hhigh) (Hash.hexDigit_lt hlow) rfl
        refine ⟨UInt8.ofNat (16 * h + l) :: bytes, ?_, ?_, hrest⟩
        · rw [hhigh, ← hdiv]
        · rw [hlow, ← hmod]

/-- The two writers agree, both readers read what they write, and what `fromHex` accepts (the texts
of an even number of hexadecimal digits) the other reader reads in the same way, and it is written
again in lower case. -/
theorem hex_codecs_agree :
    (∀ binary : Bytes, toHex binary = Hash.bytesToHexString binary ∧
      fromHex (toHex binary) = .ok binary ∧ Hash.hexStringToBytes (toHex binary) = binary) ∧
    ∀ text : Text,
      ((∃ binary, fromHex text = .ok binary) ↔
        text.length % 2 = 0 ∧ ∀ c ∈ text, IsHexDigit c) ∧
      ∀ binary, fromHex text = .ok binary →
        Hash.hexStringToBytes text = binary ∧ toHex binary = text.map Char.toLower := by
  simp only [fromHex_ok_iff]
  refine ⟨fun binary => ?_, fun text => ⟨encodes_some_iff text, fun binary h => ?_⟩⟩
  · rw [toHex_eq]
    exact ⟨rfl, Hash.encodes_bytesToHexString binary, Hash.hexStringToBytes_bytesToHexString binary⟩
  · refine ⟨?_, toHex_of_encodes h⟩
    rw [Hash.hexStringToBytes_eq]
    exact ((Hash.encodes_iff text binary).mp h).2

/-- The text of `00 7F ff`. -/
example : fromHex "007Fff" = .ok [0, 127, 255] := by decide

end AES256

end Brazier
