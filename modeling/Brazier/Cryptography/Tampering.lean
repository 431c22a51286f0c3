import Brazier.Cryptography.AES
import Mathlib.Logic.Equiv.Basic

/-!
# Tampering with encrypted data

The tag of `encryptWithHmac` covers the ciphertext but not the initialisation vector. Data that were
changed are always refused, since a change shows in the tag; another vector is noticed only where it
spoils the padding, that is in a message that fits into one block. `detected_iff` is the exact
condition.
-/

namespace Brazier

open ProofLib

namespace AES256

/-! ## Blocks -/

theorem xor_cancels : BlockChaining.Cancels xor := by
  intro a b
  refine Vector.ext fun i hi => ?_
  rw [xor, xor, Vector.getElem_zipWith, Vector.getElem_zipWith, UInt8.xor_assoc, UInt8.xor_self,
    UInt8.xor_zero]

theorem xor_comm (a b : Block) : xor a b = xor b a := by
  refine Vector.ext fun i hi => ?_
  simp [xor, UInt8.xor_comm]

/-- Two vectors that do the same to a block are equal. -/
theorem xor_right_injective {block iv iv' : Block} (h : xor (xor block iv) iv' = block) :
    iv' = iv := by
  have hsame : xor iv block = xor iv' block := by
    have hmixed := xor_cancels (xor block iv) iv'
    rw [h] at hmixed
    rw [xor_comm iv, xor_comm iv', hmixed]
  rw [← xor_cancels iv block, hsame, xor_cancels]

theorem toBlock_toList (iv : Block) : BlockChaining.toBlock blockSize iv.toList = iv := by
  have h := BlockChaining.toBlock_append iv []
  rwa [List.append_nil] at h

theorem blockSize_pos : 0 < blockSize := by decide

theorem blockSize_byte : blockSize < 256 := by decide

theorem dvd_length_pad (text : Bytes) : blockSize ∣ (Padding.pad blockSize text).length :=
  ⟨text.length / blockSize + 1, by rw [Padding.length_pad blockSize_pos, Nat.mul_comm]⟩

theorem length_pad (text : Bytes) :
    (Padding.pad blockSize text).length = (text.length / 16 + 1) * 16 :=
  Padding.length_pad blockSize_pos text

theorem pad_ne_nil (text : Bytes) : Padding.pad blockSize text ≠ [] := by
  intro h
  have hlength := length_pad text
  rw [h, List.length_nil] at hlength
  omega

/-! ## What encryption and decryption do -/

variable {prims : Primitives}

/-- The bytes that `encrypt` reads: their number is reduced to 32 bits. -/
def readOf (plaintext : Bytes) : Bytes := plaintext.take (plaintext.length % 2 ^ 32)

/-- No ciphertext is returned: the length is a negative `int`, or that of the ciphertext is. -/
def Refused (plaintext : Bytes) : Prop := 2 ^ 31 - blockSize ≤ plaintext.length % 2 ^ 32

instance (plaintext : Bytes) : Decidable (Refused plaintext) := inferInstanceAs (Decidable (_ ≤ _))

theorem length_ciphertextOf (text key : Bytes) (iv : Block) :
    (ciphertextOf prims text key iv).length = (text.length / 16 + 1) * 16 := by
  rw [ciphertextOf, BlockChaining.length_encrypt _ _ _ (dvd_length_pad text), length_pad]

theorem length_readOf (plaintext : Bytes) :
    (readOf plaintext).length = plaintext.length % 2 ^ 32 := by
  rw [readOf, List.length_take]
  have := Nat.mod_le plaintext.length (2 ^ 32)
  omega

theorem readBytes_of_lt {text : Bytes} (h : text.length % 2 ^ 32 < 2 ^ 31) (what : Text) :
    readBytes prims what text = .ok (readOf text) := by
  rw [readBytes, castInt_of_lt h, if_neg (by omega)]
  rfl

theorem readBytes_of_ge {text : Bytes} (h : 2 ^ 31 ≤ text.length % 2 ^ 32) (what : Text) :
    readBytes prims what text =
      .error (if prims.refusesNegative then .thrown what else .undefined) :=
  if_pos (castInt_neg h)

theorem ok_bind {α β : Type} (a : α) (f : α → Except Fault β) : (Except.ok a >>= f) = f a := rfl

theorem error_bind {α β : Type} (e : Fault) (f : α → Except Fault β) :
    (Except.error e >>= f) = .error e := rfl

theorem validateKey_toList {ε : Type} (fault : Text → ε) (key : Vector UInt8 keySize) :
    (validateKey key.toList).mapError fault = .ok () := by
  rw [validateKey, Vector.length_toList, if_neg (fun h => h rfl)]
  rfl

theorem validateIV_toList {ε : Type} (fault : Text → ε) (iv : Block) :
    (validateIV iv.toList).mapError fault = .ok () := by
  rw [validateIV, Vector.length_toList, if_neg (fun h => h rfl)]
  rfl

theorem resized_of_lt {ciphertext : Bytes} (h : ciphertext.length < 2 ^ 31) :
    resized ciphertext = .ok ciphertext := by
  refine if_neg ?_
  rw [castInt_of_lt (by omega)]
  omega

theorem resized_of_ge {ciphertext : Bytes} (h : 2 ^ 31 ≤ ciphertext.length % 2 ^ 32) :
    ∃ e, resized ciphertext = .error e :=
  ⟨_, if_pos (castInt_neg h)⟩

/-- A message of such a length is not encrypted. -/
theorem encrypt_refused {plaintext : Bytes} (h : Refused plaintext) (key : Vector UInt8 keySize)
    (iv : Block) : ∃ e, encrypt prims plaintext key.toList iv.toList = .error e := by
  unfold Refused blockSize at h
  unfold encrypt
  rw [validateKey_toList, ok_bind, validateIV_toList, ok_bind, toBlock_toList]
  by_cases hlt : plaintext.length % 2 ^ 32 < 2 ^ 31
  · rw [readBytes_of_lt hlt, ok_bind]
    -- the length of the message fits into an `int`, that of the ciphertext does not
    refine resized_of_ge ?_
    rw [length_ciphertextOf, length_readOf]
    omega
  · rw [readBytes_of_ge (by omega), error_bind]
    exact ⟨_, rfl⟩

/-- `encrypt` under a key and a vector of the right sizes. -/
theorem encrypt_eq {plaintext : Bytes} (h : ¬ Refused plaintext) (key : Vector UInt8 keySize)
    (iv : Block) :
    encrypt prims plaintext key.toList iv.toList =
      .ok (ciphertextOf prims (readOf plaintext) key.toList iv) := by
  unfold Refused blockSize at h
  unfold encrypt
  rw [validateKey_toList, ok_bind, validateIV_toList, ok_bind, toBlock_toList,
    readBytes_of_lt (by omega), ok_bind]
  refine resized_of_lt ?_
  rw [length_ciphertextOf, length_readOf]
  omega

/-- What comes out of the ciphertext of `text` under another vector: the first block is mixed with
both vectors. -/
def opened (text : Bytes) (iv iv' : Block) : Bytes :=
  (xor (xor (BlockChaining.toBlock blockSize (Padding.pad blockSize text)) iv) iv').toList ++
    (Padding.pad blockSize text).drop blockSize

/-- `decrypt` of a ciphertext, under the key that it was made with. -/
theorem decrypt_eq {plaintext : Bytes} (h : ¬ Refused plaintext) (key : Vector UInt8 keySize)
    (iv iv' : Block) :
    decrypt prims (ciphertextOf prims (readOf plaintext) key.toList iv) key.toList iv'.toList =
      match Padding.unpad blockSize (opened (readOf plaintext) iv iv') with
      | none => .error (.thrown "Decryption finalization failed - wrong key or corrupted data")
      | some text => .ok text := by
  unfold Refused blockSize at h
  have hlength : (ciphertextOf prims (readOf plaintext) key.toList iv).length = _ :=
    length_ciphertextOf _ _ _
  rw [length_readOf] at hlength
  have hdvd : blockSize ∣ (ciphertextOf prims (readOf plaintext) key.toList iv).length :=
    ⟨_, hlength.trans (Nat.mul_comm _ _)⟩
  have hopened : BlockChaining.decrypt (prims.cipher key.toList) xor iv'
      (ciphertextOf prims (readOf plaintext) key.toList iv) =
        opened (readOf plaintext) iv iv' :=
    BlockChaining.decrypt_encrypt blockSize_pos xor_cancels iv iv' (dvd_length_pad _) (pad_ne_nil _)
  generalize ciphertextOf prims (readOf plaintext) key.toList iv = ciphertext
    at hlength hdvd hopened ⊢
  have hne : ciphertext ≠ [] := by
    intro hnil
    rw [hnil, List.length_nil] at hlength
    omega
  have hread : ∀ what, readBytes prims what ciphertext = .ok ciphertext := by
    intro what
    rw [readBytes_of_lt (by omega), readOf, List.take_of_length_le]
    omega
  have hplain : plaintextOf prims ciphertext key.toList iv' =
      Padding.unpad blockSize (opened (readOf plaintext) iv iv') := by
    rw [plaintextOf, if_neg (by simp [hne, hdvd]), hopened]
  unfold decrypt
  rw [validateKey_toList, ok_bind, validateIV_toList, ok_bind, if_neg hne, hread, ok_bind,
    toBlock_toList, hplain]
  cases Padding.unpad blockSize (opened (readOf plaintext) iv iv') with
  | none => rfl
  | some text => rfl

/-! ## Another vector -/

/-- The first block and the others. -/
theorem pad_split (text : Bytes) :
    (BlockChaining.toBlock blockSize (Padding.pad blockSize text)).toList ++
      (Padding.pad blockSize text).drop blockSize = Padding.pad blockSize text := by
  have hlength := length_pad text
  rw [BlockChaining.toList_toBlock, List.take_append_drop]
  unfold blockSize at *
  omega

/-- Under the same vector the padded text comes out. -/
theorem opened_self (text : Bytes) (iv : Block) :
    opened text iv iv = Padding.pad blockSize text := by
  rw [opened, xor_cancels, pad_split]

theorem length_opened (text : Bytes) (iv iv' : Block) :
    (opened text iv iv').length = (text.length / 16 + 1) * 16 := by
  rw [← length_pad text, ← pad_split text, opened, List.length_append, List.length_append,
    Vector.length_toList, Vector.length_toList]

theorem dvd_length_opened (text : Bytes) (iv iv' : Block) :
    blockSize ∣ (opened text iv iv').length :=
  ⟨_, (length_opened text iv iv').trans (Nat.mul_comm _ _)⟩

/-- Behind a full block the padding is not touched. -/
theorem unpad_opened_of_le {text : Bytes} (h : blockSize ≤ text.length) (iv iv' : Block) :
    ∃ out, Padding.unpad blockSize (opened text iv iv') = some out := by
  have hfirst : (text.take blockSize).length = blockSize := by
    rw [List.length_take]
    omega
  have hpad : Padding.pad blockSize text =
      text.take blockSize ++ Padding.pad blockSize (text.drop blockSize) := by
    rw [← Padding.pad_append ⟨1, hfirst.trans (Nat.mul_one _).symm⟩, List.take_append_drop]
  have hrest : (Padding.pad blockSize text).drop blockSize =
      Padding.pad blockSize (text.drop blockSize) := by
    rw [hpad, List.drop_left' hfirst]
  refine ⟨(xor (xor (BlockChaining.toBlock blockSize (Padding.pad blockSize text)) iv)
    iv').toList ++ text.drop blockSize, ?_⟩
  rw [opened, hrest, ← Padding.pad_append ⟨1, Vector.length_toList.trans (Nat.mul_one _).symm⟩]
  exact Padding.unpad_pad blockSize_pos blockSize_byte _

/-- A message that comes out as it was put in was read as a whole and opened under its vector. -/
theorem eq_of_unpad_opened {plaintext : Bytes} {iv iv' : Block}
    (h : Padding.unpad blockSize (opened (readOf plaintext) iv iv') = some plaintext) :
    iv' = iv ∧ plaintext.length < 2 ^ 32 := by
  rw [Padding.unpad_eq_some_iff blockSize_pos blockSize_byte (dvd_length_opened _ iv iv')] at h
  have hlength := congrArg List.length h
  rw [length_opened, length_pad, length_readOf] at hlength
  have hlt : plaintext.length < 2 ^ 32 := by omega
  have hread : readOf plaintext = plaintext := by
    rw [readOf, Nat.mod_eq_of_lt hlt, List.take_length]
  rw [hread, opened] at h
  nth_rewrite 3 [← pad_split plaintext] at h
  -- the first blocks agree, and in them only the vectors can differ
  refine ⟨xor_right_injective (Vector.toList_inj.mp (List.append_inj_left h ?_)), hlt⟩
  rw [Vector.length_toList, Vector.length_toList]

/-- `decrypt` under another vector throws or returns the message exactly when the vector is the same
and the message was read as a whole, or its only block loses its padding. -/
theorem other_vector_iff (plaintext : Bytes) (iv iv' : Block) :
    (∀ text, Padding.unpad blockSize (opened (readOf plaintext) iv iv') = some text →
      text = plaintext) ↔
      iv' = iv ∧ plaintext.length < 2 ^ 32 ∨
      (readOf plaintext).length < blockSize ∧
        Padding.unpad blockSize (opened (readOf plaintext) iv iv') = none := by
  constructor
  · intro h
    cases hunpad : Padding.unpad blockSize (opened (readOf plaintext) iv iv') with
    | none =>
        refine Or.inr ⟨?_, rfl⟩
        by_contra hge
        obtain ⟨out, hout⟩ := unpad_opened_of_le (Nat.le_of_not_lt hge) iv iv'
        rw [hunpad] at hout
        cases hout
    | some text =>
        rw [h text hunpad] at hunpad
        exact Or.inl (eq_of_unpad_opened hunpad)
  · intro h text hunpad
    obtain ⟨rfl, hlt⟩ | ⟨-, hnone⟩ := h
    · rw [opened_self, Padding.unpad_pad blockSize_pos blockSize_byte, readOf, Nat.mod_eq_of_lt hlt,
        List.take_length] at hunpad
      exact (Option.some.inj hunpad).symm
    · rw [hnone] at hunpad
      cases hunpad

/-! ## Another text -/

/-- `d'` differs from `d` only in front of the end of the tag, or only behind it, or it is too short
for a tag. -/
def Tampered (d d' : Bytes) : Prop :=
  d' ≠ d ∧ (d'.drop hmacSize = d.drop hmacSize ∨ d'.take hmacSize = d.take hmacSize ∨
    d'.length < hmacSize)

/-- The tag and the ciphertext are taken apart again. -/
theorem decryptWithHmac_append (data key iv : Bytes) :
    decryptWithHmac prims (computeHmac prims data key ++ data) key iv =
      decrypt prims data key iv := by
  have htag : (computeHmac prims data key).length = hmacSize := Vector.length_toList
  have hlength : ¬ (computeHmac prims data key ++ data).length < hmacSize := by
    rw [List.length_append]
    omega
  rw [decryptWithHmac, if_neg hlength, List.take_left' htag, List.drop_left' htag]
  exact if_neg (fun h => h rfl)

/-- A changed text is refused when no other ciphertext has the same tag. -/
theorem tampered_refused {ciphertext key : Bytes}
    (hunique : ∀ other, prims.hmac key other = prims.hmac key ciphertext → other = ciphertext)
    {d' : Bytes} (h : Tampered (computeHmac prims ciphertext key ++ ciphertext) d') (iv : Bytes) :
    ∃ what, decryptWithHmac prims d' key iv = .error (.thrown what) := by
  have htag : (computeHmac prims ciphertext key).length = hmacSize := Vector.length_toList
  unfold decryptWithHmac
  by_cases hshort : d'.length < hmacSize
  · exact ⟨_, if_pos hshort⟩
  rw [if_neg hshort]
  by_cases htake : d'.take hmacSize = computeHmac prims (d'.drop hmacSize) key
  · obtain ⟨hne, hdiffers⟩ := h
    rw [List.drop_left' htag, List.take_left' htag] at hdiffers
    refine absurd ?_ hne
    -- the tag that was found is the right one for the ciphertext that was found
    obtain hdrop | htake' | hlt := hdiffers
    · -- the same ciphertext, so the same tag
      rw [hdrop] at htake
      rw [← List.take_append_drop hmacSize d', htake, hdrop]
    · -- the same tag, so the same ciphertext
      have hdrop : d'.drop hmacSize = ciphertext :=
        hunique _ (Vector.toList_inj.mp (htake.symm.trans htake'))
      rw [← List.take_append_drop hmacSize d', htake', hdrop]
    · exact absurd hlt hshort
  · exact ⟨_, if_pos htake⟩

/-- The data of the message `plaintext` are protected against another vector and another text. -/
structure Detected (prims : Primitives) (plaintext key iv' d : Bytes) : Prop where
  vector : (∃ what, decryptWithHmac prims d key iv' = .error (.thrown what)) ∨
    decryptWithHmac prims d key iv' = .ok plaintext
  text : ∀ d', Tampered d d' → ∃ what, decryptWithHmac prims d' key iv' = .error (.thrown what)

/-- Tampering is detected exactly when nothing is encrypted, or when the vector was not changed and
the length of the message did not overflow, or when the message was read into one block only, whose
padding is lost under the changed vector. -/
theorem detected_iff (prims : Primitives) (plaintext : Bytes) (key : Vector UInt8 keySize)
    (iv iv' : Block)
    (hunique : ∀ ciphertext other, encrypt prims plaintext key.toList iv.toList = .ok ciphertext →
      prims.hmac key.toList other = prims.hmac key.toList ciphertext → other = ciphertext) :
    (∀ d, encryptWithHmac prims plaintext key.toList iv.toList = .ok d →
      Detected prims plaintext key.toList iv'.toList d) ↔
      Refused plaintext ∨ (iv' = iv ∧ plaintext.length < 2 ^ 32) ∨
        (readOf plaintext).length < blockSize ∧
          Padding.unpad blockSize (opened (readOf plaintext) iv iv') = none := by
  by_cases hrefused : Refused plaintext
  · obtain ⟨e, he⟩ : ∃ e, encrypt prims plaintext key.toList iv.toList = .error e :=
      encrypt_refused hrefused key iv
    refine iff_of_true ?_ (Or.inl hrefused)
    intro d hd
    rw [encryptWithHmac, he, error_bind] at hd
    cases hd
  · have henc : encrypt prims plaintext key.toList iv.toList = _ := encrypt_eq hrefused key iv
    have hdec : decrypt prims _ key.toList iv'.toList = _ := decrypt_eq hrefused key iv iv'
    rw [encryptWithHmac, henc, ok_bind, or_iff_right hrefused, ← other_vector_iff]
    constructor
    · intro h text hunpad
      obtain ⟨what, hthrown⟩ | hreturned := (h _ rfl).vector
      · rw [decryptWithHmac_append, hdec, hunpad] at hthrown
        cases hthrown
      · rw [decryptWithHmac_append, hdec, hunpad] at hreturned
        exact Except.ok.inj hreturned
    · intro h d hd
      cases hd
      refine ⟨?_, fun d' htampered =>
        tampered_refused (fun other => hunique _ other henc) htampered _⟩
      rw [decryptWithHmac_append, hdec]
      cases hunpad : Padding.unpad blockSize (opened (readOf plaintext) iv iv') with
      | none => exact Or.inl ⟨_, rfl⟩
      | some out =>
          rw [h out hunpad]
          exact Or.inr rfl

/-! ## A run -/

/-- A payment. -/
def payment : Bytes :=
  [116, 114, 97, 110, 115, 102, 101, 114, 32, 49, 48, 48, 32, 69, 85, 82]

/-- The key `00 01 … 1f`. -/
def sampleKey : Vector UInt8 keySize := Vector.ofFn fun i => UInt8.ofNat i

/-- A vector of zeros. -/
def sampleIv : Block := Vector.replicate blockSize 0

/-- It is changed where the message has the first digit of the amount. -/
def otherIv : Block := sampleIv.set 9 8

/-- What the cipher makes of the first block. -/
def firstBlock : Block :=
  ⟨#[0x10, 0x83, 0x6c, 0x03, 0xca, 0x75, 0x47, 0xda, 0xe3, 0xb8, 0xbd, 0x1e, 0xc0, 0xdf, 0x42, 0xe6],
    rfl⟩

/-- And of the second one. -/
def secondBlock : Block :=
  ⟨#[0x04, 0x6d, 0x8a, 0x43, 0x3b, 0x0f, 0xe1, 0x9b, 0x02, 0x9a, 0x35, 0x3a, 0x15, 0x95, 0x36, 0x03],
    rfl⟩

/-- The tag of the two blocks. -/
def sampleTag : Vector UInt8 hmacSize :=
  ⟨#[0xd4, 0x01, 0x66, 0xa2, 0x68, 0xc3, 0xcb, 0x37, 0x30, 0xa0, 0x55, 0xae, 0x28, 0x4d, 0x7b, 0x77,
      0x08, 0x77, 0xd6, 0xc3, 0xdd, 0x09, 0xc4, 0xb3, 0x3d, 0x9a, 0xb9, 0x3d, 0xdf, 0xfe, 0x4b, 0x0c],
    rfl⟩

/-- The payment under the key and the vector. -/
def sampleCiphertext : Bytes := firstBlock.toList ++ secondBlock.toList

/-- Tags of which that of the ciphertext is the one of HMAC-SHA256. -/
def sampleHmac (data : Bytes) : Vector UInt8 hmacSize :=
  if data = sampleCiphertext then sampleTag else Vector.replicate hmacSize 0

/-- A permutation with the values of AES-256 on the blocks of the payment, and the tags. -/
def samplePrimitives : Primitives where
  cipher := fun _ =>
    (Equiv.swap (xor (BlockChaining.toBlock blockSize payment) sampleIv) firstBlock).trans
      (Equiv.swap (xor (Vector.replicate blockSize 16) firstBlock) secondBlock)
  hmac := fun _ => sampleHmac
  refusesNegative := false

theorem sample_encrypt :
    encrypt samplePrimitives payment sampleKey.toList sampleIv.toList =
      .ok sampleCiphertext := by
  decide +kernel

/-- No other text has the tag of the ciphertext. -/
theorem sample_unique (ciphertext other : Bytes)
    (hcipher : encrypt samplePrimitives payment sampleKey.toList sampleIv.toList = .ok ciphertext)
    (htag : samplePrimitives.hmac sampleKey.toList other =
      samplePrimitives.hmac sampleKey.toList ciphertext) : other = ciphertext := by
  rw [sample_encrypt] at hcipher
  cases hcipher
  by_contra hne
  have hother : sampleHmac other = Vector.replicate hmacSize 0 := if_neg hne
  have hsample : sampleHmac sampleCiphertext = sampleTag := if_pos rfl
  have hequal : sampleHmac other = sampleHmac sampleCiphertext := htag
  rw [hother, hsample] at hequal
  exact absurd hequal (by decide)

/-- The condition, for the payment under two vectors. -/
theorem detected_iff_payment :
    (∀ d, encryptWithHmac samplePrimitives payment sampleKey.toList sampleIv.toList = .ok d →
      Detected samplePrimitives payment sampleKey.toList otherIv.toList d) ↔
      Refused payment ∨ (otherIv = sampleIv ∧ payment.length < 2 ^ 32) ∨
        (readOf payment).length < blockSize ∧
          Padding.unpad blockSize (opened (readOf payment) sampleIv otherIv) = none :=
  detected_iff samplePrimitives payment sampleKey sampleIv otherIv sample_unique

/-- Under the other vector the payment is one of 900 instead of 100. -/
theorem payment_altered :
    ¬ ∀ d, encryptWithHmac samplePrimitives payment sampleKey.toList sampleIv.toList = .ok d →
      Detected samplePrimitives payment sampleKey.toList otherIv.toList d := by
  intro h
  have hd : encryptWithHmac samplePrimitives payment sampleKey.toList sampleIv.toList =
      .ok (sampleTag.toList ++ sampleCiphertext) := by
    decide +kernel
  have haltered : decryptWithHmac samplePrimitives
      (sampleTag.toList ++ sampleCiphertext) sampleKey.toList
      otherIv.toList = .ok (payment.set 9 57) := by
    decide +kernel
  obtain ⟨what, hthrown⟩ | hreturned := (h _ hd).vector
  · rw [haltered] at hthrown
    cases hthrown
  · rw [haltered] at hreturned
    exact absurd (Except.ok.inj hreturned) (by decide)

end AES256

end Brazier
