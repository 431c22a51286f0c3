import Brazier.Cryptography.Tampering

/-!
# Messages with their vector

`encryptMessage` and `decryptMessage` of `AES256` keep the initialisation vector in front of the
ciphertext. `decrypt_ok_iff` is the converse of the round trip: what comes out of a ciphertext is
the text whose ciphertext it is. It leaves out the empty ciphertext, which `encrypt` never makes
and `decrypt` takes for the empty text, and a text that is read in part only because its length is
cast to `int`. `only_real_iff` says that nothing else is accepted that is no message.
-/

namespace Brazier

open ProofLib

namespace AES256

/-- `generateIV`, where this is drawn, or nothing. -/
def generateIV (drawn : Option Block) : Except Fault Bytes :=
  match drawn with
  | none => .error (.thrown "Failed to generate random bytes")
  | some iv => .ok iv.toList

variable (prims : Primitives)

/-- `encryptMessage`. -/
def encryptMessage (drawn : Option Block) (message key : Bytes) : Except Fault Bytes := do
  let iv ← generateIV drawn
  let ciphertext ← encrypt prims message key iv
  .ok (iv ++ ciphertext)

/-- `decryptMessage`. -/
def decryptMessage (encryptedData key : Bytes) : Except Fault Bytes :=
  if encryptedData.length < blockSize then .error (.thrown "Encrypted data is too short")
  else decrypt prims (encryptedData.drop blockSize) key (encryptedData.take blockSize)

variable {prims}

/-! ## The text of a ciphertext -/

theorem xor_decrypt_encrypt (text key : Bytes) (iv : Block) :
    BlockChaining.decrypt (prims.cipher key) xor iv (ciphertextOf prims text key iv) =
      Padding.pad blockSize text := by
  have hopened : BlockChaining.decrypt (prims.cipher key) xor iv (ciphertextOf prims text key iv) =
      opened text iv iv :=
    BlockChaining.decrypt_encrypt blockSize_pos xor_cancels iv iv (dvd_length_pad _) (pad_ne_nil _)
  rw [hopened, opened_self]

/-- A text comes out of its own ciphertext, and of no other one. -/
theorem plaintextOf_eq_some_iff {ciphertext text key : Bytes} {iv : Block} :
    plaintextOf prims ciphertext key iv = some text ↔
      ciphertextOf prims text key iv = ciphertext := by
  constructor
  · intro h
    rw [plaintextOf, Option.ite_none_left_eq_some, not_or, not_not] at h
    obtain ⟨⟨_, hdvd⟩, hunpad⟩ := h
    have hlength := BlockChaining.length_decrypt (prims.cipher key) xor iv hdvd
    rw [Padding.unpad_eq_some_iff blockSize_pos blockSize_byte (hlength ▸ hdvd)] at hunpad
    rw [ciphertextOf, ← hunpad]
    exact BlockChaining.encrypt_decrypt xor_cancels iv hdvd
  · rintro rfl
    have hlength : (ciphertextOf prims text key iv).length = _ := length_ciphertextOf text key iv
    have hne : ciphertextOf prims text key iv ≠ [] := by
      intro hnil
      rw [hnil, List.length_nil] at hlength
      omega
    have hdvd : blockSize ∣ (ciphertextOf prims text key iv).length :=
      ⟨_, hlength.trans (Nat.mul_comm _ _)⟩
    rw [plaintextOf, if_neg (by simp [hne, hdvd]), xor_decrypt_encrypt]
    exact Padding.unpad_pad blockSize_pos blockSize_byte text

/-- What `encrypt` returns is the ciphertext of what it read. -/
theorem ciphertextOf_of_encrypt {text ciphertext : Bytes} {key : Vector UInt8 keySize} {iv : Block}
    (h : encrypt prims text key.toList iv.toList = .ok ciphertext) :
    ciphertextOf prims (readOf text) key.toList iv = ciphertext := by
  by_cases hrefused : Refused text
  · obtain ⟨e, he⟩ : ∃ e, encrypt prims text key.toList iv.toList = .error e :=
      encrypt_refused hrefused key iv
    rw [he] at h
    cases h
  · rw [encrypt_eq hrefused] at h
    exact Except.ok.inj h

/-- A ciphertext that is not empty and whose length is not refused. -/
theorem decrypt_of_ne_nil {ciphertext : Bytes} (hne : ciphertext ≠ [])
    (hlt : ciphertext.length % 2 ^ 32 < 2 ^ 31) (key : Vector UInt8 keySize) (iv : Block) :
    decrypt prims ciphertext key.toList iv.toList =
      (plaintextOf prims (readOf ciphertext) key.toList iv).elim
        (.error (.thrown "Decryption finalization failed - wrong key or corrupted data")) .ok := by
  rw [decrypt, validateKey_toList, ok_bind, validateIV_toList, ok_bind, if_neg hne,
    readBytes_of_lt hlt, ok_bind, toBlock_toList]
  cases plaintextOf prims (readOf ciphertext) key.toList iv with
  | none => rfl
  | some plaintext => rfl

/-- What `decrypt` returns is the text whose ciphertext was read. -/
theorem decrypt_ok_iff {ciphertext : Bytes} (hne : ciphertext ≠ [])
    (hlt : ciphertext.length % 2 ^ 32 < 2 ^ 31) (text : Bytes) (key : Vector UInt8 keySize)
    (iv : Block) :
    decrypt prims ciphertext key.toList iv.toList = .ok text ↔
      text.length < 2 ^ 32 ∧ encrypt prims text key.toList iv.toList = .ok (readOf ciphertext) := by
  have hplain : decrypt prims ciphertext key.toList iv.toList = .ok text ↔
      ciphertextOf prims text key.toList iv = readOf ciphertext := by
    rw [decrypt_of_ne_nil hne hlt, ← plaintextOf_eq_some_iff]
    cases plaintextOf prims (readOf ciphertext) key.toList iv with
    | none => simp
    | some plaintext => simp
  rw [hplain]
  have hread : text.length < 2 ^ 32 → readOf text = text := by
    intro htext
    rw [readOf, Nat.mod_eq_of_lt htext, List.take_length]
  constructor
  · intro h
    have hlength := congrArg List.length h
    rw [length_ciphertextOf, length_readOf] at hlength
    have hrefused : ¬ Refused text := by
      unfold Refused blockSize
      omega
    have htext : text.length < 2 ^ 32 := by omega
    refine ⟨htext, ?_⟩
    rw [encrypt_eq hrefused, hread htext, h]
  · rintro ⟨htext, h⟩
    have hcipher := ciphertextOf_of_encrypt h
    rw [hread htext] at hcipher
    exact hcipher

/-- A ciphertext whose length is a negative `int`. -/
theorem decrypt_of_negative {ciphertext : Bytes} (h : 2 ^ 31 ≤ ciphertext.length % 2 ^ 32)
    (key : Vector UInt8 keySize) (iv : Block) :
    decrypt prims ciphertext key.toList iv.toList =
      .error (if prims.refusesNegative then .thrown "Decryption update failed"
        else .undefined) := by
  have hne : ciphertext ≠ [] := by
    rintro rfl
    simp at h
  rw [decrypt, validateKey_toList, ok_bind, validateIV_toList, ok_bind, if_neg hne,
    readBytes_of_ge h, error_bind]

/-- The behaviour is undefined for such a ciphertext only, if its length is not refused. -/
theorem decrypt_undefined_iff (ciphertext : Bytes) (key : Vector UInt8 keySize) (iv : Block) :
    decrypt prims ciphertext key.toList iv.toList ≠ .error .undefined ↔
      ciphertext.length % 2 ^ 32 < 2 ^ 31 ∨ prims.refusesNegative = true := by
  by_cases hlt : ciphertext.length % 2 ^ 32 < 2 ^ 31
  · refine iff_of_true (fun h => ?_) (Or.inl hlt)
    by_cases hnil : ciphertext = []
    · rw [decrypt, validateKey_toList, ok_bind, validateIV_toList, ok_bind, if_pos hnil] at h
      cases h
    · rw [decrypt_of_ne_nil hnil hlt] at h
      cases hplain : plaintextOf prims (readOf ciphertext) key.toList iv with
      | none =>
          rw [hplain] at h
          cases h
      | some text =>
          rw [hplain] at h
          cases h
  · rw [decrypt_of_negative (Nat.le_of_not_lt hlt), or_iff_right hlt]
    cases prims.refusesNegative with
    | true => exact iff_of_true nofun rfl
    | false => exact iff_of_false (fun h => h rfl) Bool.false_ne_true

/-- A ciphertext that is returned is not that long. -/
theorem length_of_encrypt {text ciphertext : Bytes} {key : Vector UInt8 keySize} {iv : Block}
    (h : encrypt prims text key.toList iv.toList = .ok ciphertext) :
    ciphertext.length < 2 ^ 31 := by
  have hrefused : ¬ Refused text := by
    intro hrefused
    obtain ⟨e, he⟩ : ∃ e, encrypt prims text key.toList iv.toList = .error e :=
      encrypt_refused hrefused key iv
    rw [he] at h
    cases h
  rw [← ciphertextOf_of_encrypt h, length_ciphertextOf, length_readOf]
  unfold Refused blockSize at hrefused
  omega

/-- Nothing that is encrypted has an empty ciphertext. -/
theorem encrypt_ne_nil (text : Bytes) (key : Vector UInt8 keySize) (iv : Block) :
    encrypt prims text key.toList iv.toList ≠ .ok [] := by
  intro h
  have hlength := congrArg List.length (ciphertextOf_of_encrypt h)
  rw [length_ciphertextOf, List.length_nil] at hlength
  omega

/-- What is read of a ciphertext is decrypted when a text is encrypted to it. -/
theorem decrypt_of_encrypt {ciphertext text : Bytes} (hne : ciphertext ≠ [])
    (hlt : ciphertext.length % 2 ^ 32 < 2 ^ 31) {key : Vector UInt8 keySize} {iv : Block}
    (h : encrypt prims text key.toList iv.toList = .ok (readOf ciphertext)) :
    decrypt prims ciphertext key.toList iv.toList = .ok (readOf text) := by
  have hplain := plaintextOf_eq_some_iff.mpr (ciphertextOf_of_encrypt h)
  rw [decrypt_of_ne_nil hne hlt, hplain, Option.elim_some]

/-! ## Only messages are accepted -/

/-- What is returned for a ciphertext has that ciphertext, unless there is none, or the part of it
that is read because its length is cast is the ciphertext of a text. -/
theorem returned_iff (ciphertext : Bytes) (key : Vector UInt8 keySize) (iv : Block) :
    (∀ text, decrypt prims ciphertext key.toList iv.toList = .ok text →
      encrypt prims text key.toList iv.toList = .ok ciphertext) ↔
      ciphertext ≠ [] ∧ (ciphertext.length < 2 ^ 32 ∨
        ∀ text, encrypt prims text key.toList iv.toList ≠ .ok (readOf ciphertext)) := by
  by_cases hnil : ciphertext = []
  · subst hnil
    refine iff_of_false (fun h => encrypt_ne_nil [] key iv (h [] ?_)) (fun h => h.1 rfl)
    rw [decrypt, validateKey_toList, ok_bind, validateIV_toList, ok_bind, if_pos rfl]
  rw [and_iff_right hnil]
  by_cases hnegative : 2 ^ 31 ≤ ciphertext.length % 2 ^ 32
  · refine iff_of_true (fun text h => ?_) (Or.inr fun text h => ?_)
    · rw [decrypt_of_negative hnegative] at h
      cases h
    · have hlength := length_of_encrypt h
      rw [length_readOf] at hlength
      omega
  have hlt : ciphertext.length % 2 ^ 32 < 2 ^ 31 := Nat.lt_of_not_le hnegative
  by_cases hfits : ciphertext.length < 2 ^ 32
  · -- all of the ciphertext is read
    refine iff_of_true (fun text h => ?_) (Or.inl hfits)
    rw [decrypt_ok_iff hnil hlt] at h
    rw [h.2, readOf, Nat.mod_eq_of_lt hfits, List.take_length]
  · rw [or_iff_right hfits]
    have hpart : readOf ciphertext ≠ ciphertext := by
      intro h
      have hlength := congrArg List.length h
      rw [length_readOf] at hlength
      omega
    constructor
    · intro h text hencrypt
      have hread := decrypt_of_encrypt hnil hlt hencrypt
      have hciphertext := h (readOf text) hread
      rw [decrypt_ok_iff hnil hlt] at hread
      rw [hread.2] at hciphertext
      exact hpart (Except.ok.inj hciphertext)
    · intro h text htext
      rw [decrypt_ok_iff hnil hlt] at htext
      exact absurd htext.2 (h text)

/-- What is returned is the text of the message, and what is no message throws. -/
structure OnlyReal (prims : Primitives) (encryptedData key : Bytes) : Prop where
  returned : ∀ text, decryptMessage prims encryptedData key = .ok text →
    ∃ ciphertext, encrypt prims text key (encryptedData.take blockSize) = .ok ciphertext ∧
      encryptedData = encryptedData.take blockSize ++ ciphertext
  others : (∀ iv text ciphertext, iv.length = blockSize →
      encrypt prims text key iv = .ok ciphertext → encryptedData ≠ iv ++ ciphertext) →
    ∃ what, decryptMessage prims encryptedData key = .error (.thrown what)

/-- A message is short enough for its behaviour to be defined. -/
theorem decryptMessage_of_message {iv text ciphertext : Bytes} {key : Vector UInt8 keySize}
    (hiv : iv.length = blockSize)
    (h : encrypt prims text key.toList iv = .ok ciphertext) :
    decryptMessage prims (iv ++ ciphertext) key.toList ≠ .error .undefined := by
  obtain ⟨vector, rfl⟩ : ∃ vector : Block, vector.toList = iv :=
    ⟨BlockChaining.toBlock blockSize iv, by
      rw [BlockChaining.toList_toBlock (Nat.le_of_eq hiv.symm), List.take_of_length_le
        (Nat.le_of_eq hiv)]⟩
  have hlength := length_of_encrypt h
  rw [decryptMessage, if_neg (by rw [List.length_append]; omega), List.drop_left' hiv,
    List.take_left' hiv, decrypt_undefined_iff]
  exact Or.inl (Nat.lt_of_le_of_lt (Nat.mod_le _ _) hlength)

/-- The second part follows from the first where the behaviour is defined. -/
theorem onlyReal_iff {encryptedData : Bytes} {key : Vector UInt8 keySize} :
    OnlyReal prims encryptedData key.toList ↔
      decryptMessage prims encryptedData key.toList ≠ .error .undefined ∧
      ∀ text, decryptMessage prims encryptedData key.toList = .ok text →
        ∃ ciphertext,
          encrypt prims text key.toList (encryptedData.take blockSize) = .ok ciphertext ∧
          encryptedData = encryptedData.take blockSize ++ ciphertext := by
  constructor
  · refine fun h => ⟨fun hundefined => ?_, h.returned⟩
    obtain ⟨what, hthrown⟩ := h.others fun iv text ciphertext hiv hencrypt hdata =>
      decryptMessage_of_message hiv hencrypt (hdata ▸ hundefined)
    rw [hundefined] at hthrown
    cases hthrown
  · intro ⟨hdefined, h⟩
    refine ⟨h, fun hother => ?_⟩
    cases hresult : decryptMessage prims encryptedData key.toList with
    | error fault =>
        cases fault with
        | thrown what => exact ⟨what, rfl⟩
        | undefined => exact absurd hresult hdefined
    | ok text =>
        obtain ⟨ciphertext, hencrypt, hdata⟩ := h text hresult
        have hsize : (encryptedData.take blockSize).length = blockSize := by
          rw [List.length_take]
          by_contra hne
          rw [decryptMessage, if_pos (by omega)] at hresult
          cases hresult
        exact absurd hdata (hother _ text ciphertext hsize hencrypt)

/-- Behind a vector only the ciphertext of a message is accepted, and everything else throws, unless
there is nothing, or the length of the ciphertext is a negative `int` that OpenSSL does not refuse,
or it does not fit into 32 bits and the part of it that is read is the ciphertext of a message. -/
theorem only_real_iff (prims : Primitives) (encryptedData : Bytes) (key : Vector UInt8 keySize) :
    OnlyReal prims encryptedData key.toList ↔
      encryptedData.length ≠ blockSize ∧
        ((encryptedData.drop blockSize).length % 2 ^ 32 < 2 ^ 31 ∨
          prims.refusesNegative = true) ∧
        ((encryptedData.drop blockSize).length < 2 ^ 32 ∨
          ∀ text, encrypt prims text key.toList (encryptedData.take blockSize) ≠
            .ok (readOf (encryptedData.drop blockSize))) := by
  rw [onlyReal_iff]
  by_cases hshort : encryptedData.length < blockSize
  · -- too short for a vector
    have hnone : (encryptedData.drop blockSize).length = 0 := by
      rw [List.length_drop]
      omega
    rw [decryptMessage, if_pos hshort]
    refine iff_of_true ⟨nofun, nofun⟩ ⟨by omega, Or.inl ?_, Or.inl ?_⟩
    · rw [hnone]
      decide
    · rw [hnone]
      decide
  have hiv : (BlockChaining.toBlock blockSize encryptedData).toList =
      encryptedData.take blockSize :=
    BlockChaining.toList_toBlock (Nat.le_of_not_lt hshort)
  have hsplit := List.take_append_drop blockSize encryptedData
  have hdrop : (encryptedData.drop blockSize).length = encryptedData.length - blockSize :=
    List.length_drop
  rw [decryptMessage, if_neg hshort, ← hiv]
  rw [← hiv] at hsplit
  generalize BlockChaining.toBlock blockSize encryptedData = iv at hsplit
  generalize encryptedData.drop blockSize = ciphertext at hsplit hdrop ⊢
  have hwhole : ∀ found, encryptedData = iv.toList ++ found ↔ found = ciphertext := by
    intro found
    rw [← hsplit, List.append_cancel_left_eq]
    exact eq_comm
  have hnil : encryptedData.length ≠ blockSize ↔ ciphertext ≠ [] := by
    rw [ne_eq, ne_eq, ← List.length_eq_zero_iff]
    omega
  simp only [hwhole, exists_eq_right]
  rw [decrypt_undefined_iff, returned_iff, hnil]
  exact and_left_comm

/-- A vector without a ciphertext is taken for the empty message. -/
theorem vector_alone_accepted :
    decryptMessage samplePrimitives sampleIv.toList sampleKey.toList = .ok [] ∧
      ¬ OnlyReal samplePrimitives sampleIv.toList sampleKey.toList := by
  have haccepted : decryptMessage samplePrimitives sampleIv.toList sampleKey.toList = .ok [] := by
    decide +kernel
  refine ⟨haccepted, fun h => ?_⟩
  obtain ⟨ciphertext, hencrypt, hdata⟩ := h.returned [] haccepted
  have htake : sampleIv.toList.take blockSize = sampleIv.toList :=
    List.take_of_length_le (Nat.le_of_eq Vector.length_toList)
  rw [htake] at hencrypt hdata
  rw [List.self_eq_append_right.mp hdata] at hencrypt
  exact encrypt_ne_nil [] sampleKey sampleIv hencrypt

end AES256

end Brazier
