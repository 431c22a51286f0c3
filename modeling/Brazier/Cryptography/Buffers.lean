import Brazier.Cryptography.Messages

/-!
# The buffers of encryption

`encrypt` and `decrypt` of `AES256` once more, with the buffers that OpenSSL writes to. Every call
may write as many bytes as its manual allows it, wherever its output begins; beyond the end of the
buffer that is an overflow. `encryptBuffered_eq` and `decryptBuffered_eq` say that there is none and
that the buffers hold what `encrypt` and `decrypt` return.
-/

namespace Brazier

open ProofLib

namespace AES256

/-- What ends a function that writes to a buffer. -/
inductive BufferError where
  | fault (f : Fault)
  | overflow
  deriving DecidableEq

/-- A call writes at an offset of a buffer, where it may need some room. -/
def writeAt (buffer : Bytes) (offset room : Nat) (data : Bytes) : Except BufferError Bytes :=
  if offset + room ≤ buffer.length ∧ data.length ≤ room then
    .ok (buffer.take offset ++ data ++ buffer.drop (offset + data.length))
  else .error .overflow

/-- An `EVP_CIPHER_CTX`: the block that is mixed into the next one, and the bytes that were read but
not yet used. -/
structure CipherContext where
  vector : Block
  pending : Bytes

section

variable (prims : Primitives) (key : Bytes)

/-- `EVP_EncryptUpdate`: the full blocks are encrypted. -/
def encryptUpdate (ctx : CipherContext) (text : Bytes) : Bytes × CipherContext :=
  let input := ctx.pending ++ text
  let used := input.length / blockSize * blockSize
  let written := BlockChaining.encrypt (prims.cipher key) xor ctx.vector (input.take used)
  (written, ⟨BlockChaining.lastBlock ctx.vector written, input.drop used⟩)

/-- `EVP_EncryptFinal_ex`: the rest is padded. -/
def encryptFinal (ctx : CipherContext) : Bytes :=
  BlockChaining.encrypt (prims.cipher key) xor ctx.vector (Padding.pad blockSize ctx.pending)

/-- `EVP_DecryptUpdate`: the last block is held back, since it may be padded. -/
def decryptUpdate (ctx : CipherContext) (text : Bytes) : Bytes × CipherContext :=
  let input := ctx.pending ++ text
  let used := (input.length - 1) / blockSize * blockSize
  (BlockChaining.decrypt (prims.cipher key) xor ctx.vector (input.take used),
    ⟨BlockChaining.lastBlock ctx.vector (input.take used), input.drop used⟩)

/-- `EVP_DecryptFinal_ex`: what was held back must be a padded block. -/
def decryptFinal (ctx : CipherContext) : Option Bytes :=
  if ctx.pending.length = blockSize then
    Padding.unpad blockSize
      (BlockChaining.decrypt (prims.cipher key) xor ctx.vector ctx.pending)
  else none

/-- `encrypt`, with its buffer. An update may write a block less one byte beyond the length of what
it reads. -/
def encryptBuffered (plaintext iv : Bytes) : Except BufferError Bytes := do
  (validateKey key).mapError fun what => .fault (.thrown what)
  (validateIV iv).mapError fun what => .fault (.thrown what)
  let read ← (readBytes prims "Encryption update failed" plaintext).mapError .fault
  let ciphertext := List.replicate (plaintext.length + blockSize) 0
  let (written, ctx) :=
    encryptUpdate prims key ⟨BlockChaining.toBlock blockSize iv, []⟩ read
  let ciphertext ← writeAt ciphertext 0 (read.length + blockSize - 1) written
  let last := encryptFinal prims key ctx
  let ciphertext ← writeAt ciphertext written.length blockSize last
  (resized (ciphertext.take (written.length + last.length))).mapError .fault

/-- `decrypt`, with its buffer. An update may write a block beyond the length of what it reads. -/
def decryptBuffered (ciphertext iv : Bytes) : Except BufferError Bytes := do
  (validateKey key).mapError fun what => .fault (.thrown what)
  (validateIV iv).mapError fun what => .fault (.thrown what)
  if ciphertext = [] then .ok []
  else do
    let read ← (readBytes prims "Decryption update failed" ciphertext).mapError .fault
    let plaintext := List.replicate (ciphertext.length + blockSize) 0
    let (written, ctx) :=
      decryptUpdate prims key ⟨BlockChaining.toBlock blockSize iv, []⟩ read
    let plaintext ← writeAt plaintext 0 (read.length + blockSize) written
    match decryptFinal prims key ctx with
    | none =>
        .error (.fault (.thrown "Decryption finalization failed - wrong key or corrupted data"))
    | some last => do
        let plaintext ← writeAt plaintext written.length blockSize last
        .ok (plaintext.take (written.length + last.length))

end

/-! ## Writes -/

/-- With room for it data are written behind what was there before. -/
theorem writeAt_ok {buffer : Bytes} (offset : Nat) {room : Nat} {data : Bytes}
    (hroom : offset + room ≤ buffer.length) (hdata : data.length ≤ room) :
    ∃ result, writeAt buffer offset room data = .ok result ∧ result.length = buffer.length ∧
      result.take (offset + data.length) = buffer.take offset ++ data := by
  refine ⟨_, if_pos ⟨hroom, hdata⟩, ?_, ?_⟩
  · simp only [List.length_append, List.length_take, List.length_drop]
    omega
  · refine List.take_left' ?_
    rw [List.length_append, List.length_take]
    omega

/-- Two writes, the second one behind the first. -/
theorem writeAt_twice (size room room' : Nat) {first second : Bytes} (hroom : room ≤ size)
    (hfirst : first.length ≤ room) (hroom' : first.length + room' ≤ size)
    (hsecond : second.length ≤ room') :
    ∃ half whole, writeAt (List.replicate size 0) 0 room first = .ok half ∧
      writeAt half first.length room' second = .ok whole ∧
      whole.take (first.length + second.length) = first ++ second := by
  have hsize : (List.replicate size (0 : UInt8)).length = size := List.length_replicate
  obtain ⟨half, hhalf, hlength, htake⟩ := writeAt_ok 0
    (by rw [hsize, Nat.zero_add]; exact hroom) hfirst
  obtain ⟨whole, hwhole, _, htake'⟩ := writeAt_ok first.length
    (by rw [hlength, hsize]; exact hroom') hsecond
  refine ⟨half, whole, hhalf, hwhole, ?_⟩
  rw [htake']
  rw [Nat.zero_add, List.take_zero, List.nil_append] at htake
  rw [htake]

/-! ## What the calls write -/

variable (prims : Primitives) (key : Bytes)

/-- The two calls write the ciphertext: the full blocks of the text, and one more block. -/
theorem encrypt_calls (text : Bytes) (iv : Block) :
    (encryptUpdate prims key ⟨iv, []⟩ text).1 ++
        encryptFinal prims key (encryptUpdate prims key ⟨iv, []⟩ text).2 =
      ciphertextOf prims text key iv ∧
    (encryptUpdate prims key ⟨iv, []⟩ text).1.length = text.length / 16 * 16 ∧
    (encryptFinal prims key (encryptUpdate prims key ⟨iv, []⟩ text).2).length = 16 := by
  have hle : text.length / 16 * 16 ≤ text.length := Nat.div_mul_le_self _ _
  have htake : (text.take (text.length / 16 * 16)).length = text.length / 16 * 16 := by
    rw [List.length_take]
    omega
  have hdvd : blockSize ∣ (text.take (text.length / 16 * 16)).length :=
    ⟨text.length / 16, htake.trans (Nat.mul_comm _ _)⟩
  have hpad : Padding.pad blockSize text = text.take (text.length / 16 * 16) ++
      Padding.pad blockSize (text.drop (text.length / 16 * 16)) := by
    rw [← Padding.pad_append hdvd, List.take_append_drop]
  refine ⟨?_, ?_, ?_⟩
  · rw [ciphertextOf, hpad, BlockChaining.encrypt_append blockSize_pos iv hdvd]
    rfl
  · exact (BlockChaining.length_encrypt _ _ _ hdvd).trans htake
  · have hlength : (Padding.pad blockSize (text.drop (text.length / 16 * 16))).length = 16 := by
      rw [length_pad, List.length_drop]
      omega
    exact (BlockChaining.length_encrypt _ _ _ (dvd_length_pad _)).trans hlength

/-- The two calls write the plaintext: all but the last block, and what that has in front of its
padding, if it is complete and padded. -/
theorem decrypt_calls (text : Bytes) (iv : Block) :
    plaintextOf prims text key iv =
      (decryptFinal prims key (decryptUpdate prims key ⟨iv, []⟩ text).2).map
        ((decryptUpdate prims key ⟨iv, []⟩ text).1 ++ ·) ∧
    (decryptUpdate prims key ⟨iv, []⟩ text).1.length = (text.length - 1) / 16 * 16 := by
  have htake : (text.take ((text.length - 1) / 16 * 16)).length = (text.length - 1) / 16 * 16 := by
    rw [List.length_take]
    omega
  have hdvd : blockSize ∣ (text.take ((text.length - 1) / 16 * 16)).length :=
    ⟨(text.length - 1) / 16, htake.trans (Nat.mul_comm _ _)⟩
  refine ⟨?_, (BlockChaining.length_decrypt _ _ _ hdvd).trans htake⟩
  have hpending : (text.drop ((text.length - 1) / 16 * 16)).length = blockSize ↔
      ¬ (text = [] ∨ ¬ blockSize ∣ text.length) := by
    rw [List.length_drop, not_or, not_not, ← List.length_eq_zero_iff]
    unfold blockSize
    omega
  have hupdate : decryptUpdate prims key ⟨iv, []⟩ text =
      (BlockChaining.decrypt (prims.cipher key) xor iv (text.take ((text.length - 1) / 16 * 16)),
        ⟨BlockChaining.lastBlock iv (text.take ((text.length - 1) / 16 * 16)),
          text.drop ((text.length - 1) / 16 * 16)⟩) := rfl
  rw [hupdate, plaintextOf, decryptFinal]
  dsimp only
  by_cases hwhole : text = [] ∨ ¬ blockSize ∣ text.length
  · rw [if_pos hwhole, if_neg (fun h => hpending.mp h hwhole)]
    rfl
  · rw [if_neg hwhole, if_pos (hpending.mpr hwhole)]
    have hlast := hpending.mpr hwhole
    nth_rewrite 1 [← List.take_append_drop ((text.length - 1) / 16 * 16) text]
    rw [BlockChaining.decrypt_append blockSize_pos iv hdvd]
    have hlength : (BlockChaining.decrypt (prims.cipher key) xor
        (BlockChaining.lastBlock iv (text.take ((text.length - 1) / 16 * 16)))
        (text.drop ((text.length - 1) / 16 * 16))).length = blockSize := by
      rw [BlockChaining.length_decrypt _ _ _ ⟨1, hlast.trans (Nat.mul_one _).symm⟩, hlast]
    refine Padding.unpad_append _ (Nat.le_of_eq hlength.symm) ?_
    intro hnil
    rw [hnil] at hlength
    exact absurd hlength (by decide)

theorem length_decryptFinal_le {ctx : CipherContext} {last : Bytes}
    (h : decryptFinal prims key ctx = some last) : last.length ≤ blockSize := by
  rw [decryptFinal, Option.ite_none_right_eq_some] at h
  obtain ⟨hpending, hunpad⟩ := h
  have hle := Padding.length_unpad_le hunpad
  rwa [BlockChaining.length_decrypt _ _ _ ⟨1, hpending.trans (Nat.mul_one _).symm⟩, hpending] at hle

/-! ## No overflow -/

theorem mapError_ok_bind {α β : Type} (a : α) (f : α → Except BufferError β) :
    ((Except.ok a : Except Fault α).mapError BufferError.fault >>= f) = f a := rfl

theorem mapError_error_bind {α β : Type} (e : Fault) (f : α → Except BufferError β) :
    ((Except.error e : Except Fault α).mapError BufferError.fault >>= f) = .error (.fault e) := rfl

/-- A fault that a function does not end with. -/
theorem mapError_ne {α : Type} {x : Except Fault α} {fault : Fault} (h : x ≠ .error fault) :
    x.mapError BufferError.fault ≠ .error (.fault fault) := by
  cases x with
  | ok a => exact nofun
  | error e =>
      exact fun heq => h (congrArg Except.error (BufferError.fault.inj (Except.error.inj heq)))

/-- A step that may throw in front of others, with and without buffers. -/
theorem mapError_bind {α β : Type} (x : Except Fault α) (f : α → Except Fault β) :
    (x >>= f).mapError BufferError.fault =
      (x.mapError BufferError.fault >>= fun a => (f a).mapError BufferError.fault) := by
  cases x <;> rfl

/-- A check in front of other steps, with and without buffers. -/
theorem mapError_thrown_bind {α : Type} (x : Except Text Unit) (f : Unit → Except Fault α) :
    (x.mapError Fault.thrown >>= f).mapError BufferError.fault =
      ((x.mapError fun what => BufferError.fault (.thrown what)) >>= fun a =>
        (f a).mapError BufferError.fault) := by
  cases x <;> rfl

theorem length_read {what : Text} {text read : Bytes} (h : readBytes prims what text = .ok read) :
    read.length ≤ text.length := by
  unfold readBytes at h
  split at h
  · cases h
  · rw [← Except.ok.inj h, List.length_take]
    exact Nat.min_le_right _ _

/-- `encrypt` writes to its buffer only, and the buffer holds what it returns. -/
theorem encryptBuffered_eq (plaintext iv : Bytes) :
    encryptBuffered prims key plaintext iv =
      (encrypt prims plaintext key iv).mapError .fault := by
  unfold encryptBuffered encrypt
  rw [mapError_thrown_bind]
  refine bind_congr fun _ => ?_
  rw [mapError_thrown_bind]
  refine bind_congr fun _ => ?_
  rw [mapError_bind]
  cases hread : readBytes prims "Encryption update failed" plaintext with
  | error e => rw [mapError_error_bind, mapError_error_bind]
  | ok read =>
      rw [mapError_ok_bind, mapError_ok_bind]
      obtain ⟨happend, hwritten, hlast⟩ := encrypt_calls prims key read
        (BlockChaining.toBlock blockSize iv)
      have hle := length_read prims hread
      have hblock : blockSize = 16 := rfl
      obtain ⟨half, whole, hhalf, hwhole, htake⟩ := writeAt_twice
        (plaintext.length + blockSize) (read.length + blockSize - 1) blockSize (by omega)
        (by rw [hwritten]; omega) (by rw [hwritten]; omega) (by rw [hlast]; rfl)
      dsimp only
      rw [hhalf]
      dsimp only [bind, Except.bind]
      rw [hwhole]
      dsimp only
      rw [htake, happend]

/-- `decrypt` writes to its buffer only, and the buffer holds what it returns. -/
theorem decryptBuffered_eq (ciphertext iv : Bytes) :
    decryptBuffered prims key ciphertext iv =
      (decrypt prims ciphertext key iv).mapError .fault := by
  unfold decryptBuffered decrypt
  rw [mapError_thrown_bind]
  refine bind_congr fun _ => ?_
  rw [mapError_thrown_bind]
  refine bind_congr fun _ => ?_
  split
  · rfl
  rw [mapError_bind]
  cases hread : readBytes prims "Decryption update failed" ciphertext with
  | error e => rw [mapError_error_bind, mapError_error_bind]
  | ok read =>
      rw [mapError_ok_bind, mapError_ok_bind]
      obtain ⟨hplain, hwritten⟩ := decrypt_calls prims key read (BlockChaining.toBlock blockSize iv)
      have hle := length_read prims hread
      have hblock : blockSize = 16 := rfl
      rw [hplain]
      have hroom : (List.replicate (ciphertext.length + blockSize) (0 : UInt8)).length =
          ciphertext.length + blockSize := List.length_replicate
      cases hfinal : decryptFinal prims key
          (decryptUpdate prims key ⟨BlockChaining.toBlock blockSize iv, []⟩ read).2 with
      | none =>
          have hfits : 0 + (read.length + blockSize) ≤
              (List.replicate (ciphertext.length + blockSize) (0 : UInt8)).length := by
            rw [hroom]
            omega
          obtain ⟨half, hhalf, _⟩ := writeAt_ok 0 hfits (by rw [hwritten]; omega)
          dsimp only
          rw [hhalf]
          dsimp only [bind, Except.bind]
          rw [hfinal]
          rfl
      | some last =>
          have hlast := length_decryptFinal_le prims key hfinal
          obtain ⟨half, whole, hhalf, hwhole, htake⟩ := writeAt_twice
            (ciphertext.length + blockSize) (read.length + blockSize) blockSize (by omega)
            (by rw [hwritten]; omega) (by rw [hwritten]; omega) hlast
          dsimp only
          rw [hhalf]
          dsimp only [bind, Except.bind]
          rw [hfinal]
          dsimp only
          rw [hwhole]
          dsimp only
          rw [htake]
          rfl

/-- Neither function hands OpenSSL a negative length when it gets less than half of what 32 bits can
count. -/
theorem defined_of_lt {text : Bytes} (h : text.length % 2 ^ 32 < 2 ^ 31)
    (key : Vector UInt8 keySize) (iv : Block) :
    encrypt prims text key.toList iv.toList ≠ .error .undefined ∧
      decrypt prims text key.toList iv.toList ≠ .error .undefined := by
  refine ⟨fun hundefined => ?_, (decrypt_undefined_iff text key iv).mpr (Or.inl h)⟩
  rw [encrypt, validateKey_toList, ok_bind, validateIV_toList, ok_bind, readBytes_of_lt h, ok_bind,
    resized] at hundefined
  split at hundefined
  · cases hundefined
  · cases hundefined

/-- Neither function writes beyond the end of its buffer, whatever it is handed, as long as OpenSSL
does what it says. -/
theorem no_overflow (text iv : Bytes) :
    encryptBuffered prims key text iv ≠ .error .overflow ∧
      decryptBuffered prims key text iv ≠ .error .overflow := by
  rw [encryptBuffered_eq, decryptBuffered_eq]
  constructor
  · cases encrypt prims text key iv <;> simp [Except.mapError]
  · cases decrypt prims text key iv <;> simp [Except.mapError]

/-! ## Round trips -/

/-- A text of a length that is not refused comes out of its ciphertext. -/
theorem decrypt_encrypt {plaintext : Bytes} (h : plaintext.length < 2 ^ 31 - blockSize)
    (key : Vector UInt8 keySize) (iv : Block) :
    (encrypt prims plaintext key.toList iv.toList >>=
      fun ciphertext => decrypt prims ciphertext key.toList iv.toList) = .ok plaintext := by
  have hsmall : plaintext.length < 2 ^ 32 := by
    unfold blockSize at h
    omega
  have hrefused : ¬ Refused plaintext := by
    unfold Refused
    rw [Nat.mod_eq_of_lt hsmall]
    omega
  rw [encrypt_eq hrefused, ok_bind, decrypt_eq hrefused, opened_self,
    Padding.unpad_pad blockSize_pos blockSize_byte]
  dsimp only
  rw [readOf, Nat.mod_eq_of_lt hsmall, List.take_length]

/-- In each of the three framings a text comes back, the buffers are large enough, and what is done
is defined wherever the length that OpenSSL is handed is not negative. -/
theorem framings_round_trip (prims : Primitives) (plaintext : Bytes) (key : Vector UInt8 keySize)
    (iv : Block) (h : plaintext.length < 2 ^ 31 - blockSize) :
    (encrypt prims plaintext key.toList iv.toList >>=
      fun ciphertext => decrypt prims ciphertext key.toList iv.toList) = .ok plaintext ∧
    (encryptWithHmac prims plaintext key.toList iv.toList >>=
      fun data => decryptWithHmac prims data key.toList iv.toList) = .ok plaintext ∧
    (∀ drawn : Block, (encryptMessage prims (some drawn) plaintext key.toList >>=
      fun data => decryptMessage prims data key.toList) = .ok plaintext) ∧
    (∀ text : Bytes, encryptBuffered prims key.toList text iv.toList ≠ .error .overflow ∧
      decryptBuffered prims key.toList text iv.toList ≠ .error .overflow) ∧
    ∀ text : Bytes, text.length % 2 ^ 32 < 2 ^ 31 →
      encryptBuffered prims key.toList text iv.toList ≠ .error (.fault .undefined) ∧
      decryptBuffered prims key.toList text iv.toList ≠ .error (.fault .undefined) := by
  refine ⟨decrypt_encrypt prims h key iv, ?_, fun drawn => ?_, fun text =>
    no_overflow prims key.toList text iv.toList, fun text hlt => ?_⟩
  · have hround := decrypt_encrypt prims h key iv
    rw [encryptWithHmac]
    cases hencrypt : encrypt prims plaintext key.toList iv.toList with
    | error e =>
        rw [hencrypt] at hround
        cases hround
    | ok ciphertext =>
        rw [hencrypt, ok_bind] at hround
        rw [ok_bind, ok_bind, decryptWithHmac_append]
        exact hround
  · have hround := decrypt_encrypt prims h key drawn
    rw [encryptMessage, generateIV, ok_bind]
    cases hencrypt : encrypt prims plaintext key.toList drawn.toList with
    | error e =>
        rw [hencrypt] at hround
        cases hround
    | ok ciphertext =>
        rw [hencrypt, ok_bind] at hround
        have hsize : drawn.toList.length = blockSize := Vector.length_toList
        rw [ok_bind, ok_bind, decryptMessage, if_neg (by rw [List.length_append]; omega),
          List.drop_left' hsize, List.take_left' hsize]
        exact hround
  · obtain ⟨hencrypt, hdecrypt⟩ := defined_of_lt prims hlt key iv
    rw [encryptBuffered_eq, decryptBuffered_eq]
    exact ⟨mapError_ne hencrypt, mapError_ne hdecrypt⟩

theorem framings_round_trip_payment :
    (encryptWithHmac samplePrimitives payment sampleKey.toList sampleIv.toList >>=
      fun data => decryptWithHmac samplePrimitives data sampleKey.toList sampleIv.toList) =
        .ok payment :=
  (framings_round_trip samplePrimitives payment sampleKey sampleIv (by decide)).2.1

end AES256

end Brazier
