import Brazier.ProofLib.BlockChaining
import Brazier.ProofLib.Padding
import Brazier.Text

/-!
# Encryption with a tag

The parts of `AES256` of `src/Cryptography/AES.cpp` that encrypt and decrypt with an HMAC. The block
cipher and the HMAC of OpenSSL are parameters: a permutation of blocks for each key, and a tag for
each key and text. The lengths that are handed to OpenSSL are `int`s. What it does with a negative
one is not documented and differs between its versions, so that is a parameter too.
-/

namespace Brazier

open ProofLib

/-- A `std::string` of bytes. -/
abbrev Bytes := List UInt8

namespace AES256

/-- `KEY_SIZE`. -/
def keySize : Nat := 32

/-- `BLOCK_SIZE`. -/
def blockSize : Nat := 16

/-- `HMAC_SIZE`. -/
def hmacSize : Nat := 32

/-- A block of the cipher; an initialisation vector is one. -/
abbrev Block := Vector UInt8 blockSize

/-- AES-256 of a key, HMAC-SHA256 of a key and a text, and whether an update that is handed a
negative length returns 0. If it does not, nothing is known of what it does. -/
structure Primitives where
  cipher : Bytes → Equiv.Perm Block
  hmac : Bytes → Bytes → Vector UInt8 hmacSize
  refusesNegative : Bool

/-- How a function ends without a result: it throws, or its behaviour is undefined because OpenSSL
does not refuse a negative length. -/
inductive Fault where
  | thrown (what : Text)
  | undefined
  deriving DecidableEq

/-- The exclusive or of two blocks. -/
def xor (a b : Block) : Block := Vector.zipWith (fun x y => x ^^^ y) a b

/-- `validateKey`. -/
def validateKey (key : Bytes) : Except Text Unit :=
  if key.length ≠ keySize then .error ("Invalid key size: must be 32 bytes (256 bits)" : Text)
  else .ok ()

/-- `validateIV`. -/
def validateIV (iv : Bytes) : Except Text Unit :=
  if iv.length ≠ blockSize then .error ("Invalid IV size: must be 16 bytes (128 bits)" : Text)
  else .ok ()

variable (prims : Primitives)

/-- The bytes that an update reads, which is told their number as an `int`. -/
def readBytes (what : Text) (text : Bytes) : Except Fault Bytes :=
  if castInt text.length < 0 then
    .error (if prims.refusesNegative then .thrown what else .undefined)
  else .ok (text.take (castInt text.length).toNat)

/-- What `EVP_EncryptUpdate` and `EVP_EncryptFinal_ex` write. -/
def ciphertextOf (text key : Bytes) (iv : Block) : Bytes :=
  BlockChaining.encrypt (prims.cipher key) xor iv (Padding.pad blockSize text)

/-- What `EVP_DecryptUpdate` and `EVP_DecryptFinal_ex` write, when the last block is complete and
ends with a padding. -/
def plaintextOf (ciphertext key : Bytes) (iv : Block) : Option Bytes :=
  if ciphertext = [] ∨ ¬ blockSize ∣ ciphertext.length then none
  else Padding.unpad blockSize (BlockChaining.decrypt (prims.cipher key) xor iv ciphertext)

/-- `ciphertext.resize(totalLen)`: `totalLen` is an `int`, and what a negative one is converted to
is refused. -/
def resized (ciphertext : Bytes) : Except Fault Bytes :=
  if castInt ciphertext.length < 0 then .error (.thrown "basic_string::_M_replace_aux")
  else .ok ciphertext

/-- `encrypt`. -/
def encrypt (plaintext key iv : Bytes) : Except Fault Bytes := do
  (validateKey key).mapError .thrown
  (validateIV iv).mapError .thrown
  let read ← readBytes prims "Encryption update failed" plaintext
  resized (ciphertextOf prims read key (BlockChaining.toBlock blockSize iv))

/-- `decrypt`. -/
def decrypt (ciphertext key iv : Bytes) : Except Fault Bytes := do
  (validateKey key).mapError .thrown
  (validateIV iv).mapError .thrown
  if ciphertext = [] then .ok []
  else do
    let read ← readBytes prims "Decryption update failed" ciphertext
    match plaintextOf prims read key (BlockChaining.toBlock blockSize iv) with
    | none => .error (.thrown "Decryption finalization failed - wrong key or corrupted data")
    | some plaintext => .ok plaintext

/-- `computeHmac`. -/
def computeHmac (data key : Bytes) : Bytes := (prims.hmac key data).toList

/-- `encryptWithHmac`. -/
def encryptWithHmac (plaintext key iv : Bytes) : Except Fault Bytes := do
  let ciphertext ← encrypt prims plaintext key iv
  .ok (computeHmac prims ciphertext key ++ ciphertext)

/-- `decryptWithHmac`. -/
def decryptWithHmac (data key iv : Bytes) : Except Fault Bytes :=
  if data.length < hmacSize then .error (.thrown "Data is too short to contain HMAC")
  else if data.take hmacSize ≠ computeHmac prims (data.drop hmacSize) key then
    .error (.thrown "HMAC verification failed - message corrupted or tampered")
  else decrypt prims (data.drop hmacSize) key iv

end AES256

end Brazier
