import Brazier.Cryptography.OpenSSL

/-!
# Keys and signatures

`RSA` of `src/Cryptography/RSA.cpp`. Each function makes handles, calls OpenSSL with them and has to
give them back at every place where it returns or throws. Beside each function there is what it
leaves of handles, whatever OpenSSL answers: nothing, unless a string could not be made between.
-/

namespace Brazier

open ProofLib

namespace RSA

variable {ω : Type} (ssl : OpenSSL ω)

/-- A key is read from a `BIO` of a text. -/
def loadKey (read : SslHandle → OpenSSLCall) (pem : Text) : SslAction ω (Option SslHandle) := do
  match ← ssl.make .bio (.bioNewMemBuf pem) with
  | none => pure none
  | some bio => do
      let pkey ← ssl.make .evpPkey (read bio)
      ssl.free bio
      pure pkey

/-- `loadPublicKey`. -/
def loadPublicKey (pem : Text) : SslAction ω (Option SslHandle) :=
  loadKey ssl .pemReadBioPubkey pem

/-- `loadPrivateKey`. -/
def loadPrivateKey (pem : Text) : SslAction ω (Option SslHandle) :=
  loadKey ssl .pemReadBioPrivateKey pem

/-- `bioToString`. -/
def bioToString (bio : SslHandle) : SslAction ω Text := do
  let answer ← ssl.call (.bioGetMemData bio)
  if answer.code ≤ 0 then pure []
  else do
    ssl.allocate answer.code.toNat
    pure answer.text

/-- A key is written to a new `BIO`. -/
def writeKey (pkey : SslHandle) (noBio failed : Text)
    (write : SslHandle → SslHandle → OpenSSLCall) : SslAction ω Text := do
  match ← ssl.make .bio .bioNew with
  | none => ssl.failWith [pkey] noBio
  | some bio => do
      let _ ← ssl.check [bio, pkey] failed (write bio pkey)
      let key ← bioToString ssl bio
      ssl.free bio
      pure key

/-- `generateKeyPair`. -/
def generateKeyPair (bits : Int) : SslAction ω (Text × Text) := do
  match ← ssl.make .evpPkeyCtx .evpPkeyCtxNewId with
  | none => ssl.failWithError [] ("Failed to create RSA context: " : Text)
  | some ctx => do
      let _ ← ssl.check [ctx] ("Failed to initialize key generation: " : Text)
        (.evpPkeyKeygenInit ctx)
      let _ ← ssl.check [ctx] ("Failed to set RSA key size: " : Text)
        (.evpPkeyCtxSetRsaKeygenBits ctx bits)
      match ← ssl.makeOut .evpPkey (.evpPkeyKeygen ctx) with
      | none => ssl.failWithError [ctx] ("Failed to generate RSA key pair: " : Text)
      | some pkey => do
          ssl.free ctx
          let publicKey ← writeKey ssl pkey ("Failed to create BIO for public key" : Text)
            ("Failed to write public key: " : Text) .pemWriteBioPubkey
          let privateKey ← writeKey ssl pkey ("Failed to create BIO for private key" : Text)
            ("Failed to write private key: " : Text) .pemWriteBioPrivateKey
          ssl.free pkey
          pure (publicKey, privateKey)

/-- The texts that `encryptWithPublic`, `decryptWithPrivate` and `decryptWithPublic` throw. -/
structure CryptErrors where
  load : Text
  create : Text
  init : Text
  length : Text
  crypt : Text

/-- The texts of what encrypts. -/
def encryptErrors : CryptErrors where
  load := ("Failed to load public key: " : Text)
  create := ("Failed to create encryption context: " : Text)
  init := ("Failed to initialize encryption: " : Text)
  length := ("Failed to get encrypted length: " : Text)
  crypt := ("Failed to encrypt: " : Text)

/-- The texts of what decrypts, which differ in two of them. -/
def decryptErrors (load crypt : Text) : CryptErrors where
  load := load
  create := ("Failed to create decryption context: " : Text)
  init := ("Failed to initialize decryption: " : Text)
  length := ("Failed to get decrypted length: " : Text)
  crypt := crypt

/-- A text is encrypted or decrypted with a key: the second call has a buffer of the length that the
first one told, and the buffer gets the length that the second one tells. -/
def crypt (load : SslAction ω (Option SslHandle)) (errors : CryptErrors)
    (init : SslHandle → OpenSSLCall) (op : SslHandle → Option Nat → Bytes → OpenSSLCall)
    (input : Bytes) : SslAction ω Bytes := do
  match ← load with
  | none => ssl.failWithError [] errors.load
  | some pkey => do
      match ← ssl.make .evpPkeyCtx (.evpPkeyCtxNew pkey) with
      | none => ssl.failWithError [pkey] errors.create
      | some ctx => do
          let _ ← ssl.check [ctx, pkey] errors.init (init ctx)
          let _ ← ssl.check [ctx, pkey] ("Failed to set RSA padding: " : Text)
            (.evpPkeyCtxSetRsaPadding ctx)
          let needed ← ssl.check [ctx, pkey] errors.length (op ctx none input)
          ssl.allocate needed.length
          let output ← ssl.check [ctx, pkey] errors.crypt (op ctx (some needed.length) input)
          ssl.resize needed.length output.length
          ssl.free ctx
          ssl.free pkey
          pure output.written

/-- `encryptWithPublic`. -/
def encryptWithPublic (plaintext : Bytes) (publicKey : Text) : SslAction ω Bytes :=
  crypt ssl (loadPublicKey ssl publicKey) encryptErrors .evpPkeyEncryptInit .evpPkeyEncrypt
    plaintext

/-- `decryptWithPrivate`. -/
def decryptWithPrivate (ciphertext : Bytes) (privateKey : Text) : SslAction ω Bytes :=
  crypt ssl (loadPrivateKey ssl privateKey)
    (decryptErrors ("Failed to load private key: " : Text) ("Failed to decrypt: " : Text))
    .evpPkeyDecryptInit .evpPkeyDecrypt ciphertext

/-- `decryptWithPublic`. -/
def decryptWithPublic (ciphertext : Bytes) (publicKey : Text) : SslAction ω Bytes :=
  crypt ssl (loadPublicKey ssl publicKey)
    (decryptErrors ("Failed to load public key: " : Text)
      ("Failed to decrypt with public key: " : Text))
    .evpPkeyDecryptInit .evpPkeyDecrypt ciphertext

/-- `sign`. -/
def sign (data : Bytes) (privateKey : Text) : SslAction ω Bytes := do
  match ← loadPrivateKey ssl privateKey with
  | none => ssl.failWithError [] ("Failed to load private key for signing: " : Text)
  | some pkey => do
      match ← ssl.make .evpMdCtx .evpMdCtxNew with
      | none => ssl.failWith [pkey] ("Failed to create signature context" : Text)
      | some ctx => do
          let _ ← ssl.check [ctx, pkey] ("Failed to initialize signing: " : Text)
            (.evpDigestSignInit ctx pkey)
          let _ ← ssl.check [ctx, pkey] ("Failed to update signature: " : Text)
            (.evpDigestSignUpdate ctx data)
          let needed ← ssl.check [ctx, pkey] ("Failed to get signature length: " : Text)
            (.evpDigestSignFinal ctx none)
          ssl.allocate needed.length
          let output ← ssl.check [ctx, pkey] ("Failed to create signature: " : Text)
            (.evpDigestSignFinal ctx (some needed.length))
          ssl.resize needed.length output.length
          ssl.free ctx
          ssl.free pkey
          pure output.written

/-- `encryptWithPrivate`. -/
def encryptWithPrivate (plaintext : Bytes) (privateKey : Text) : SslAction ω Bytes :=
  sign ssl plaintext privateKey

/-- `verify`. The last call answers 1 for a signature of the data; it is no error when it answers
another number. -/
def verify (data signature : Bytes) (publicKey : Text) : SslAction ω Bool := do
  match ← loadPublicKey ssl publicKey with
  | none => ssl.failWithError [] ("Failed to load public key for verification: " : Text)
  | some pkey => do
      match ← ssl.make .evpMdCtx .evpMdCtxNew with
      | none => ssl.failWith [pkey] ("Failed to create verification context" : Text)
      | some ctx => do
          let _ ← ssl.check [ctx, pkey] ("Failed to initialize verification: " : Text)
            (.evpDigestVerifyInit ctx pkey)
          let _ ← ssl.check [ctx, pkey] ("Failed to update verification: " : Text)
            (.evpDigestVerifyUpdate ctx data)
          let result ← ssl.call (.evpDigestVerifyFinal ctx signature)
          ssl.free ctx
          ssl.free pkey
          pure (result.code = 1)

/-- A key is good when it can be loaded. -/
def validateKey (load : SslAction ω (Option SslHandle)) : SslAction ω Bool := do
  match ← load with
  | none => pure false
  | some pkey => do
      ssl.free pkey
      pure true

/-- `validatePublicKey`. -/
def validatePublicKey (publicKey : Text) : SslAction ω Bool :=
  validateKey ssl (loadPublicKey ssl publicKey)

/-- `validatePrivateKey`. -/
def validatePrivateKey (privateKey : Text) : SslAction ω Bool :=
  validateKey ssl (loadPrivateKey ssl privateKey)

/-- `extractPublicKey`. -/
def extractPublicKey (privateKey : Text) : SslAction ω Text := do
  match ← loadPrivateKey ssl privateKey with
  | none => ssl.failWithError [] ("Failed to load private key: " : Text)
  | some pkey => do
      let publicKey ← writeKey ssl pkey ("Failed to create BIO" : Text)
        ("Failed to extract public key: " : Text) .pemWriteBioPubkey
      ssl.free pkey
      pure publicKey

/-! ## What the functions leave of handles -/

variable {ssl} {held : List HandleKind}

/-- What a key that was looked for is: the caller's only handle, or nothing. -/
def KeyOnly (key : Option SslHandle) (kept : List SslHandle) : Prop :=
  kept = key.toList ∧ ∀ pkey, key = some pkey → pkey.kind = .evpPkey

/-- A loaded key is the caller's, and nothing else is left. -/
theorem owns_loadKey {read : SslHandle → OpenSSLCall} (hread : ∀ bio, (read bio).given = [bio])
    (pem : Text) : Owns [] (loadKey ssl read pem) (Leaves held KeyOnly) := by
  refine owns_sslMake_bind (given_nothing rfl) (owns_return ⟨rfl, nofun⟩)
    fun bio _ => ?_
  refine owns_sslMake_bind (fun h hmem => ?_) ?_ fun pkey hkind => ?_
  · rwa [hread] at hmem
  · exact owns_sslFree_bind (.refl _) (owns_return ⟨rfl, nofun⟩)
  · refine owns_sslFree_bind (.swap bio pkey []) (owns_return ⟨rfl, fun same hsame => ?_⟩)
    rw [← Option.some.inj hsame]
    exact hkind

theorem owns_loadPublicKey (pem : Text) :
    Owns [] (loadPublicKey ssl pem) (Leaves held KeyOnly) :=
  owns_loadKey (fun _ => rfl) pem

theorem owns_loadPrivateKey (pem : Text) :
    Owns [] (loadPrivateKey ssl pem) (Leaves held KeyOnly) :=
  owns_loadKey (fun _ => rfl) pem

/-- Two handles of known kinds. -/
theorem sublist_of_kinds {a b : SslHandle} {first second : HandleKind} (ha : a.kind = first)
    (hb : b.kind = second) :
    (([a, b] : List SslHandle).map Handle.kind).Sublist [first, second] := by
  rw [List.map_cons, List.map_singleton, ha, hb]

/-- The text of a `BIO` is made while its caller has the `BIO` and a key. -/
theorem owns_bioToString_bind {α : Type} {bio pkey : SslHandle} (hbio : bio.kind = .bio)
    (hpkey : pkey.kind = .evpPkey) {f : Text → SslAction ω α} {okay : α → List SslHandle → Prop}
    (hf : ∀ text, Owns [bio, pkey] (f text) (Leaves [.bio, .evpPkey] okay)) :
    Owns [bio, pkey] (bioToString ssl bio >>= f) (Leaves [.bio, .evpPkey] okay) := by
  refine owns_keeps_bind (owns_call_bind (given_first rfl) fun answer => ?_) hf
  split
  · exact owns_return rfl
  · exact owns_allocate_bind (sublist_of_kinds hbio hpkey) fun _ => owns_return rfl

/-- Writing a key leaves the key. -/
theorem owns_writeKey {pkey : SslHandle} (hpkey : pkey.kind = .evpPkey) {noBio failed : Text}
    {write : SslHandle → SslHandle → OpenSSLCall}
    (hwrite : ∀ bio, (write bio pkey).given = [bio, pkey]) :
    Owns [pkey] (writeKey ssl pkey noBio failed write)
      (Leaves [.bio, .evpPkey] fun _ kept => kept = [pkey]) := by
  refine owns_sslMake_bind (given_nothing rfl) owns_failWith fun bio hbio => ?_
  refine owns_check_bind (fun h hmem => ?_) fun answer => ?_
  · rwa [hwrite] at hmem
  · refine owns_bioToString_bind hbio hpkey fun key => ?_
    exact owns_sslFree_bind (.refl _) (owns_return rfl)

/-- What follows a load begins with the key, or with nothing. -/
theorem owns_load_bind {α : Type} {load : SslAction ω (Option SslHandle)}
    (hload : Owns [] load (Leaves held KeyOnly))
    {f : Option SslHandle → SslAction ω α} {okay : α → List SslHandle → Prop}
    (hnull : Owns [] (f none) (Leaves held okay))
    (hkey : ∀ pkey, pkey.kind = .evpPkey → Owns [pkey] (f (some pkey)) (Leaves held okay)) :
    Owns [] (load >>= f) (Leaves held okay) := by
  refine owns_leaves_bind hload ?_
  rintro key kept ⟨rfl, hkind⟩
  cases key with
  | none => exact hnull
  | some pkey => exact hkey pkey (hkind pkey rfl)

theorem givesBack_generateKeyPair (bits : Int) :
    GivesBackBut [.bio, .evpPkey] (generateKeyPair ssl bits) := by
  refine owns_sslMake_bind (given_nothing rfl) owns_failWithError fun ctx _ => ?_
  refine owns_check_bind (fun h hmem => hmem) fun _ => ?_
  refine owns_check_bind (fun h hmem => hmem) fun _ => ?_
  refine owns_makeOut_bind (fun h hmem => hmem) owns_failWithError fun pkey hpkey => ?_
  refine owns_sslFree_bind (.swap ctx pkey []) ?_
  refine owns_keeps_bind (owns_writeKey hpkey fun _ => rfl) fun publicKey => ?_
  refine owns_keeps_bind (owns_writeKey hpkey fun _ => rfl) fun privateKey => ?_
  exact owns_sslFree_bind (.refl _) (owns_return rfl)

/-- Between the two calls the context and the key are there, and the buffer may not. -/
theorem givesBack_crypt {load : SslAction ω (Option SslHandle)}
    (hload : ∀ held, Owns [] load (Leaves held KeyOnly)) {errors : CryptErrors}
    {init : SslHandle → OpenSSLCall} (hinit : ∀ ctx, (init ctx).given = [ctx])
    {op : SslHandle → Option Nat → Bytes → OpenSSLCall}
    (hop : ∀ ctx room data, (op ctx room data).given = [ctx]) (input : Bytes) :
    GivesBackBut [.evpPkeyCtx, .evpPkey] (crypt ssl load errors init op input) := by
  refine owns_load_bind (hload _) owns_failWithError fun pkey hpkey => ?_
  refine owns_sslMake_bind (fun h hmem => hmem) owns_failWithError fun ctx hctx => ?_
  have hheld := sublist_of_kinds hctx hpkey
  refine owns_check_bind (given_first (hinit ctx)) fun _ => ?_
  refine owns_check_bind (given_first rfl) fun _ => ?_
  refine owns_check_bind (given_first (hop ctx none input)) fun needed => ?_
  refine owns_allocate_bind hheld fun _ => ?_
  refine owns_check_bind (given_first (hop ctx (some needed.length) input)) fun output => ?_
  refine owns_resize_bind hheld fun _ => ?_
  refine owns_sslFree_bind (.refl _) ?_
  exact owns_sslFree_bind (.refl _) (owns_return rfl)

theorem givesBack_encryptWithPublic (plaintext : Bytes) (publicKey : Text) :
    GivesBackBut [.evpPkeyCtx, .evpPkey] (encryptWithPublic ssl plaintext publicKey) :=
  givesBack_crypt (fun _ => owns_loadPublicKey publicKey) (fun _ => rfl) (fun _ _ _ => rfl)
    plaintext

theorem givesBack_decryptWithPrivate (ciphertext : Bytes) (privateKey : Text) :
    GivesBackBut [.evpPkeyCtx, .evpPkey] (decryptWithPrivate ssl ciphertext privateKey) :=
  givesBack_crypt (fun _ => owns_loadPrivateKey privateKey) (fun _ => rfl) (fun _ _ _ => rfl)
    ciphertext

theorem givesBack_decryptWithPublic (ciphertext : Bytes) (publicKey : Text) :
    GivesBackBut [.evpPkeyCtx, .evpPkey] (decryptWithPublic ssl ciphertext publicKey) :=
  givesBack_crypt (fun _ => owns_loadPublicKey publicKey) (fun _ => rfl) (fun _ _ _ => rfl)
    ciphertext

theorem givesBack_sign (data : Bytes) (privateKey : Text) :
    GivesBackBut [.evpMdCtx, .evpPkey] (sign ssl data privateKey) := by
  refine owns_load_bind (owns_loadPrivateKey privateKey) owns_failWithError fun pkey hpkey => ?_
  refine owns_sslMake_bind (given_nothing rfl) owns_failWith fun ctx hctx => ?_
  have hheld := sublist_of_kinds hctx hpkey
  refine owns_check_bind (fun h hmem => hmem) fun _ => ?_
  refine owns_check_bind (given_first rfl) fun _ => ?_
  refine owns_check_bind (given_first rfl) fun needed => ?_
  refine owns_allocate_bind hheld fun _ => ?_
  refine owns_check_bind (given_first rfl) fun output => ?_
  refine owns_resize_bind hheld fun _ => ?_
  refine owns_sslFree_bind (.refl _) ?_
  exact owns_sslFree_bind (.refl _) (owns_return rfl)

theorem givesBack_verify (data signature : Bytes) (publicKey : Text) :
    GivesBackBut [] (verify ssl data signature publicKey) := by
  refine owns_load_bind (owns_loadPublicKey publicKey) owns_failWithError fun pkey _ => ?_
  refine owns_sslMake_bind (given_nothing rfl) owns_failWith fun ctx _ => ?_
  refine owns_check_bind (fun h hmem => hmem) fun _ => ?_
  refine owns_check_bind (given_first rfl) fun _ => ?_
  refine owns_call_bind (given_first rfl) fun result => ?_
  refine owns_sslFree_bind (.refl _) ?_
  exact owns_sslFree_bind (.refl _) (owns_return rfl)

theorem givesBack_validateKey {load : SslAction ω (Option SslHandle)}
    (hload : Owns [] load (Leaves [] KeyOnly)) :
    GivesBackBut [] (validateKey ssl load) :=
  owns_load_bind hload (owns_return rfl) fun _ _ =>
    owns_sslFree_bind (.refl _) (owns_return rfl)

theorem givesBack_extractPublicKey (privateKey : Text) :
    GivesBackBut [.bio, .evpPkey] (extractPublicKey ssl privateKey) := by
  refine owns_load_bind (owns_loadPrivateKey privateKey) owns_failWithError fun pkey hpkey => ?_
  refine owns_keeps_bind (owns_writeKey hpkey fun _ => rfl) fun publicKey => ?_
  exact owns_sslFree_bind (.refl _) (owns_return rfl)

end RSA

end Brazier
