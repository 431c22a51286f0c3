import Brazier.Cryptography.Hash
import Brazier.Cryptography.RSA
import Brazier.TLS.Configuration

/-!
# Who gives handles back

The other functions that make handles of OpenSSL, with the calls that give them back: `encrypt` and
`decrypt` of `AES256`, `Hash::hash`, and `apply_ssl_conf` and `load_cert_from_memory` of the server.
`handles_accounted_for` is about any sequence of calls of these functions and those of `RSA`. Memory
and logging are among the calls where a function has handles; elsewhere an exception of theirs
leaves none.
-/

namespace Brazier

open ProofLib

variable {ω : Type}

/-! ## The functions -/

namespace AES256

/-- `resize` of a buffer to an `int`: what a negative one is converted to is refused. -/
def resizeInt (ssl : OpenSSL ω) (length : Nat) (totalLen : Int) : SslAction ω Unit :=
  if totalLen < 0 then throw (.foreign "basic_string::_M_replace_aux")
  else ssl.resize length totalLen.toNat

/-- A context is made, a text goes through it into a buffer with room for one block more, and the
context is given back. -/
def throughContext (ssl : OpenSSL ω) (initFailed updateFailed finalFailed : Text)
    (init update final : SslHandle → OpenSSLCall) (length : Nat) : SslAction ω Bytes := do
  match ← ssl.make .evpCipherCtx .evpCipherCtxNew with
  | none => throw (.failure "Failed to create cipher context")
  | some ctx => do
      let _ ← ssl.checkOne [ctx] initFailed (init ctx)
      ssl.allocate (length + blockSize)
      let first ← ssl.checkOne [ctx] updateFailed (update ctx)
      let last ← ssl.checkOne [ctx] finalFailed (final ctx)
      resizeInt ssl (length + blockSize) (wrapInt (first.length + last.length))
      ssl.free ctx
      pure (first.written ++ last.written)

/-- `encrypt`, with its context. -/
def encryptOwning (ssl : OpenSSL ω) (plaintext key iv : Bytes) : SslAction ω Bytes := do
  MonadExcept.ofExcept ((validateKey key).mapError .failure)
  MonadExcept.ofExcept ((validateIV iv).mapError .failure)
  throughContext ssl ("Failed to initialize encryption" : Text) ("Encryption update failed" : Text)
    ("Encryption finalization failed" : Text) (.evpEncryptInit · key iv)
    (.evpEncryptUpdate · plaintext) .evpEncryptFinal plaintext.length

/-- `decrypt`, with its context. -/
def decryptOwning (ssl : OpenSSL ω) (ciphertext key iv : Bytes) : SslAction ω Bytes := do
  MonadExcept.ofExcept ((validateKey key).mapError .failure)
  MonadExcept.ofExcept ((validateIV iv).mapError .failure)
  if ciphertext = [] then pure []
  else
    throughContext ssl ("Failed to initialize decryption" : Text)
      ("Decryption update failed" : Text)
      ("Decryption finalization failed - wrong key or corrupted data" : Text)
      (.evpDecryptInit · key iv) (.evpDecryptUpdate · ciphertext) .evpDecryptFinal
      ciphertext.length

end AES256

namespace Hash

/-- `generateSalt`, which makes no handle. -/
def generateSaltOwning (ssl : OpenSSL ω) (length : Nat) : SslAction ω Bytes := do
  ssl.allocate length
  let answer ← ssl.call (.randBytes length)
  if answer.code ≠ 1 then do
    ssl.log "Failed to generate salt"
    pure []
  else pure answer.written

/-- The salt that `hash` derives with: a copy of the one that was given, or a new one. -/
def saltOwning (ssl : OpenSSL ω) (salt : Bytes) : SslAction ω Bytes :=
  if salt.length > 0 then do
    ssl.allocate salt.length
    pure salt
  else generateSaltOwning ssl 64

/-- `hash`, with its handles. -/
def hashOwning (config : Config) (ssl : OpenSSL ω) (password : Text) (salt : Bytes) :
    SslAction ω (Text × Bytes) := do
  match ← ssl.make .evpKdf .evpKdfFetch with
  | none => pure ([], [])
  | some kdf => do
      match ← ssl.make .evpKdfCtx (.evpKdfCtxNew kdf) with
      | none => do
          ssl.log "Error: Failed to create KDF context"
          ssl.free kdf
          pure ([], [])
      | some ctx => do
          let salt ← saltOwning ssl salt
          let answer ← ssl.call (.evpKdfDerive ctx config.outputLength password salt)
          if answer.code ≤ 0 then do
            ssl.log "Error: Argon2 hashing failed"
            ssl.free ctx
            ssl.free kdf
            pure ([], [])
          else do
            ssl.allocate (2 * config.outputLength)
            ssl.free ctx
            ssl.free kdf
            pure (bytesToHexString answer.written, salt)

end Hash

namespace TlsServer

/-- The loop of `apply_ssl_conf`. -/
def confCommands (ssl : OpenSSL ω) (cctx : SslHandle) : List (Text × Text) → SslAction ω Unit
  | [] => pure ()
  | entry :: rest => do
      let answer ← ssl.call (.sslConfCmd cctx (cString entry.1)
        (if entry.2 = [] then none else some (cString entry.2)))
      if answer.code ≤ 0 then ssl.failWith [cctx] (confError entry)
      else confCommands ssl cctx rest

/-- `apply_ssl_conf`, with its context. -/
def applySslConfOwning (ssl : OpenSSL ω) (conf : List (Text × Text)) : SslAction ω Unit := do
  if conf = [] then pure ()
  else
    match ← ssl.make .sslConfCtx .sslConfCtxNew with
    | none => throw (.failure "SSL_CONF_CTX_new failed")
    | some cctx => do
        let _ ← ssl.call (.sslConfCtxSetFlags cctx)
        let _ ← ssl.call (.sslConfCtxSetSslCtx cctx)
        confCommands ssl cctx conf
        let _ ← ssl.checkOne [cctx] ("SSL_CONF_CTX_finish failed" : Text) (.sslConfCtxFinish cctx)
        ssl.free cctx

/-- The loop that reads the chain. The `SSL_CTX` takes over a certificate that it accepts. A text
has fewer certificates than characters. -/
def addChain (ssl : OpenSSL ω) (certBio : SslHandle) : Nat → SslAction ω Unit
  | 0 => pure ()
  | fuel + 1 => do
      match ← ssl.make .x509 (.pemReadBioX509 certBio) with
      | none => pure ()
      | some chainCert => do
          let _ ← ssl.checkOne [chainCert, certBio]
            ("SSL_CTX_add_extra_chain_cert failed" : Text) (.sslCtxAddExtraChainCert chainCert)
          handOver chainCert
          addChain ssl certBio fuel

/-- `load_cert_from_memory`, from the key on. -/
def loadKeyFromMemoryOwning (ssl : OpenSSL ω) (keyPem : Text) : SslAction ω Unit := do
  match ← ssl.make .bio (.bioNewMemBuf keyPem) with
  | none => throw (.failure "BIO_new_mem_buf (key) failed")
  | some keyBio => do
      let read ← ssl.make .evpPkey (.pemReadBioPrivateKey keyBio)
      ssl.free keyBio
      match read with
      | none => ssl.failWithError [] ("PEM_read_bio_PrivateKey failed: " : Text)
      | some pkey => do
          let _ ← ssl.checkOne [pkey] ("SSL_CTX_use_PrivateKey failed" : Text)
            (.sslCtxUsePrivateKey pkey)
          ssl.free pkey
          let _ ← ssl.checkOne [] ("Certificate and private key do not match" : Text)
            .sslCtxCheckPrivateKey
          pure ()

/-- `load_cert_from_memory`, with its handles. -/
def loadCertFromMemoryOwning (ssl : OpenSSL ω) (certPem keyPem : Text) : SslAction ω Unit := do
  if certPem = [] ∨ keyPem = [] then throw (.failure "load_cert_from_memory: empty PEM")
  else
    match ← ssl.make .bio (.bioNewMemBuf certPem) with
    | none => throw (.failure "BIO_new_mem_buf (cert) failed")
    | some certBio => do
        match ← ssl.make .x509 (.pemReadBioX509 certBio) with
        | none => ssl.failWithError [certBio] ("PEM_read_bio_X509 failed: " : Text)
        | some leaf => do
            let _ ← ssl.checkOne [leaf, certBio] ("SSL_CTX_use_certificate failed" : Text)
              (.sslCtxUseCertificate leaf)
            ssl.free leaf
            addChain ssl certBio certPem.length
            ssl.free certBio
            loadKeyFromMemoryOwning ssl keyPem

end TlsServer

/-! ## What they leave of handles -/

namespace AES256

variable {ssl : OpenSSL ω} {ctx : SslHandle}

/-- The checks of the key and the vector make no handle. -/
theorem owns_ofExcept_bind {x : Except Text Unit} {f : Unit → SslAction ω Bytes}
    (hf : GivesBackBut [.evpCipherCtx] (f ())) :
    GivesBackBut [.evpCipherCtx]
      ((MonadExcept.ofExcept (x.mapError SslThrown.failure) : SslAction ω Unit) >>= f) := by
  cases x with
  | ok u => exact hf
  | error e => exact owns_throwText

/-- The context is given back unless the buffer cannot be made or resized. -/
theorem givesBack_throughContext {initFailed updateFailed finalFailed : Text}
    {init update final : SslHandle → OpenSSLCall} (hinit : ∀ ctx, (init ctx).given = [ctx])
    (hupdate : ∀ ctx, (update ctx).given = [ctx]) (hfinal : ∀ ctx, (final ctx).given = [ctx])
    (length : Nat) :
    GivesBackBut [.evpCipherCtx]
      (throughContext ssl initFailed updateFailed finalFailed init update final length) := by
  refine owns_sslMake_bind (given_nothing rfl) owns_throwText fun ctx hkind => ?_
  have hheld : (([ctx] : List SslHandle).map Handle.kind).Sublist [.evpCipherCtx] := by
    rw [List.map_singleton, hkind]
  refine owns_checkOne_bind (given_first (hinit ctx)) fun _ => ?_
  refine owns_allocate_bind hheld fun _ => ?_
  refine owns_checkOne_bind (given_first (hupdate ctx)) fun first => ?_
  refine owns_checkOne_bind (given_first (hfinal ctx)) fun last => ?_
  have hfree : Owns [ctx] (ssl.free ctx >>= fun _ => pure (first.written ++ last.written))
      (Leaves [.evpCipherCtx] fun _ kept => kept = []) :=
    owns_sslFree_bind (.refl _) (owns_return rfl)
  unfold resizeInt
  split
  · exact owns_throwForeign hheld
  · exact owns_resize_bind hheld fun _ => hfree

theorem givesBack_encrypt (plaintext key iv : Bytes) :
    GivesBackBut [.evpCipherCtx] (encryptOwning ssl plaintext key iv) :=
  owns_ofExcept_bind (owns_ofExcept_bind
    (givesBack_throughContext (fun _ => rfl) (fun _ => rfl) (fun _ => rfl) plaintext.length))

theorem givesBack_decrypt (ciphertext key iv : Bytes) :
    GivesBackBut [.evpCipherCtx] (decryptOwning ssl ciphertext key iv) := by
  refine owns_ofExcept_bind (owns_ofExcept_bind ?_)
  split
  · exact owns_return rfl
  · exact givesBack_throughContext (fun _ => rfl) (fun _ => rfl) (fun _ => rfl) ciphertext.length

end AES256

namespace Hash

variable {ssl : OpenSSL ω} {own : List SslHandle} {held : List HandleKind}

/-- The salt is made without a handle. -/
theorem owns_generateSaltOwning (hheld : (own.map Handle.kind).Sublist held) (length : Nat) :
    Owns own (generateSaltOwning ssl length) (Leaves held fun _ kept => kept = own) := by
  refine owns_allocate_bind hheld fun _ => ?_
  refine owns_call_bind (given_nothing rfl) fun answer => ?_
  split
  · exact owns_log_bind hheld fun _ => owns_return rfl
  · exact owns_return rfl

theorem owns_saltOwning (hheld : (own.map Handle.kind).Sublist held) (salt : Bytes) :
    Owns own (saltOwning ssl salt) (Leaves held fun _ kept => kept = own) := by
  unfold saltOwning
  split
  · exact owns_allocate_bind hheld fun _ => owns_return rfl
  · exact owns_generateSaltOwning hheld 64

/-- A message that cannot be logged, and memory that is not there, leave both handles; without a
context the first one. -/
theorem givesBack_hash (config : Config) (password : Text) (salt : Bytes) :
    GivesBackBut [.evpKdfCtx, .evpKdf] (hashOwning config ssl password salt) := by
  refine owns_sslMake_bind (given_nothing rfl) (owns_return rfl) fun kdf hkdf => ?_
  refine owns_sslMake_bind (given_first rfl) ?_ fun ctx hctx => ?_
  · refine owns_log_bind ?_ fun _ => owns_sslFree_bind (.refl _) (owns_return rfl)
    rw [List.map_singleton, hkdf]
    exact List.sublist_cons_self _ _
  · have hheld := RSA.sublist_of_kinds hctx hkdf
    refine owns_keeps_bind (owns_saltOwning hheld salt) fun salt => ?_
    refine owns_call_bind (given_first rfl) fun answer => ?_
    split
    · refine owns_log_bind hheld fun _ => ?_
      refine owns_sslFree_bind (.refl _) ?_
      exact owns_sslFree_bind (.refl _) (owns_return rfl)
    · refine owns_allocate_bind hheld fun _ => ?_
      refine owns_sslFree_bind (.refl _) ?_
      exact owns_sslFree_bind (.refl _) (owns_return rfl)

end Hash

namespace TlsServer

variable {ssl : OpenSSL ω}

/-- The loop keeps its context, unless it throws. -/
theorem owns_confCommands (cctx : SslHandle) (conf : List (Text × Text)) :
    Owns [cctx] (confCommands ssl cctx conf) (Leaves [] fun _ kept => kept = [cctx]) := by
  induction conf with
  | nil => exact owns_return rfl
  | cons entry rest ih =>
      refine owns_call_bind (given_first rfl) fun answer => ?_
      split
      · exact owns_failWith
      · exact ih

theorem givesBack_applySslConf (conf : List (Text × Text)) :
    GivesBackBut [] (applySslConfOwning ssl conf) := by
  unfold applySslConfOwning
  split
  · exact owns_return rfl
  · refine owns_sslMake_bind (given_nothing rfl) owns_throwText fun cctx _ => ?_
    refine owns_call_bind (given_first rfl) fun _ => ?_
    refine owns_call_bind (given_first rfl) fun _ => ?_
    refine owns_keeps_bind (owns_confCommands cctx conf) fun _ => ?_
    refine owns_checkOne_bind (given_first rfl) fun _ => ?_
    exact owns_sslFree (.refl _) rfl

/-- The chain is handed over, or what was read of it last is given back. -/
theorem owns_addChain (certBio : SslHandle) (fuel : Nat) :
    Owns [certBio] (addChain ssl certBio fuel)
      (LeavesAnd [] (· = .x509) fun _ kept => kept = [certBio]) := by
  induction fuel with
  | zero => exact owns_return rfl
  | succ fuel ih =>
      refine owns_sslMake_bind (given_first rfl) (owns_return rfl) fun chainCert hkind => ?_
      refine owns_checkOne_bind (given_first rfl) fun _ => ?_
      exact owns_handOver_bind hkind ih

theorem owns_loadKeyFromMemory (keyPem : Text) :
    Owns [] (loadKeyFromMemoryOwning ssl keyPem)
      (LeavesAnd [] (· = .x509) fun _ kept => kept = []) := by
  refine owns_sslMake_bind (given_nothing rfl) owns_throwText fun keyBio _ => ?_
  refine owns_sslMake_bind (given_first rfl) ?_ fun pkey _ => ?_
  · exact owns_sslFree_bind (.refl _) owns_failWithError
  · refine owns_sslFree_bind (.swap keyBio pkey []) ?_
    refine owns_checkOne_bind (given_first rfl) fun _ => ?_
    refine owns_sslFree_bind (.refl _) ?_
    exact owns_checkOne_bind (given_nothing rfl) fun _ => owns_return rfl

/-- Whatever fails, the only handles that are not given back are certificates of the chain that the
`SSL_CTX` took over. -/
theorem owns_loadCertFromMemory (certPem keyPem : Text) :
    Owns [] (loadCertFromMemoryOwning ssl certPem keyPem)
      (LeavesAnd [] (· = .x509) fun _ kept => kept = []) := by
  unfold loadCertFromMemoryOwning
  split
  · exact owns_throwText
  · refine owns_sslMake_bind (given_nothing rfl) owns_throwText fun certBio _ => ?_
    refine owns_sslMake_bind (given_first rfl) owns_failWithError fun leaf _ => ?_
    refine owns_checkOne_bind (given_first rfl) fun _ => ?_
    refine owns_sslFree_bind (.refl _) ?_
    refine owns_keeps_bind (owns_addChain certBio certPem.length) fun _ => ?_
    exact owns_sslFree_bind (.refl _) (owns_loadKeyFromMemory keyPem)

end TlsServer

/-! ## Any sequence of calls -/

/-- A call of a function that makes handles. -/
inductive SslUse where
  | generateKeyPair (bits : Int)
  | encryptWithPublic (plaintext : Bytes) (publicKey : Text)
  | decryptWithPrivate (ciphertext : Bytes) (privateKey : Text)
  | encryptWithPrivate (plaintext : Bytes) (privateKey : Text)
  | decryptWithPublic (ciphertext : Bytes) (publicKey : Text)
  | sign (data : Bytes) (privateKey : Text)
  | verify (data signature : Bytes) (publicKey : Text)
  | validatePublicKey (publicKey : Text)
  | validatePrivateKey (privateKey : Text)
  | extractPublicKey (privateKey : Text)
  | encrypt (plaintext key iv : Bytes)
  | decrypt (ciphertext key iv : Bytes)
  | hash (config : Hash.Config) (password : Text) (salt : Bytes)
  | applySslConf (conf : List (Text × Text))
  | loadCertFromMemory (certPem keyPem : Text)

/-- The handles that a function has where an exception of the standard library or of the logger may
come past it. -/
def SslUse.held : SslUse → List HandleKind
  | .generateKeyPair _ | .extractPublicKey _ => [.bio, .evpPkey]
  | .encryptWithPublic _ _ | .decryptWithPrivate _ _ | .decryptWithPublic _ _ =>
      [.evpPkeyCtx, .evpPkey]
  | .encryptWithPrivate _ _ | .sign _ _ => [.evpMdCtx, .evpPkey]
  | .encrypt _ _ _ | .decrypt _ _ _ => [.evpCipherCtx]
  | .hash _ _ _ => [.evpKdfCtx, .evpKdf]
  | .verify _ _ _ | .validatePublicKey _ | .validatePrivateKey _ | .applySslConf _
  | .loadCertFromMemory _ _ => []

/-- Whether a function returned, and what it threw. -/
def discard {α : Type} (x : SslAction ω α) : SslAction ω Unit := x >>= fun _ => pure ()

/-- The function is called. -/
def serve (ssl : OpenSSL ω) : SslUse → SslAction ω Unit
  | .generateKeyPair bits => discard (RSA.generateKeyPair ssl bits)
  | .encryptWithPublic plaintext key => discard (RSA.encryptWithPublic ssl plaintext key)
  | .decryptWithPrivate ciphertext key => discard (RSA.decryptWithPrivate ssl ciphertext key)
  | .encryptWithPrivate plaintext key => discard (RSA.encryptWithPrivate ssl plaintext key)
  | .decryptWithPublic ciphertext key => discard (RSA.decryptWithPublic ssl ciphertext key)
  | .sign data key => discard (RSA.sign ssl data key)
  | .verify data signature key => discard (RSA.verify ssl data signature key)
  | .validatePublicKey key => discard (RSA.validatePublicKey ssl key)
  | .validatePrivateKey key => discard (RSA.validatePrivateKey ssl key)
  | .extractPublicKey key => discard (RSA.extractPublicKey ssl key)
  | .encrypt plaintext key iv => discard (AES256.encryptOwning ssl plaintext key iv)
  | .decrypt ciphertext key iv => discard (AES256.decryptOwning ssl ciphertext key iv)
  | .hash config password salt => discard (Hash.hashOwning config ssl password salt)
  | .applySslConf conf => TlsServer.applySslConfOwning ssl conf
  | .loadCertFromMemory certPem keyPem => TlsServer.loadCertFromMemoryOwning ssl certPem keyPem

/-- The functions are called one after the other, by callers who catch what is thrown. -/
def serveAll (ssl : OpenSSL ω) : List SslUse → SslAction ω (List (Except SslThrown Unit))
  | [] => pure []
  | use :: rest => do
      let result ← attempt (serve ssl use)
      let results ← serveAll ssl rest
      pure (result :: results)

variable {ssl : OpenSSL ω}

/-- What one call leaves: nothing, but for the handles it had when an exception came past it, and
certificates that it handed over. -/
abbrev Accounted (held : List HandleKind) :
    Except SslThrown Unit → List SslHandle → List SslHandle → Prop :=
  LeavesAnd held (· = .x509) fun _ kept => kept = []

theorem accounted_discard {α : Type} {held : List HandleKind} {x : SslAction ω α}
    (hx : GivesBackBut held x) : Owns [] (discard x) (Accounted held) := by
  have hkeeps : Owns [] x (LeavesAnd held (· = .x509) fun _ kept => kept = []) :=
    hx.imp fun r kept handed hend => leavesAnd_of_leaves hend
  exact owns_keeps_bind hkeeps fun _ => owns_return rfl

variable (ssl) in
/-- Each function accounts for its handles. -/
theorem serve_accounted (use : SslUse) : Owns [] (serve ssl use) (Accounted use.held) := by
  cases use with
  | generateKeyPair bits => exact accounted_discard (RSA.givesBack_generateKeyPair bits)
  | encryptWithPublic plaintext key =>
      exact accounted_discard (RSA.givesBack_encryptWithPublic plaintext key)
  | decryptWithPrivate ciphertext key =>
      exact accounted_discard (RSA.givesBack_decryptWithPrivate ciphertext key)
  | encryptWithPrivate plaintext key => exact accounted_discard (RSA.givesBack_sign plaintext key)
  | decryptWithPublic ciphertext key =>
      exact accounted_discard (RSA.givesBack_decryptWithPublic ciphertext key)
  | sign data key => exact accounted_discard (RSA.givesBack_sign data key)
  | verify data signature key =>
      exact accounted_discard (RSA.givesBack_verify data signature key)
  | validatePublicKey key =>
      exact accounted_discard (RSA.givesBack_validateKey (RSA.owns_loadPublicKey key))
  | validatePrivateKey key =>
      exact accounted_discard (RSA.givesBack_validateKey (RSA.owns_loadPrivateKey key))
  | extractPublicKey key => exact accounted_discard (RSA.givesBack_extractPublicKey key)
  | encrypt plaintext key iv => exact accounted_discard (AES256.givesBack_encrypt plaintext key iv)
  | decrypt ciphertext key iv =>
      exact accounted_discard (AES256.givesBack_decrypt ciphertext key iv)
  | hash config password salt =>
      exact accounted_discard (Hash.givesBack_hash config password salt)
  | applySslConf conf =>
      exact (TlsServer.givesBack_applySslConf conf).imp fun r kept handed hend =>
        leavesAnd_of_leaves hend
  | loadCertFromMemory certPem keyPem => exact TlsServer.owns_loadCertFromMemory certPem keyPem

/-- The handles that calls with these results may leave: those of the functions past which an
exception came. -/
def leavable : List SslUse → List (Except SslThrown Unit) → List HandleKind
  | use :: uses, .error (.foreign _) :: results => use.held ++ leavable uses results
  | _ :: uses, _ :: results => leavable uses results
  | _, _ => []

/-- What a sequence of calls may leave beside the handles that were there. -/
structure LeftBehind (uses : List SslUse) (results : List (Except SslThrown Unit))
    (leaked handed : List SslHandle) : Prop where
  length : results.length = uses.length
  kinds : (leaked.map Handle.kind).Sublist (leavable uses results)
  certificates : ∀ h ∈ handed, h.kind = .x509

/-- One more call. -/
theorem leftBehind_cons {use : SslUse} {uses : List SslUse} {result : Except SslThrown Unit}
    {results : List (Except SslThrown Unit)} {kept leaked first handed : List SslHandle}
    (hfirst : Accounted use.held result kept first)
    (hrest : LeftBehind uses results leaked handed) :
    LeftBehind (use :: uses) (result :: results) (kept ++ leaked) (handed ++ first) := by
  refine ⟨?_, ?_, List.forall_mem_append.mpr ⟨hrest.certificates, leavesAnd_handed hfirst⟩⟩
  · rw [List.length_cons, List.length_cons, hrest.length]
  · rw [List.map_append]
    match result with
    | .ok _ =>
        rw [hfirst.1]
        exact hrest.kinds
    | .error (.failure _) =>
        rw [hfirst.1]
        exact hrest.kinds
    | .error (.foreign _) => exact hfirst.1.append hrest.kinds

variable (ssl) in
/-- By induction on the calls: each one begins with the handles that the ones before left. -/
theorem owns_serveAll (uses : List SslUse) (own : List SslHandle) :
    Owns own (serveAll ssl uses) fun r kept handed => ∃ results leaked,
      r = .ok results ∧ kept.Perm (leaked ++ own) ∧ LeftBehind uses results leaked handed := by
  induction uses generalizing own with
  | nil =>
      refine owns_pure ⟨[], [], rfl, .refl own, rfl, .refl _, ?_⟩
      exact fun _ h => absurd h List.not_mem_nil
  | cons use rest ih =>
      have huse := ((serve_accounted ssl use).frame own).attempt
      rw [List.nil_append] at huse
      refine huse.bind ?_ ?_
      · rintro result kept first ⟨result, hresult, mine, rfl, hfirst⟩
        cases hresult
        refine (ih (mine ++ own)).bind ?_ ?_
        · rintro results left handed ⟨results, leaked, hresults, hperm, hrest⟩
          cases hresults
          refine owns_pure ⟨result :: results, mine ++ leaked, rfl, ?_, ?_⟩
          · rw [← List.append_assoc] at hperm
            exact hperm.trans (List.perm_append_comm.append_right own)
          · exact leftBehind_cons hfirst hrest
        · rintro e left handed ⟨results, leaked, hresults, -⟩
          cases hresults
      · rintro e kept first ⟨result, hresult, -⟩
        cases hresult

/-- Whatever OpenSSL answers, whatever memory there is and messages can be logged, and in whatever
order the functions are called: no handle is used or given back after it was given back. What is in
use at the end was in use at the beginning, up to handles that functions had when an exception of
the standard library or of the logger came past them; and only certificates were handed over. -/
theorem handles_accounted_for (ssl : OpenSSL ω) (uses : List SslUse)
    (s : Handles HandleKind) (w : ω) :
    ∃ results s' w' leaked handed,
      (serveAll ssl uses).outcome s w = some (.ok results, s', w') ∧
        s'.live.Perm (leaked ++ s.live) ∧ s'.handed = handed ++ s.handed ∧
        LeftBehind uses results leaked handed := by
  obtain ⟨r, s', w', kept, handed, hrun, hlive, hhanded, results, leaked, rfl, hperm, hleft⟩ :=
    owns_serveAll ssl uses s.live s w [] (by rw [List.append_nil])
  rw [List.append_nil] at hlive
  exact ⟨results, s', w', leaked, handed, hrun, hlive.trans hperm, hhanded, hleft⟩

end Brazier
