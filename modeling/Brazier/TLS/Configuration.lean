import Brazier.ProofLib.Throwing
import Brazier.Text
import Brazier.TLS.KeyHistory
import Mathlib.Data.Option.NAry

/-!
# The configuration of a TLS context

`configure_ssl_ctx` of `src/HttpsServerTLS.cpp`. A context is the list of the calls that have
configured it, and every call that can fail does so when its surroundings say so. `settings` lists
what a `TlsConfig` asks for, and `configure_applies` says that a configuration that returns has made
exactly these calls.
-/

namespace Brazier

open ProofLib

/-- `HttpsServer::TlsConfig`. -/
structure TlsConfig where
  certFile : Text
  keyFile : Text
  caFile : Text
  certPem : Text
  keyPem : Text
  conf : List (Text × Text)
  requireClientCert : Bool := false
  verifyClientCert : Bool := false
  /-- In seconds. -/
  handshakeTimeout : Int := 15
  deriving DecidableEq

/-- `boost::asio::ssl::verify_mode`, as the server sets it. -/
inductive VerifyMode where
  | verifyNone
  | verifyPeer (failIfNoPeerCert : Bool)
  deriving DecidableEq

/-- A call that configures an `SSL_CTX`, with its arguments. -/
inductive SslCall (Certificate PrivateKey : Type) where
  /-- `default_workarounds`, `single_dh_use`, and no protocol before TLS 1.2. -/
  | setOptions
  /-- `SSL_OP_IGNORE_UNEXPECTED_EOF`. -/
  | ignoreUnexpectedEof
  /-- `SSL_SESS_CACHE_OFF`. -/
  | sessionCacheOff
  /-- `attach_to` of the ticket store of the server. -/
  | attachTicketStore
  | confCmd (cmd : Text) (value : Option Text)
  | confFinish
  | useCertificate (leaf : Certificate)
  | addExtraChainCert (chainCert : Certificate)
  | usePrivateKey (key : PrivateKey)
  | useCertificateChainFile (path : Text)
  | usePrivateKeyFile (path : Text)
  | checkPrivateKey
  | loadVerifyFile (path : Text)
  | setVerifyMode (mode : VerifyMode)
  deriving DecidableEq

/-- The readers of PEM: what the calls of `PEM_read_bio_X509` return before the first null, and
what `PEM_read_bio_PrivateKey` returns. -/
structure Pem (Certificate PrivateKey : Type) where
  certificates : Text → List Certificate
  privateKey : Text → Option PrivateKey

/-- An `ssl::context`. The serial number tells the objects apart that have been active one after
the other. -/
structure SslContext (Certificate PrivateKey : Type) where
  serial : Nat
  calls : List (SslCall Certificate PrivateKey)

/-- The TLS members of an `HttpsServer`. -/
structure TlsServer (Certificate PrivateKey : Type) where
  tls : TlsConfig
  sslCtx : Option (SslContext Certificate PrivateKey)
  ticketStore : TicketKeyStore

variable {Certificate PrivateKey : Type}

/-- What one configuration of a context meets: which calls fail, on a context with which calls, and
with which text; which objects are not to be had; what `ERR_error_string` says; and what surrounds
the generation of a ticket key. -/
structure Surroundings (Certificate PrivateKey : Type) where
  refuses : List (SslCall Certificate PrivateKey) → SslCall Certificate PrivateKey → Option Text
  confContext : Bool
  certBio : Bool
  keyBio : Bool
  errorText : Text
  tickets : TicketKeyStore.Ambient

/-- The server, and the context that is being configured. -/
structure Configuring (Certificate PrivateKey : Type) where
  server : TlsServer Certificate PrivateKey
  ctx : SslContext Certificate PrivateKey

/-- A store with a key is left alone. -/
theorem TicketKeyStore.ensure_initialized_keeps {store next : TicketKeyStore}
    {amb : TicketKeyStore.Ambient} (hne : store.keys ≠ [])
    (h : store.ensureInitialized amb = .ok next) : next = store := by
  cases hkeys : store.keys with
  | nil => exact absurd hkeys hne
  | cons front rest =>
      simp only [ensureInitialized, hkeys, pure, Except.pure, Except.ok.injEq] at h
      exact h.symm

/-- An initialised store has a key. -/
theorem TicketKeyStore.ensure_initialized_ne_nil {store next : TicketKeyStore}
    {amb : TicketKeyStore.Ambient} (h : store.ensureInitialized amb = .ok next) :
    next.keys ≠ [] := by
  cases hkeys : store.keys with
  | nil =>
      cases hk : generateKey amb.now amb.draw with
      | error e => simp [ensureInitialized, hkeys, hk, bind, Except.bind] at h
      | ok k =>
          simp only [ensureInitialized, hkeys, hk, bind, Except.bind, pure, Except.pure,
            Except.ok.injEq] at h
          rw [← h]
          exact List.cons_ne_nil k []
  | cons front rest =>
      have hne : store.keys ≠ [] := by
        rw [hkeys]
        exact List.cons_ne_nil front rest
      rw [ensure_initialized_keeps hne h]
      exact hne

namespace TlsServer

/-- A step of the configuration. -/
abbrev Action (Certificate PrivateKey : Type) :=
  Throwing (Configuring Certificate PrivateKey) Text

/-- A call that cannot fail. -/
def set (c : SslCall Certificate PrivateKey) : Action Certificate PrivateKey Unit :=
  modify fun s => { s with ctx := { s.ctx with calls := s.ctx.calls ++ [c] } }

/-- A call that fails by an exception, whose text `what` makes of the reason. -/
def call (env : Surroundings Certificate PrivateKey) (what : Text → Text)
    (c : SslCall Certificate PrivateKey) : Action Certificate PrivateKey Unit := do
  let s ← get
  match env.refuses s.ctx.calls c with
  | some reason => throw (what reason)
  | none => set c

/-- `ticket_store_.ensure_initialized()`. -/
def ensureTickets (env : Surroundings Certificate PrivateKey) :
    Action Certificate PrivateKey Unit := do
  let s ← get
  match s.server.ticketStore.ensureInitialized env.tickets with
  | .error e => throw (e : Text)
  | .ok ticketStore => modify fun s => { s with server := { s.server with ticketStore } }

/-- The arguments of `SSL_CONF_cmd`: an empty value is a null pointer. -/
def confCall (entry : Text × Text) : SslCall Certificate PrivateKey :=
  .confCmd (cString entry.1) (if entry.2 = [] then none else some (cString entry.2))

/-- The text of a failed `SSL_CONF_cmd`. -/
def confError (entry : Text × Text) : Text :=
  ("SSL_CONF_cmd failed for '" : Text) ++ entry.1 ++
    if entry.2 = [] then ("'" : Text) else ("=" : Text) ++ entry.2 ++ ("'" : Text)

/-- `apply_ssl_conf`. -/
def applySslConf (env : Surroundings Certificate PrivateKey) (tls : TlsConfig) :
    Action Certificate PrivateKey Unit :=
  if tls.conf = [] then pure ()
  else if env.confContext = false then throw ("SSL_CONF_CTX_new failed" : Text)
  else do
    tls.conf.forM fun entry => call env (fun _ => confError entry) (confCall entry)
    call env (fun _ => ("SSL_CONF_CTX_finish failed" : Text)) .confFinish

/-- What a `BIO_new_mem_buf` of a text delivers: a negative length is measured by `strlen`. -/
def memBuf (pem : Text) : Text :=
  if castInt pem.length < 0 then cString pem else pem.take (castInt pem.length).toNat

/-- `load_cert_from_memory`, from the key on. -/
def loadKeyFromMemory (pem : Pem Certificate PrivateKey)
    (env : Surroundings Certificate PrivateKey) (keyPem : Text) :
    Action Certificate PrivateKey Unit :=
  if env.keyBio = false then throw ("BIO_new_mem_buf (key) failed" : Text)
  else
    match pem.privateKey (memBuf keyPem) with
    | none => throw (("PEM_read_bio_PrivateKey failed: " : Text) ++ env.errorText)
    | some key => do
        call env (fun _ => ("SSL_CTX_use_PrivateKey failed" : Text)) (.usePrivateKey key)
        call env (fun _ => ("Certificate and private key do not match" : Text)) .checkPrivateKey

/-- `load_cert_from_memory`. -/
def loadCertFromMemory (pem : Pem Certificate PrivateKey)
    (env : Surroundings Certificate PrivateKey) (certPem keyPem : Text) :
    Action Certificate PrivateKey Unit :=
  if certPem = [] ∨ keyPem = [] then throw ("load_cert_from_memory: empty PEM" : Text)
  else if env.certBio = false then throw ("BIO_new_mem_buf (cert) failed" : Text)
  else
    match pem.certificates (memBuf certPem) with
    | [] => throw (("PEM_read_bio_X509 failed: " : Text) ++ env.errorText)
    | leaf :: chain => do
        call env (fun _ => ("SSL_CTX_use_certificate failed" : Text)) (.useCertificate leaf)
        chain.forM fun chainCert =>
          call env (fun _ => ("SSL_CTX_add_extra_chain_cert failed" : Text))
            (.addExtraChainCert chainCert)
        loadKeyFromMemory pem env keyPem

/-- The part of `configure_ssl_ctx` that loads the certificate. -/
def loadCertificate (pem : Pem Certificate PrivateKey)
    (env : Surroundings Certificate PrivateKey) (tls : TlsConfig) :
    Action Certificate PrivateKey Unit :=
  if tls.certPem ≠ [] ∧ tls.keyPem ≠ [] then loadCertFromMemory pem env tls.certPem tls.keyPem
  else do
    call env id (.useCertificateChainFile (cString tls.certFile))
    call env id (.usePrivateKeyFile (cString tls.keyFile))
    call env
      (fun _ => ("Certificate/private key mismatch: " : Text) ++ tls.certFile ++ (" / " : Text) ++
        tls.keyFile)
      .checkPrivateKey

/-- The part of `configure_ssl_ctx` that sets the verification of clients. -/
def setVerification (env : Surroundings Certificate PrivateKey) (tls : TlsConfig) :
    Action Certificate PrivateKey Unit :=
  if tls.requireClientCert || tls.verifyClientCert then do
    if tls.caFile ≠ [] then
      call env id (.loadVerifyFile (cString tls.caFile))
    call env id (.setVerifyMode (.verifyPeer tls.requireClientCert))
  else call env id (.setVerifyMode .verifyNone)

/-- The member `tls_`. -/
def tlsMember : Action Certificate PrivateKey TlsConfig := do
  let s ← get
  pure s.server.tls

/-- `configure_ssl_ctx`. -/
def configureSslCtx (pem : Pem Certificate PrivateKey)
    (env : Surroundings Certificate PrivateKey) : Action Certificate PrivateKey Unit := do
  call env id .setOptions
  set .ignoreUnexpectedEof
  set .sessionCacheOff
  ensureTickets env
  call env (fun _ => ("TicketKeyStore::attach_to: ex_data index not available" : Text))
    .attachTicketStore
  let tls ← tlsMember
  applySslConf env tls
  loadCertificate pem env tls
  setVerification env tls

/-! ## What a configuration asks for -/

/-- The entries of `conf`, and the end of them when there are any. -/
def confSettings (tls : TlsConfig) : List (SslCall Certificate PrivateKey) :=
  if tls.conf = [] then [] else tls.conf.map confCall ++ [.confFinish]

/-- The key of a text, when there is one. -/
def keySettings (pem : Pem Certificate PrivateKey) (keyPem : Text) :
    Option (List (SslCall Certificate PrivateKey)) :=
  (pem.privateKey (memBuf keyPem)).map fun key => [.usePrivateKey key, .checkPrivateKey]

/-- The certificate of a text with its chain, when there is one, and then the key. -/
def memorySettings (pem : Pem Certificate PrivateKey) (certPem keyPem : Text) :
    Option (List (SslCall Certificate PrivateKey)) :=
  match pem.certificates (memBuf certPem) with
  | [] => none
  | leaf :: chain =>
      (keySettings pem keyPem).map fun key =>
        .useCertificate leaf :: (chain.map .addExtraChainCert ++ key)

/-- The texts come before the files. -/
def certificateSettings (pem : Pem Certificate PrivateKey) (tls : TlsConfig) :
    Option (List (SslCall Certificate PrivateKey)) :=
  if tls.certPem ≠ [] ∧ tls.keyPem ≠ [] then memorySettings pem tls.certPem tls.keyPem
  else
    some [.useCertificateChainFile (cString tls.certFile),
      .usePrivateKeyFile (cString tls.keyFile), .checkPrivateKey]

/-- Clients are asked for a certificate when one of the flags says so. -/
def verificationSettings (tls : TlsConfig) : List (SslCall Certificate PrivateKey) :=
  if tls.requireClientCert || tls.verifyClientCert then
    (if tls.caFile ≠ [] then [.loadVerifyFile (cString tls.caFile)] else []) ++
      [.setVerifyMode (.verifyPeer tls.requireClientCert)]
  else [.setVerifyMode .verifyNone]

/-- All that a `TlsConfig` asks for, when it can be had. -/
def settings (pem : Pem Certificate PrivateKey) (tls : TlsConfig) :
    Option (List (SslCall Certificate PrivateKey)) :=
  (certificateSettings pem tls).map fun certificate =>
    [.setOptions, .ignoreUnexpectedEof, .sessionCacheOff, .attachTicketStore] ++
      (confSettings tls ++ (certificate ++ verificationSettings tls))

/-! ## What the steps make -/

/-- A step that ends in `s'` has kept the members of the server, except that an empty ticket store
may have got a key, and when it has returned, it has made the calls `wanted`. -/
structure Made (wanted : Option (List (SslCall Certificate PrivateKey)))
    (s : Configuring Certificate PrivateKey) (r : Except Text Unit)
    (s' : Configuring Certificate PrivateKey) : Prop where
  tls : s'.server.tls = s.server.tls
  sslCtx : s'.server.sslCtx = s.server.sslCtx
  tickets : s.server.ticketStore.keys ≠ [] → s'.server.ticketStore = s.server.ticketStore
  serial : s'.ctx.serial = s.ctx.serial
  calls : r = .ok () → ∃ made, wanted = some made ∧ s'.ctx.calls = s.ctx.calls ++ made

/-- A step that, on a server with the configuration `tls`, makes the calls `wanted`, or throws. -/
def Applies (tls : TlsConfig) (wanted : Option (List (SslCall Certificate PrivateKey)))
    (x : Action Certificate PrivateKey Unit) : Prop :=
  ∀ s, s.server.tls = tls → Ends x s (Made wanted s)

/-- Nothing has been made where nothing is wanted. -/
theorem made_nothing {s : Configuring Certificate PrivateKey} {r : Except Text Unit} :
    Made (some []) s r s where
  tls := rfl
  sslCtx := rfl
  tickets := fun _ => rfl
  serial := rfl
  calls := fun _ => ⟨[], rfl, (List.append_nil _).symm⟩

/-- What was kept by two steps in a row was kept, and what they made was made. -/
theorem Made.trans {first second : Option (List (SslCall Certificate PrivateKey))}
    {s s' s'' : Configuring Certificate PrivateKey} {r : Except Text Unit}
    (hfirst : Made first s (.ok ()) s') (hsecond : Made second s' r s'') :
    Made (Option.map₂ (· ++ ·) first second) s r s'' where
  tls := hsecond.tls.trans hfirst.tls
  sslCtx := hsecond.sslCtx.trans hfirst.sslCtx
  tickets := by
    intro hne
    have hsame := hfirst.tickets hne
    rw [← hsame] at hne ⊢
    exact hsecond.tickets hne
  serial := hsecond.serial.trans hfirst.serial
  calls := by
    intro hr
    obtain ⟨made, hmade, hcalls⟩ := hfirst.calls rfl
    obtain ⟨made', hmade', hcalls'⟩ := hsecond.calls hr
    exact ⟨made ++ made', by rw [hmade, hmade']; rfl, by rw [hcalls', hcalls, List.append_assoc]⟩

/-- A step that threw has made nothing that was wanted. -/
theorem Made.thrown {wanted other : Option (List (SslCall Certificate PrivateKey))}
    {s s' : Configuring Certificate PrivateKey} {e : Text} (h : Made wanted s (.error e) s') :
    Made other s (.error e) s' where
  tls := h.tls
  sslCtx := h.sslCtx
  tickets := h.tickets
  serial := h.serial
  calls := nofun

variable {tls : TlsConfig} {env : Surroundings Certificate PrivateKey}

theorem applies_pure : Applies tls (some []) (pure () : Action Certificate PrivateKey Unit) :=
  fun _ _ => ends_pure made_nothing

theorem applies_throw {wanted : Option (List (SslCall Certificate PrivateKey))} (e : Text) :
    Applies tls wanted (throw e) :=
  fun _ _ => ends_throw made_nothing.thrown

theorem applies_set (c : SslCall Certificate PrivateKey) : Applies tls (some [c]) (set c) := by
  intro s _
  exact ends_modify ⟨rfl, rfl, fun _ => rfl, rfl, fun _ => ⟨[c], rfl, rfl⟩⟩

theorem applies_call (what : Text → Text) (c : SslCall Certificate PrivateKey) :
    Applies tls (some [c]) (call env what c) := by
  intro s htls
  refine ends_get_bind ?_
  cases env.refuses s.ctx.calls c with
  | none => exact applies_set c s htls
  | some reason => exact applies_throw _ s htls

theorem Applies.of_eq {wanted other : Option (List (SslCall Certificate PrivateKey))}
    {x : Action Certificate PrivateKey Unit} (hx : Applies tls wanted x) (h : wanted = other) :
    Applies tls other x := h ▸ hx

/-- A step that reads the configuration. -/
theorem applies_tls {wanted : Option (List (SslCall Certificate PrivateKey))}
    {f : TlsConfig → Action Certificate PrivateKey Unit} (hf : Applies tls wanted (f tls)) :
    Applies tls wanted (tlsMember >>= f) := by
  intro s htls
  show Ends (f s.server.tls) s _
  rw [htls]
  exact hf s htls

/-- Two steps make what the one makes and then what the other makes. -/
theorem Applies.bind {first second : Option (List (SslCall Certificate PrivateKey))}
    {x y : Action Certificate PrivateKey Unit} (hx : Applies tls first x)
    (hy : Applies tls second y) :
    Applies tls (Option.map₂ (· ++ ·) first second) (x >>= fun _ => y) := by
  intro s htls
  refine (hx s htls).bind ?_ fun _ _ hthrown => hthrown.thrown
  intro _ s' hfirst
  exact (hy s' (hfirst.tls.trans htls)).imp fun _ _ hsecond => hfirst.trans hsecond

/-- A loop makes what its rounds make. -/
theorem applies_forM {α : Type} {f : α → SslCall Certificate PrivateKey}
    {body : α → Action Certificate PrivateKey Unit}
    (hbody : ∀ item, Applies tls (some [f item]) (body item)) (items : List α) :
    Applies tls (some (items.map f)) (items.forM body) := by
  induction items with
  | nil => exact applies_pure
  | cons item rest ih => exact (hbody item).bind ih

/-- The first key of an empty store. -/
theorem applies_tickets : Applies tls (some []) (ensureTickets env) := by
  intro s htls
  refine ends_get_bind ?_
  cases hstore : s.server.ticketStore.ensureInitialized env.tickets with
  | error e => exact applies_throw _ s htls
  | ok ticketStore =>
      refine ends_modify ⟨rfl, rfl, ?_, rfl, fun _ => ⟨[], rfl, (List.append_nil _).symm⟩⟩
      intro hne
      exact TicketKeyStore.ensure_initialized_keeps hne hstore

/-- Where the first key was made, or was not needed, there is one. -/
theorem tickets_seed (s : Configuring Certificate PrivateKey) :
    Ends (ensureTickets env) s (fun r s' => r = .ok () → s'.server.ticketStore.keys ≠ []) := by
  refine ends_get_bind ?_
  cases hstore : s.server.ticketStore.ensureInitialized env.tickets with
  | error e => exact ends_throw nofun
  | ok ticketStore => exact ends_modify fun _ => TicketKeyStore.ensure_initialized_ne_nil hstore

/-! ## The parts of the configuration -/

theorem applies_conf : Applies tls (some (confSettings tls)) (applySslConf env tls) := by
  unfold applySslConf confSettings
  by_cases hempty : tls.conf = []
  · rw [if_pos hempty, if_pos hempty]
    exact applies_pure
  rw [if_neg hempty, if_neg hempty]
  by_cases hcontext : env.confContext = false
  · rw [if_pos hcontext]
    exact applies_throw _
  · rw [if_neg hcontext]
    exact (applies_forM (fun entry => applies_call _ (confCall entry)) tls.conf).bind
      (applies_call _ .confFinish)

variable {pem : Pem Certificate PrivateKey}

theorem applies_key (keyPem : Text) :
    Applies tls (keySettings pem keyPem) (loadKeyFromMemory pem env keyPem) := by
  unfold loadKeyFromMemory keySettings
  by_cases hbio : env.keyBio = false
  · rw [if_pos hbio]
    exact applies_throw _
  rw [if_neg hbio]
  cases pem.privateKey (memBuf keyPem) with
  | none => exact applies_throw _
  | some key => exact (applies_call _ (.usePrivateKey key)).bind (applies_call _ .checkPrivateKey)

theorem applies_memory (certPem keyPem : Text) :
    Applies tls (memorySettings pem certPem keyPem)
      (loadCertFromMemory pem env certPem keyPem) := by
  unfold loadCertFromMemory memorySettings
  by_cases hempty : certPem = [] ∨ keyPem = []
  · rw [if_pos hempty]
    exact applies_throw _
  rw [if_neg hempty]
  by_cases hbio : env.certBio = false
  · rw [if_pos hbio]
    exact applies_throw _
  rw [if_neg hbio]
  cases pem.certificates (memBuf certPem) with
  | nil => exact applies_throw _
  | cons leaf chain =>
      refine ((applies_call _ _).bind ((applies_forM (fun chainCert =>
        applies_call _ (.addExtraChainCert chainCert)) chain).bind (applies_key keyPem))).of_eq ?_
      cases keySettings pem keyPem with
      | none => rfl
      | some key => rfl

/-- The texts are tried before the files. -/
theorem applies_certificate :
    Applies tls (certificateSettings pem tls) (loadCertificate pem env tls) := by
  unfold loadCertificate certificateSettings
  by_cases htexts : tls.certPem ≠ [] ∧ tls.keyPem ≠ []
  · rw [if_pos htexts, if_pos htexts]
    exact applies_memory tls.certPem tls.keyPem
  · rw [if_neg htexts, if_neg htexts]
    exact (applies_call _ _).bind ((applies_call _ _).bind (applies_call _ _))

theorem applies_verification :
    Applies tls (some (verificationSettings tls)) (setVerification env tls) := by
  unfold setVerification verificationSettings
  by_cases hverify : (tls.requireClientCert || tls.verifyClientCert) = true
  · rw [if_pos hverify, if_pos hverify]
    by_cases hca : tls.caFile ≠ []
    · rw [if_pos hca, if_pos hca]
      exact (applies_call _ _).bind (applies_call _ _)
    · rw [if_neg hca, if_neg hca]
      exact applies_call _ _
  · rw [if_neg hverify, if_neg hverify]
    exact applies_call _ _

/-- What `configure_ssl_ctx` does from the ticket store on. -/
theorem applies_attached :
    Applies tls
      ((certificateSettings pem tls).map fun certificate =>
        .attachTicketStore :: (confSettings tls ++ (certificate ++ verificationSettings tls)))
      (do
        call env (fun _ => ("TicketKeyStore::attach_to: ex_data index not available" : Text))
          .attachTicketStore
        let tls ← tlsMember
        applySslConf env tls
        loadCertificate pem env tls
        setVerification env tls) := by
  refine ((applies_call _ _).bind (applies_tls
    (applies_conf.bind (applies_certificate.bind applies_verification)))).of_eq ?_
  cases certificateSettings pem tls with
  | none => rfl
  | some certificate => rfl

/-- A configuration that returns has made what the `TlsConfig` of the server asks for. Whether it
returns or throws, it leaves the members of the server alone. -/
theorem configure_applies : Applies tls (settings pem tls) (configureSslCtx pem env) := by
  unfold configureSslCtx settings
  refine ((applies_call id _).bind ((applies_set _).bind ((applies_set _).bind
    (applies_tickets.bind applies_attached)))).of_eq ?_
  cases certificateSettings pem tls with
  | none => rfl
  | some certificate => rfl

/-- After a configuration that returns the ticket store has a key. -/
theorem configure_seeds (s : Configuring Certificate PrivateKey) :
    Ends (configureSslCtx pem env) s
      (fun r s' => r = .ok () → s'.server.ticketStore.keys ≠ []) := by
  unfold configureSslCtx
  refine (applies_call _ _ s rfl).bind (fun _ s₁ _ => ?_) nofun
  refine (applies_set _ s₁ rfl).bind (fun _ s₂ _ => ?_) nofun
  refine (applies_set _ s₂ rfl).bind (fun _ s₃ _ => ?_) nofun
  -- from here on there is a key, and what comes after the store keeps it
  refine (tickets_seed s₃).bind (fun _ s₄ hseeded => ?_) nofun
  refine (applies_attached s₄ rfl).imp fun r s' hmade _ => ?_
  have hne := hseeded rfl
  rw [hmade.tickets hne]
  exact hne

end TlsServer

end Brazier
