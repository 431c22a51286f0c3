import Brazier.ProofLib.Runs
import Brazier.TLS.Configuration
import Brazier.TLS.TicketLifetime

/-!
# Reloading the TLS configuration

`configure_tls` and the two `reloadTls` of `src/HttpsServerTLS.cpp`. Between reloads the handshakes
of the connections use the ticket store. `reload_atomic` says that a reload takes effect as a whole
or not at all, whatever step of it fails, and `active_context_matches` that the active context is
always one that was configured from `tls_`.
-/

namespace Brazier

open ProofLib

/-- What an `std::ifstream` meets at a path. Reading a file that is open may throw. -/
inductive FileOutcome where
  | notOpened
  | unreadable (what : Text)
  | contents (text : Text)
  deriving DecidableEq

variable {Certificate PrivateKey : Type}

/-- What a reload meets: the two files, the exception of the constructor of the context if it throws
one, and the surroundings of the configuration. -/
structure ReloadSurroundings (Certificate PrivateKey : Type) extends
    Surroundings Certificate PrivateKey where
  certFile : FileOutcome
  keyFile : FileOutcome
  newContext : Option Text

namespace TlsServer

/-- A member function of the server. -/
abbrev Member (Certificate PrivateKey : Type) := Throwing (TlsServer Certificate PrivateKey) Text

/-- `std::make_shared<ssl::context>(ssl::context::tls_server)`: no object that is in use. -/
def makeContext (server : TlsServer Certificate PrivateKey) :
    SslContext Certificate PrivateKey where
  serial :=
    match server.sslCtx with
    | none => 0
    | some ctx => ctx.serial + 1
  calls := []

/-- `configure_tls`, which configures the active context in its place. -/
def configureTls (pem : Pem Certificate PrivateKey) (env : Surroundings Certificate PrivateKey) :
    Member Certificate PrivateKey Unit := fun server =>
  match server.sslCtx with
  | none => (.error ("configure_tls: ssl_ctx_ not initialized" : Text), server)
  | some ctx =>
      let (result, s) := (configureSslCtx pem env).outcome ⟨server, ctx⟩
      (result, { s.server with sslCtx := some s.ctx })

/-- `configure_ssl_ctx` of a context that is not the active one. -/
def configured (pem : Pem Certificate PrivateKey) (env : Surroundings Certificate PrivateKey)
    (ctx : SslContext Certificate PrivateKey) :
    Member Certificate PrivateKey (SslContext Certificate PrivateKey) := fun server =>
  let (result, s) := (configureSslCtx pem env).outcome ⟨server, ctx⟩
  (result.map fun _ => s.ctx, s.server)

/-- The inner `try` block of `reloadTls(new_tls)`: its handler restores `tls_` and rethrows. -/
def configuredOrRestored (pem : Pem Certificate PrivateKey)
    (env : Surroundings Certificate PrivateKey) (ctx : SslContext Certificate PrivateKey)
    (saved : TlsConfig) : Member Certificate PrivateKey (SslContext Certificate PrivateKey) :=
  tryCatch (configured pem env ctx) fun e => do
    modify fun server => { server with tls := saved }
    throw e

/-- The outer `try` block of `reloadTls(new_tls)`. -/
def replaceContext (pem : Pem Certificate PrivateKey)
    (env : ReloadSurroundings Certificate PrivateKey) (newTls : TlsConfig) :
    Member Certificate PrivateKey Bool := do
  let server ← get
  match env.newContext with
  | some e => throw e
  | none => do
      let saved := server.tls
      modify fun server => { server with tls := newTls }
      let newCtx ← configuredOrRestored pem env.toSurroundings server.makeContext saved
      modify fun server => { server with sslCtx := some newCtx }
      pure true

/-- `reloadTls(new_tls)`. -/
def reloadTlsWith (pem : Pem Certificate PrivateKey)
    (env : ReloadSurroundings Certificate PrivateKey) (newTls : TlsConfig) :
    Member Certificate PrivateKey Bool :=
  tryCatch (replaceContext pem env newTls) fun _ => pure false

/-- The `std::string` of an `std::istreambuf_iterator`. -/
def contentsOf : FileOutcome → Member Certificate PrivateKey Text
  | .notOpened => pure []
  | .unreadable e => throw e
  | .contents text => pure text

/-- `reloadTls()`. -/
def reloadTls (pem : Pem Certificate PrivateKey)
    (env : ReloadSurroundings Certificate PrivateKey) : Member Certificate PrivateKey Bool := do
  let server ← get
  if server.tls.certFile ≠ [] ∧ server.tls.keyFile ≠ [] then
    if env.certFile = .notOpened ∨ env.keyFile = .notOpened then pure false
    else do
      let certPem ← contentsOf env.certFile
      let keyPem ← contentsOf env.keyFile
      reloadTlsWith pem env { server.tls with certPem, keyPem }
  else pure false

/-! ## One reload -/

/-- The active context was configured from `tls_`. -/
def Matches (pem : Pem Certificate PrivateKey) (server : TlsServer Certificate PrivateKey) : Prop :=
  ∃ ctx, server.sslCtx = some ctx ∧ settings pem server.tls = some ctx.calls

/-- The active context is another object than before. -/
def Replaced (before after : TlsServer Certificate PrivateKey) : Prop :=
  after.sslCtx.map SslContext.serial ≠ before.sslCtx.map SslContext.serial

/-- A reload has replaced the context by one that matches `tls_` and returned `true`, or has left
both alone; and it has left a ticket store with a key alone. -/
structure Atomic (pem : Pem Certificate PrivateKey) (before : TlsServer Certificate PrivateKey)
    (result : Except Text Bool) (after : TlsServer Certificate PrivateKey) : Prop where
  replaced : result = .ok true ↔ Replaced before after ∧ after.Matches pem
  kept : result ≠ .ok true → after.tls = before.tls ∧ after.sslCtx = before.sslCtx
  tickets : before.ticketStore.keys ≠ [] → after.ticketStore = before.ticketStore

variable {pem : Pem Certificate PrivateKey} {before after : TlsServer Certificate PrivateKey}

/-- A reload that does not return `true` has to leave both members alone. -/
theorem atomic_of_kept {result : Except Text Bool} (hresult : result ≠ .ok true)
    (htls : after.tls = before.tls) (hctx : after.sslCtx = before.sslCtx)
    (htickets : before.ticketStore.keys ≠ [] → after.ticketStore = before.ticketStore) :
    Atomic pem before result after where
  replaced := by
    refine iff_of_false hresult fun h => h.1 ?_
    rw [hctx]
  kept := fun _ => ⟨htls, hctx⟩
  tickets := htickets

/-- A new context is not the active one. -/
theorem serial_makeContext (server : TlsServer Certificate PrivateKey) :
    some server.makeContext.serial ≠ server.sslCtx.map SslContext.serial := by
  unfold makeContext
  cases server.sslCtx with
  | none => exact nofun
  | some ctx =>
      show some (ctx.serial + 1) ≠ some ctx.serial
      intro h
      have := Option.some.inj h
      omega

/-- The configuration of a context outside the server leaves the members alone, and a context that
it returns has been configured from `tls_`. -/
structure Outside (pem : Pem Certificate PrivateKey) (ctx : SslContext Certificate PrivateKey)
    (before : TlsServer Certificate PrivateKey)
    (r : Except Text (SslContext Certificate PrivateKey))
    (after : TlsServer Certificate PrivateKey) : Prop where
  tls : after.tls = before.tls
  sslCtx : after.sslCtx = before.sslCtx
  tickets : before.ticketStore.keys ≠ [] → after.ticketStore = before.ticketStore
  made : ∀ newCtx, r = .ok newCtx → newCtx.serial = ctx.serial ∧
    ∃ made, settings pem before.tls = some made ∧ newCtx.calls = ctx.calls ++ made

theorem configured_ends (env : Surroundings Certificate PrivateKey)
    (ctx : SslContext Certificate PrivateKey) (server : TlsServer Certificate PrivateKey) :
    Ends (configured pem env ctx) server (Outside pem ctx server) := by
  have hmade : Ends (configureSslCtx pem env) ⟨server, ctx⟩ _ := configure_applies _ rfl
  unfold Ends at hmade
  show Outside pem ctx server
    (((configureSslCtx pem env).outcome ⟨server, ctx⟩).1.map fun _ =>
      ((configureSslCtx pem env).outcome ⟨server, ctx⟩).2.ctx)
    ((configureSslCtx pem env).outcome ⟨server, ctx⟩).2.server
  generalize (configureSslCtx pem env).outcome ⟨server, ctx⟩ = out at hmade ⊢
  refine ⟨hmade.tls, hmade.sslCtx, hmade.tickets, ?_⟩
  intro newCtx hnew
  cases hr : out.1 with
  | error e =>
      rw [hr] at hnew
      cases hnew
  | ok _ =>
      rw [hr] at hnew
      cases hnew
      exact ⟨hmade.serial, hmade.calls hr⟩

/-- The inner `try` block: after an exception `tls_` is what it was. -/
theorem configured_or_restored (env : Surroundings Certificate PrivateKey)
    (ctx : SslContext Certificate PrivateKey) (newTls : TlsConfig)
    (server : TlsServer Certificate PrivateKey) :
    Ends (configuredOrRestored pem env ctx server.tls) { server with tls := newTls }
      (fun r after =>
        match r with
        | .ok newCtx => Outside pem ctx { server with tls := newTls } (.ok newCtx) after
        | .error _ => ∀ result ≠ .ok true, Atomic pem server result after) := by
  refine (configured_ends env ctx _).handle (fun _ _ houtside => houtside) ?_
  intro e after houtside
  exact ends_modify_bind (ends_throw fun _ hresult =>
    atomic_of_kept hresult rfl houtside.sslCtx houtside.tickets)

/-- The new context and the new configuration go together. -/
theorem atomic_of_replaced {newTls : TlsConfig} {newCtx : SslContext Certificate PrivateKey}
    (h : Outside pem before.makeContext { before with tls := newTls } (.ok newCtx) after) :
    Atomic pem before (.ok true) { after with sslCtx := some newCtx } where
  replaced := by
    obtain ⟨hserial, made, hsettings, hcalls⟩ := h.made newCtx rfl
    refine iff_of_true rfl ⟨?_, newCtx, rfl, ?_⟩
    · show some newCtx.serial ≠ _
      rw [hserial]
      exact serial_makeContext before
    · show settings pem after.tls = _
      rw [h.tls, hsettings, hcalls]
      rfl
  kept := fun hfalse => absurd rfl hfalse
  tickets := h.tickets

/-- The outer `try` block replaces the context, or throws and leaves the members alone. -/
theorem replaceContext_ends (env : ReloadSurroundings Certificate PrivateKey) (newTls : TlsConfig)
    (server : TlsServer Certificate PrivateKey) :
    Ends (replaceContext pem env newTls) server (fun r after =>
      match r with
      | .ok b => b = true ∧ Atomic pem server (.ok true) after ∧ after.tls = newTls
      | .error _ => ∀ result ≠ .ok true, Atomic pem server result after) := by
  refine ends_get_bind ?_
  cases env.newContext with
  | some e =>
      exact ends_throw fun _ hresult => atomic_of_kept hresult rfl rfl fun _ => rfl
  | none =>
      refine ends_modify_bind ((configured_or_restored env.toSurroundings server.makeContext newTls
        server).bind ?_ fun _ _ hkept => hkept)
      intro newCtx after houtside
      exact ends_modify_bind (ends_pure ⟨rfl, atomic_of_replaced houtside, houtside.tls⟩)

/-- A reload with a given configuration is atomic and returns; after `true` that configuration is
the one in `tls_`. -/
theorem reloadTlsWith_ends (env : ReloadSurroundings Certificate PrivateKey)
    (newTls : TlsConfig) (server : TlsServer Certificate PrivateKey) :
    Ends (reloadTlsWith pem env newTls) server (fun r after =>
      Atomic pem server r after ∧ (∃ b, r = .ok b) ∧ (r = .ok true → after.tls = newTls)) := by
  refine (replaceContext_ends env newTls server).handle ?_ ?_
  · intro b after ⟨hb, hatomic, htls⟩
    rw [hb]
    exact ⟨hatomic, ⟨true, rfl⟩, fun _ => htls⟩
  · intro e after hkept
    exact ends_pure ⟨hkept _ nofun, ⟨false, rfl⟩, nofun⟩

/-- Reading leaves the server alone. -/
theorem contentsOf_ends (file : FileOutcome) (server : TlsServer Certificate PrivateKey) :
    Ends (contentsOf file) server (fun r after =>
      after = server ∧ ∀ e, r = .error e → file = .unreadable e) := by
  cases file with
  | notOpened => exact ends_pure ⟨rfl, nofun⟩
  | contents text => exact ends_pure ⟨rfl, nofun⟩
  | unreadable e =>
      refine ends_throw ⟨rfl, ?_⟩
      intro e' h
      rw [Except.error.inj h]

/-- A reload from the files is atomic, and it returns unless the reading throws. -/
theorem reloadTls_ends (env : ReloadSurroundings Certificate PrivateKey)
    (server : TlsServer Certificate PrivateKey) :
    Ends (reloadTls pem env) server (fun r after =>
      Atomic pem server r after ∧
        ∀ e, r = .error e → env.certFile = .unreadable e ∨ env.keyFile = .unreadable e) := by
  have hkept : ∀ result ≠ .ok true, Atomic pem server result server :=
    fun _ hresult => atomic_of_kept hresult rfl rfl fun _ => rfl
  refine ends_get_bind ?_
  by_cases hpaths : server.tls.certFile ≠ [] ∧ server.tls.keyFile ≠ []
  · rw [if_pos hpaths]
    by_cases hopen : env.certFile = .notOpened ∨ env.keyFile = .notOpened
    · rw [if_pos hopen]
      exact ends_pure ⟨hkept _ nofun, nofun⟩
    · rw [if_neg hopen]
      refine (contentsOf_ends env.certFile server).bind ?_ ?_
      · rintro certPem _ ⟨rfl, -⟩
        refine (contentsOf_ends env.keyFile _).bind ?_ ?_
        · rintro keyPem _ ⟨rfl, -⟩
          refine (reloadTlsWith_ends env _ _).imp ?_
          rintro r after ⟨hatomic, ⟨b, rfl⟩, -⟩
          exact ⟨hatomic, nofun⟩
        · rintro e _ ⟨rfl, hread⟩
          refine ⟨hkept _ nofun, ?_⟩
          rintro _ ⟨⟩
          exact Or.inr (hread e rfl)
      · rintro e _ ⟨rfl, hread⟩
        refine ⟨hkept _ nofun, ?_⟩
        rintro _ ⟨⟩
        exact Or.inl (hread e rfl)
  · rw [if_neg hpaths]
    exact ends_pure ⟨hkept _ nofun, nofun⟩

/-! ## Runs -/

end TlsServer

/-- What happens to a server after it has been configured. -/
inductive TlsEvent (Certificate PrivateKey : Type) where
  | reload (env : ReloadSurroundings Certificate PrivateKey)
  | reloadWith (env : ReloadSurroundings Certificate PrivateKey) (newTls : TlsConfig)
  /-- The ticket callback of a handshake, or a rotation of the keys. -/
  | tickets (c : TicketKeyStore.Call)

namespace TlsServer

/-- The member function that an event calls. -/
def called (pem : Pem Certificate PrivateKey) :
    TlsEvent Certificate PrivateKey → Option (Member Certificate PrivateKey Bool)
  | .reload env => some (reloadTls pem env)
  | .reloadWith env newTls => some (reloadTlsWith pem env newTls)
  | .tickets _ => none

/-- The server after an event. -/
def step (pem : Pem Certificate PrivateKey) (server : TlsServer Certificate PrivateKey) :
    TlsEvent Certificate PrivateKey → TlsServer Certificate PrivateKey
  | .reload env => ((reloadTls pem env).outcome server).2
  | .reloadWith env newTls => ((reloadTlsWith pem env newTls).outcome server).2
  | .tickets c => { server with ticketStore := (server.ticketStore.step c).2 }

/-- Handshakes and rotations do not empty a ticket store. -/
theorem tickets_nonempty {store : TicketKeyStore} (hne : store.keys ≠ [])
    (c : TicketKeyStore.Call) : (store.step c).2.keys ≠ [] := by
  cases c with
  | ensureInitialized amb =>
      show (TicketKeyStore.settle store (store.ensureInitialized amb)).2.keys ≠ []
      cases h : store.ensureInitialized amb with
      | error e => exact hne
      | ok next => exact TicketKeyStore.ensure_initialized_ne_nil h
  | rotateNow amb =>
      show (TicketKeyStore.settle store (store.rotateNow amb)).2.keys ≠ []
      unfold TicketKeyStore.rotateNow
      cases hk : TicketKeyStore.generateKey amb.now amb.draw with
      | error e => exact hne
      | ok k =>
          show TicketKeyStore.prune amb.now (k :: store.keys) ≠ []
          rw [TicketKeyStore.prune_fresh (TicketKeyStore.generate_key_created hk)]
          exact List.cons_ne_nil _ _
  | handle keyName iv enc amb =>
      show (store.handle keyName iv enc amb).2.keys ≠ []
      obtain ⟨keys⟩ := store
      cases keys with
      | nil => exact absurd rfl hne
      | cons front rest =>
          by_cases henc : enc = 1
          · subst henc
            show (TicketKeyStore.encrypt _ amb.now amb.draw keyName iv amb).2.keys ≠ []
            unfold TicketKeyStore.encrypt
            cases hrot : TicketKeyStore.maybeRotateLocked ⟨front :: rest⟩ amb.now amb.draw with
            | error e => exact hne
            | ok rotated =>
                obtain ⟨cur, others, hkeys, -⟩ := TicketKeyStore.maybe_rotate_front hrot
                simp [hkeys]
          · rw [TicketKeyStore.handle_decrypt hne keyName iv henc amb]
            exact hne

/-- Every reload is atomic. -/
theorem called_atomic {event : TlsEvent Certificate PrivateKey}
    {reload : Member Certificate PrivateKey Bool} (h : called pem event = some reload)
    (server : TlsServer Certificate PrivateKey) :
    Ends reload server (Atomic pem server) ∧ (reload.outcome server).2 = step pem server event := by
  cases event with
  | reload env =>
      cases h
      exact ⟨(reloadTls_ends env server).imp fun _ _ hends => hends.1, rfl⟩
  | reloadWith env newTls =>
      cases h
      exact ⟨(reloadTlsWith_ends env newTls server).imp fun _ _ hends => hends.1, rfl⟩
  | tickets c => cases h

/-- A step keeps a ticket store with a key from getting empty. -/
theorem step_tickets (event : TlsEvent Certificate PrivateKey)
    {server : TlsServer Certificate PrivateKey} (hne : server.ticketStore.keys ≠ []) :
    (step pem server event).ticketStore.keys ≠ [] := by
  cases hcalled : called pem event with
  | some reload =>
      obtain ⟨hatomic, hstep⟩ := called_atomic hcalled server
      rw [← hstep, hatomic.tickets hne]
      exact hne
  | none =>
      cases event with
      | reload env => cases hcalled
      | reloadWith env newTls => cases hcalled
      | tickets c => exact tickets_nonempty hne c

/-- After `configure_tls` the ticket store has a key, and the context that was active has the calls
that `tls_` asks for, after those it had. -/
theorem configureTls_ends (env : Surroundings Certificate PrivateKey)
    (initial : TlsServer Certificate PrivateKey) :
    Ends (configureTls pem env) initial (fun r ready => r = .ok () →
      ready.ticketStore.keys ≠ [] ∧ ready.tls = initial.tls ∧
        ∃ ctx made, initial.sslCtx = some ctx ∧ settings pem initial.tls = some made ∧
          ready.sslCtx = some ⟨ctx.serial, ctx.calls ++ made⟩) := by
  have hrun : (configureTls pem env).outcome initial =
      match initial.sslCtx with
      | none => (.error ("configure_tls: ssl_ctx_ not initialized" : Text), initial)
      | some ctx =>
          let out := (configureSslCtx pem env).outcome ⟨initial, ctx⟩
          (out.1, { out.2.server with sslCtx := some out.2.ctx }) := rfl
  unfold Ends
  rw [hrun]
  cases hctx : initial.sslCtx with
  | none => exact nofun
  | some ctx =>
      have hmade : Ends (configureSslCtx pem env) ⟨initial, ctx⟩ _ := configure_applies _ rfl
      have hseeded : Ends (configureSslCtx pem env) ⟨initial, ctx⟩ _ := configure_seeds _
      unfold Ends at hmade hseeded
      intro hr
      obtain ⟨made, hsettings, hcalls⟩ := hmade.calls hr
      refine ⟨hseeded hr, hmade.tls, ctx, made, rfl, hsettings, ?_⟩
      show some (SslContext.mk _ _) = _
      rw [hmade.serial, hcalls]

/-- After a successful `configure_tls` every reload is atomic, whatever fails in it: it returns
`true` exactly when the active context was replaced by one that was configured from the `TlsConfig`
now in `tls_`, and otherwise both are what they were. No reload touches the ticket keys. -/
theorem reload_atomic (pem : Pem Certificate PrivateKey)
    {env : Surroundings Certificate PrivateKey} {initial ready : TlsServer Certificate PrivateKey}
    (hready : (configureTls pem env).outcome initial = (.ok (), ready))
    (events : List (TlsEvent Certificate PrivateKey)) :
    Throughout (step pem) (fun before event => ∀ reload, called pem event = some reload →
      Ends reload before (fun result after =>
        (result = .ok true ↔ Replaced before after ∧ after.Matches pem) ∧
        (result ≠ .ok true → after.tls = before.tls ∧ after.sslCtx = before.sslCtx) ∧
        before.ticketStore.keys ≠ [] ∧ after.ticketStore = before.ticketStore)) ready events := by
  have hseeded : ready.ticketStore.keys ≠ [] := by
    have hends : Ends (configureTls pem env) initial _ := configureTls_ends env initial
    unfold Ends at hends
    rw [hready] at hends
    exact (hends rfl).1
  refine throughout_of_invariant (fun server => server.ticketStore.keys ≠ []) hseeded
    (fun server event hne => step_tickets event hne) ?_ events
  intro before event hne reload hcalled
  refine (called_atomic hcalled before).1.imp ?_
  intro result after hatomic
  exact ⟨hatomic.replaced, hatomic.kept, hne, hatomic.tickets hne⟩

/-- A server on which every call succeeds. -/
def smooth : ReloadSurroundings Unit Unit where
  refuses := fun _ _ => none
  confContext := true
  certBio := true
  keyBio := true
  errorText := []
  tickets := TicketKeyStore.calm 0 1
  certFile := .contents ['c']
  keyFile := .contents ['k']
  newContext := none

/-- Readers of PEM that find a certificate and a key in every text but the empty one. -/
def lenient : Pem Unit Unit where
  certificates := fun text => if text = [] then [] else [()]
  privateKey := fun text => if text = [] then none else some ()

/-- A server with file names, before `configure_tls`. -/
def initialized : TlsServer Unit Unit where
  tls := ⟨['c'], ['k'], [], [], [], [], false, false, 15⟩
  sslCtx := some ⟨0, []⟩
  ticketStore := ⟨[]⟩

/-- A good reload, and one of a file that cannot be read any more. -/
theorem reload_atomic_smooth :
    Throughout (step lenient) (fun before event => ∀ reload, called lenient event = some reload →
      Ends reload before (fun result after =>
        (result = .ok true ↔ Replaced before after ∧ after.Matches lenient) ∧
        (result ≠ .ok true → after.tls = before.tls ∧ after.sslCtx = before.sslCtx) ∧
        before.ticketStore.keys ≠ [] ∧ after.ticketStore = before.ticketStore))
      ((configureTls lenient smooth.toSurroundings).outcome initialized).2
      [.reload smooth, .reload { smooth with keyFile := .unreadable ['e'] }] :=
  reload_atomic lenient
    (show (configureTls lenient smooth.toSurroundings).outcome initialized = (.ok (), _) from rfl) _

-- an exception of the reading is not caught
example : ((reloadTls lenient smooth).outcome initialized).1 = .ok true ∧
    ((reloadTls lenient { smooth with keyFile := .unreadable ['e'] }).outcome initialized).1 =
      .error ['e'] := by
  decide

/-- When `configure_tls` has configured a new context, the active context is one that was configured
from `tls_` at every time. -/
theorem active_context_matches {env : Surroundings Certificate PrivateKey}
    {initial ready : TlsServer Certificate PrivateKey} {serial : Nat}
    (hnew : initial.sslCtx = some ⟨serial, []⟩)
    (hready : (configureTls pem env).outcome initial = (.ok (), ready))
    (events : List (TlsEvent Certificate PrivateKey)) :
    (runFrom (step pem) ready events).Matches pem := by
  refine runFrom_invariant (Matches pem) ?_ ?_
  · have hends : Ends (configureTls pem env) initial _ := configureTls_ends env initial
    unfold Ends at hends
    rw [hready] at hends
    obtain ⟨-, htls, ctx, made, hctx, hsettings, hsslCtx⟩ := hends rfl
    rw [hnew] at hctx
    cases hctx
    exact ⟨_, hsslCtx, by rw [htls, hsettings]; rfl⟩
  · intro event _ server hmatches
    cases hcalled : called pem event with
    | none =>
        cases event with
        | reload env => cases hcalled
        | reloadWith env newTls => cases hcalled
        | tickets c => exact hmatches
    | some reload =>
        obtain ⟨hatomic, hstep⟩ := called_atomic hcalled server
        rw [← hstep]
        by_cases hresult : (reload.outcome server).1 = .ok true
        · exact (hatomic.replaced.mp hresult).2
        · obtain ⟨htls, hctx⟩ := hatomic.kept hresult
          obtain ⟨ctx, hsome, hsettings⟩ := hmatches
          exact ⟨ctx, hctx.trans hsome, by rw [htls, hsettings]⟩

end TlsServer

end Brazier
