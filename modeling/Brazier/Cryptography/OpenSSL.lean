import Brazier.Cryptography.AES
import Brazier.ProofLib.Handles

/-!
# Calls of OpenSSL

OpenSSL as the classes of `src/Cryptography`, `Hash` and `HttpsServer` see it: what a call answers
is a parameter, and so is how its state changes. A call names the handles that it is given, so that
one that was given back before is noticed. What goes wrong is thrown by `failWith`, behind the calls
that give handles back. An exception of the standard library or of the logger comes past these
calls: what may throw while a function has handles is a call too, and it throws when it answers 0.
-/

namespace Brazier

open ProofLib

/-- The types of handles. -/
inductive HandleKind where
  | bio
  | evpPkey
  | evpPkeyCtx
  | evpMdCtx
  | evpCipherCtx
  | evpKdf
  | evpKdfCtx
  | sslConfCtx
  | x509
  deriving DecidableEq

/-- A pointer to an object of OpenSSL. -/
abbrev SslHandle := Handle HandleKind

/-- The calls. A room is the length of a buffer; without one a call tells the length it needs. The
last two are no calls of OpenSSL: memory for a string, a vector or a stream, and `Logger::log`. -/
inductive OpenSSLCall where
  | errGetError
  | free (h : SslHandle)
  | bioNew
  | bioNewMemBuf (data : Text)
  | bioGetMemData (bio : SslHandle)
  | pemReadBioPubkey (bio : SslHandle)
  | pemReadBioPrivateKey (bio : SslHandle)
  | pemReadBioX509 (bio : SslHandle)
  | pemWriteBioPubkey (bio pkey : SslHandle)
  | pemWriteBioPrivateKey (bio pkey : SslHandle)
  | evpPkeyCtxNewId
  | evpPkeyCtxNew (pkey : SslHandle)
  | evpPkeyKeygenInit (ctx : SslHandle)
  | evpPkeyCtxSetRsaKeygenBits (ctx : SslHandle) (bits : Int)
  | evpPkeyKeygen (ctx : SslHandle)
  | evpPkeyCtxSetRsaPadding (ctx : SslHandle)
  | evpPkeyEncryptInit (ctx : SslHandle)
  | evpPkeyEncrypt (ctx : SslHandle) (room : Option Nat) (data : Bytes)
  | evpPkeyDecryptInit (ctx : SslHandle)
  | evpPkeyDecrypt (ctx : SslHandle) (room : Option Nat) (data : Bytes)
  | evpMdCtxNew
  | evpDigestSignInit (ctx pkey : SslHandle)
  | evpDigestSignUpdate (ctx : SslHandle) (data : Bytes)
  | evpDigestSignFinal (ctx : SslHandle) (room : Option Nat)
  | evpDigestVerifyInit (ctx pkey : SslHandle)
  | evpDigestVerifyUpdate (ctx : SslHandle) (data : Bytes)
  | evpDigestVerifyFinal (ctx : SslHandle) (signature : Bytes)
  | evpCipherCtxNew
  | evpEncryptInit (ctx : SslHandle) (key iv : Bytes)
  | evpEncryptUpdate (ctx : SslHandle) (data : Bytes)
  | evpEncryptFinal (ctx : SslHandle)
  | evpDecryptInit (ctx : SslHandle) (key iv : Bytes)
  | evpDecryptUpdate (ctx : SslHandle) (data : Bytes)
  | evpDecryptFinal (ctx : SslHandle)
  | randBytes (length : Nat)
  | evpKdfFetch
  | evpKdfCtxNew (kdf : SslHandle)
  | evpKdfDerive (ctx : SslHandle) (length : Nat) (password : Text) (salt : Bytes)
  | sslConfCtxNew
  | sslConfCtxSetFlags (cctx : SslHandle)
  | sslConfCtxSetSslCtx (cctx : SslHandle)
  | sslConfCmd (cctx : SslHandle) (command : Text) (value : Option Text)
  | sslConfCtxFinish (cctx : SslHandle)
  | sslCtxUseCertificate (certificate : SslHandle)
  | sslCtxAddExtraChainCert (certificate : SslHandle)
  | sslCtxUsePrivateKey (pkey : SslHandle)
  | sslCtxCheckPrivateKey
  | allocate (length : Nat)
  | log (message : Text)
  deriving DecidableEq

/-- The handles that a call is given. -/
def OpenSSLCall.given : OpenSSLCall → List SslHandle
  | .errGetError | .bioNew | .bioNewMemBuf _ | .evpPkeyCtxNewId | .evpMdCtxNew | .evpCipherCtxNew
  | .randBytes _ | .evpKdfFetch | .sslConfCtxNew | .sslCtxCheckPrivateKey | .allocate _
  | .log _ => []
  | .free h | .bioGetMemData h | .pemReadBioPubkey h | .pemReadBioPrivateKey h
  | .pemReadBioX509 h | .evpPkeyCtxNew h | .evpPkeyKeygenInit h | .evpPkeyCtxSetRsaKeygenBits h _
  | .evpPkeyKeygen h | .evpPkeyCtxSetRsaPadding h | .evpPkeyEncryptInit h | .evpPkeyEncrypt h _ _
  | .evpPkeyDecryptInit h | .evpPkeyDecrypt h _ _ | .evpDigestSignUpdate h _
  | .evpDigestSignFinal h _ | .evpDigestVerifyUpdate h _ | .evpDigestVerifyFinal h _
  | .evpEncryptInit h _ _ | .evpEncryptUpdate h _ | .evpEncryptFinal h
  | .evpDecryptInit h _ _ | .evpDecryptUpdate h _ | .evpDecryptFinal h
  | .evpKdfCtxNew h | .evpKdfDerive h _ _ _ | .sslConfCtxSetFlags h | .sslConfCtxSetSslCtx h
  | .sslConfCmd h _ _ | .sslConfCtxFinish h | .sslCtxUseCertificate h
  | .sslCtxAddExtraChainCert h | .sslCtxUsePrivateKey h => [h]
  | .pemWriteBioPubkey bio pkey | .pemWriteBioPrivateKey bio pkey => [bio, pkey]
  | .evpDigestSignInit ctx pkey | .evpDigestVerifyInit ctx pkey => [ctx, pkey]

/-- What a call answers: its `int`, or 0 for a null pointer and another number for another pointer;
what it writes; and the length that it tells. -/
structure SslAnswer where
  code : Int
  written : Bytes
  length : Nat

/-- The written bytes as characters. -/
def SslAnswer.text (answer : SslAnswer) : Text :=
  answer.written.map fun byte => Char.ofNat byte.toNat

/-- OpenSSL in a state `ω`. -/
abbrev OpenSSL (ω : Type) := OpenSSLCall → ω → SslAnswer × ω

/-- What is thrown: a `std::runtime_error` of the function itself, or an exception of the standard
library or of the logger. -/
inductive SslThrown where
  | failure (what : Text)
  | foreign (what : Text)
  deriving DecidableEq

/-- A function that calls OpenSSL and throws. -/
abbrev SslAction (ω α : Type) := Owning HandleKind ω SslThrown α

namespace OpenSSL

variable {ω α : Type} (ssl : OpenSSL ω)

/-- A call for its answer. -/
def call (c : OpenSSLCall) : SslAction ω SslAnswer := useHandles c.given (ssl c)

/-- A call for a handle. -/
def make (kind : HandleKind) (c : OpenSSLCall) : SslAction ω (Option SslHandle) :=
  makeHandle c.given kind fun w => (decide ((ssl c w).1.code ≠ 0), (ssl c w).2)

/-- A call that writes a handle when it answers a positive number. -/
def makeOut (kind : HandleKind) (c : OpenSSLCall) : SslAction ω (Option SslHandle) :=
  makeHandle c.given kind fun w => (decide (0 < (ssl c w).1.code), (ssl c w).2)

/-- The call that gives a handle back. -/
def free (h : SslHandle) : SslAction ω Unit := freeHandle h fun w => (ssl (.free h) w).2

/-- `getLastOpenSSLError`. -/
def getLastOpenSSLError : SslAction ω Text := do
  let answer ← ssl.call .errGetError
  pure answer.text

/-- Handles are given back and a text is thrown. -/
def failWith (hs : List SslHandle) (what : Text) : SslAction ω α := do
  hs.forM ssl.free
  throw (.failure what)

/-- Handles are given back and a text is thrown, with the last error of OpenSSL behind it. -/
def failWithError (hs : List SslHandle) (what : Text) : SslAction ω α := do
  hs.forM ssl.free
  let error ← ssl.getLastOpenSSLError
  throw (.failure (what ++ error))

/-- A call that must answer a positive number: otherwise handles are given back. -/
def check (hs : List SslHandle) (what : Text) (c : OpenSSLCall) : SslAction ω SslAnswer := do
  let answer ← ssl.call c
  if answer.code ≤ 0 then ssl.failWithError hs what else pure answer

/-- A call that must answer 1: otherwise handles are given back. -/
def checkOne (hs : List SslHandle) (what : Text) (c : OpenSSLCall) : SslAction ω SslAnswer := do
  let answer ← ssl.call c
  if answer.code ≠ 1 then ssl.failWith hs what else pure answer

/-- What may throw throws past the calls that give handles back. -/
def mayThrow (c : OpenSSLCall) : SslAction ω Unit := do
  let answer ← ssl.call c
  if answer.code = 0 then throw (.foreign answer.text) else pure ()

/-- Memory of a length is taken. -/
def allocate (length : Nat) : SslAction ω Unit := ssl.mayThrow (.allocate length)

/-- `resize` of a string: more memory is taken if it grows. -/
def resize (length target : Nat) : SslAction ω Unit :=
  if target ≤ length then pure () else ssl.allocate target

/-- `Logger::log`. -/
def log (message : Text) : SslAction ω Unit := ssl.mayThrow (.log message)

end OpenSSL

/-! ## What the calls do with handles -/

/-- What a function leaves of handles: what `okay` says of its result; nothing when it throws
itself; and handles of the kinds `held`, or fewer, when an exception comes past it. It hands over
handles of the kinds of which `taken` holds. -/
def LeavesAnd {α : Type} (held : List HandleKind) (taken : HandleKind → Prop)
    (okay : α → List SslHandle → Prop) :
    Except SslThrown α → List SslHandle → List SslHandle → Prop
  | .ok a, kept, handed => okay a kept ∧ ∀ h ∈ handed, taken h.kind
  | .error (.failure _), kept, handed => kept = [] ∧ ∀ h ∈ handed, taken h.kind
  | .error (.foreign _), kept, handed =>
      (kept.map Handle.kind).Sublist held ∧ ∀ h ∈ handed, taken h.kind

/-- The same for a function that hands no handle over. -/
abbrev Leaves {α : Type} (held : List HandleKind) (okay : α → List SslHandle → Prop) :
    Except SslThrown α → List SslHandle → List SslHandle → Prop :=
  LeavesAnd held (fun _ => False) okay

/-- A function that has no handles of its callers gives back those it makes, unless an exception
comes past it. -/
abbrev GivesBackBut {ω α : Type} (held : List HandleKind) (x : SslAction ω α) : Prop :=
  Owns [] x (Leaves held fun _ kept => kept = [])

section

variable {ω α β : Type} {ssl : OpenSSL ω} {own : List SslHandle}
  {Q : Except SslThrown α → List SslHandle → List SslHandle → Prop} {held : List HandleKind}
  {taken : HandleKind → Prop} {okay : α → List SslHandle → Prop}

/-- An exception leaves the same, whatever would have been returned. -/
theorem leavesAnd_error {first : β → List SslHandle → Prop} {e : SslThrown}
    {kept handed : List SslHandle} (h : LeavesAnd held taken first (.error e) kept handed) :
    LeavesAnd held taken okay (.error e) kept handed := by
  cases e with
  | failure what => exact h
  | foreign what => exact h

/-- What was handed over before is handed over at the end. -/
theorem leavesAnd_append {r : Except SslThrown α} {kept handed first : List SslHandle}
    (h : LeavesAnd held taken okay r kept handed) (hfirst : ∀ h ∈ first, taken h.kind) :
    LeavesAnd held taken okay r kept (handed ++ first) := by
  match r with
  | .ok _ => exact ⟨h.1, List.forall_mem_append.mpr ⟨h.2, hfirst⟩⟩
  | .error (.failure _) => exact ⟨h.1, List.forall_mem_append.mpr ⟨h.2, hfirst⟩⟩
  | .error (.foreign _) => exact ⟨h.1, List.forall_mem_append.mpr ⟨h.2, hfirst⟩⟩

/-- The handles that are handed over. -/
theorem leavesAnd_handed {r : Except SslThrown α} {kept handed : List SslHandle}
    (h : LeavesAnd held taken okay r kept handed) : ∀ h ∈ handed, taken h.kind := by
  match r with
  | .ok _ => exact h.2
  | .error (.failure _) => exact h.2
  | .error (.foreign _) => exact h.2

/-- A function that hands nothing over may be said to hand over what is allowed. -/
theorem leavesAnd_of_leaves {r : Except SslThrown α} {kept handed : List SslHandle}
    (h : Leaves held okay r kept handed) : LeavesAnd held taken okay r kept handed := by
  match r with
  | .ok _ => exact ⟨h.1, fun x hx => (h.2 x hx).elim⟩
  | .error (.failure _) => exact ⟨h.1, fun x hx => (h.2 x hx).elim⟩
  | .error (.foreign _) => exact ⟨h.1, fun x hx => (h.2 x hx).elim⟩

/-- No handle is given to a call without arguments. -/
theorem given_nothing {c : OpenSSLCall} (hc : c.given = []) : ∀ h ∈ c.given, h ∈ own := by
  intro h hmem
  rw [hc] at hmem
  exact absurd hmem List.not_mem_nil

/-- The handle that was made last is given. -/
theorem given_first {c : OpenSSLCall} {first : SslHandle} {rest : List SslHandle}
    (hc : c.given = [first]) : ∀ h ∈ c.given, h ∈ first :: rest := by
  intro h hmem
  rw [hc] at hmem
  exact List.mem_cons.mpr (.inl (List.mem_singleton.mp hmem))

/-- Going on after a call. -/
theorem owns_call_bind {c : OpenSSLCall} {f : SslAnswer → SslAction ω α}
    (hgiven : ∀ h ∈ c.given, h ∈ own) (hf : ∀ answer, Owns own (f answer) Q) :
    Owns own (ssl.call c >>= f) Q :=
  owns_use_bind hgiven hf

/-- Going on after a call for a handle. -/
theorem owns_sslMake_bind {kind : HandleKind} {c : OpenSSLCall}
    {f : Option SslHandle → SslAction ω α} (hgiven : ∀ h ∈ c.given, h ∈ own)
    (hnull : Owns own (f none) Q)
    (hmade : ∀ h, h.kind = kind → Owns (h :: own) (f (some h)) Q) :
    Owns own (ssl.make kind c >>= f) Q :=
  owns_make_bind hgiven hnull fun h hkind _ => hmade h hkind

/-- Going on after a call that writes a handle. -/
theorem owns_makeOut_bind {kind : HandleKind} {c : OpenSSLCall}
    {f : Option SslHandle → SslAction ω α} (hgiven : ∀ h ∈ c.given, h ∈ own)
    (hnull : Owns own (f none) Q)
    (hmade : ∀ h, h.kind = kind → Owns (h :: own) (f (some h)) Q) :
    Owns own (ssl.makeOut kind c >>= f) Q :=
  owns_make_bind hgiven hnull fun h hkind _ => hmade h hkind

/-- Going on after a handle was given back. -/
theorem owns_sslFree_bind {h : SslHandle} {rest : List SslHandle} {f : Unit → SslAction ω α}
    (hperm : own.Perm (h :: rest)) (hf : Owns rest (f ()) Q) :
    Owns own (ssl.free h >>= f) Q := by
  refine Owns.perm (owns_free_bind List.mem_cons_self ?_) hperm
  rwa [List.erase_cons_head]

/-- A function that ends with a handle given back. -/
theorem owns_sslFree {h : SslHandle} {rest : List SslHandle} {okay : Unit → List SslHandle → Prop}
    (hperm : own.Perm (h :: rest)) (hokay : okay () rest) :
    Owns own (ssl.free h) (LeavesAnd held taken okay) := by
  refine Owns.perm (owns_free List.mem_cons_self ?_) hperm
  rw [List.erase_cons_head]
  exact ⟨hokay, fun _ hmem => absurd hmem List.not_mem_nil⟩

/-- Going on after handles were given back one after the other. -/
theorem owns_freeAll_bind {hs rest : List SslHandle} {f : Unit → SslAction ω α}
    (hf : Owns rest (f ()) Q) : Owns (hs ++ rest) (hs.forM ssl.free >>= f) Q := by
  induction hs with
  | nil => exact hf
  | cons h hs ih =>
      have hcons : (h :: hs).forM ssl.free >>= f = ssl.free h >>= fun _ => hs.forM ssl.free >>= f :=
        bind_assoc _ _ _
      rw [hcons]
      exact owns_sslFree_bind (.refl _) ih

/-- Returning a value. -/
theorem owns_return {a : α} (h : okay a own) :
    Owns own (pure a : SslAction ω α) (LeavesAnd held taken okay) :=
  owns_pure ⟨h, fun _ hmem => absurd hmem List.not_mem_nil⟩

/-- Throwing when nothing is left. -/
theorem owns_throwText {what : Text} :
    Owns [] (throw (.failure what) : SslAction ω α) (LeavesAnd held taken okay) :=
  owns_throw ⟨rfl, fun _ hmem => absurd hmem List.not_mem_nil⟩

/-- An exception comes past a function that has handles of the kinds `held`. -/
theorem owns_throwForeign {what : Text} (hheld : (own.map Handle.kind).Sublist held) :
    Owns own (throw (.foreign what) : SslAction ω α) (LeavesAnd held taken okay) :=
  owns_throw ⟨hheld, fun _ hmem => absurd hmem List.not_mem_nil⟩

/-- Sequence: when the first function throws, the second one is not begun. -/
theorem owns_leaves_bind {x : SslAction ω β} {f : β → SslAction ω α}
    {first : β → List SslHandle → Prop} (hx : Owns own x (LeavesAnd held taken first))
    (hf : ∀ b kept, first b kept → Owns kept (f b) (LeavesAnd held taken okay)) :
    Owns own (x >>= f) (LeavesAnd held taken okay) := by
  refine hx.bind ?_ ?_
  · rintro b kept handed ⟨hfirst, hhanded⟩
    exact (hf b kept hfirst).imp fun r left more hend => leavesAnd_append hend hhanded
  · exact fun e kept handed hend => leavesAnd_error hend

/-- Going on after a handle was handed over. -/
theorem owns_handOver_bind {h : SslHandle} {rest : List SslHandle} {f : Unit → SslAction ω α}
    (htaken : taken h.kind) (hf : Owns rest (f ()) (LeavesAnd held taken okay)) :
    Owns (h :: rest) (handOver h >>= f) (LeavesAnd held taken okay) := by
  have hover : Owns (h :: rest) (handOver h : SslAction ω Unit)
      (LeavesAnd held taken fun _ kept => kept = rest) :=
    owns_handOver List.mem_cons_self
      ⟨List.erase_cons_head h rest, fun _ hmem => List.mem_singleton.mp hmem ▸ htaken⟩
  refine owns_leaves_bind hover fun _ kept hkept => ?_
  rw [hkept]
  exact hf

/-- When all handles are given back before a text is thrown, none is left. -/
theorem owns_failWith {hs : List SslHandle} {what : Text} :
    Owns hs (ssl.failWith hs what) (LeavesAnd held taken okay) := by
  have hall : Owns (hs ++ []) (hs.forM ssl.free >>= fun _ => throw (.failure what))
      (LeavesAnd held taken okay) :=
    owns_freeAll_bind owns_throwText
  rw [List.append_nil] at hall
  exact hall

/-- The same with the last error of OpenSSL. -/
theorem owns_failWithError {hs : List SslHandle} {what : Text} :
    Owns hs (ssl.failWithError hs what) (LeavesAnd held taken okay) := by
  have hall : Owns (hs ++ []) (hs.forM ssl.free >>= fun _ =>
      ssl.call .errGetError >>= fun answer => throw (.failure (what ++ answer.text)))
      (LeavesAnd held taken okay) :=
    owns_freeAll_bind (owns_call_bind (given_nothing rfl) fun answer => owns_throwText)
  rw [List.append_nil] at hall
  exact hall

/-- A call that must answer a positive number keeps what is there, unless it throws. -/
theorem owns_check {hs : List SslHandle} {what : Text} {c : OpenSSLCall}
    (hgiven : ∀ h ∈ c.given, h ∈ hs) :
    Owns hs (ssl.check hs what c) (LeavesAnd held taken fun _ kept => kept = hs) := by
  refine owns_call_bind hgiven fun answer => ?_
  split
  · exact owns_failWithError
  · exact owns_return rfl

/-- A call that must answer 1 keeps what is there, unless it throws. -/
theorem owns_checkOne {hs : List SslHandle} {what : Text} {c : OpenSSLCall}
    (hgiven : ∀ h ∈ c.given, h ∈ hs) :
    Owns hs (ssl.checkOne hs what c) (LeavesAnd held taken fun _ kept => kept = hs) := by
  refine owns_call_bind hgiven fun answer => ?_
  split
  · exact owns_failWith
  · exact owns_return rfl

/-- What may throw keeps what is there: the kinds of these handles are among `held`. -/
theorem owns_mayThrow {c : OpenSSLCall} (hc : c.given = [])
    (hheld : (own.map Handle.kind).Sublist held) :
    Owns own (ssl.mayThrow c) (LeavesAnd held taken fun _ kept => kept = own) := by
  refine owns_call_bind (given_nothing hc) fun answer => ?_
  split
  · exact owns_throwForeign hheld
  · exact owns_return rfl

/-- Going on after a function that keeps what is there. -/
theorem owns_keeps_bind {x : SslAction ω β} {f : β → SslAction ω α}
    (hx : Owns own x (LeavesAnd held taken fun _ kept => kept = own))
    (hf : ∀ b, Owns own (f b) (LeavesAnd held taken okay)) :
    Owns own (x >>= f) (LeavesAnd held taken okay) := by
  refine owns_leaves_bind hx fun b kept hkept => ?_
  rw [hkept]
  exact hf b

/-- Going on after a call that must answer a positive number. -/
theorem owns_check_bind {hs : List SslHandle} {what : Text} {c : OpenSSLCall}
    {f : SslAnswer → SslAction ω α} (hgiven : ∀ h ∈ c.given, h ∈ hs)
    (hf : ∀ answer, Owns hs (f answer) (LeavesAnd held taken okay)) :
    Owns hs (ssl.check hs what c >>= f) (LeavesAnd held taken okay) :=
  owns_keeps_bind (owns_check hgiven) hf

/-- Going on after a call that must answer 1. -/
theorem owns_checkOne_bind {hs : List SslHandle} {what : Text} {c : OpenSSLCall}
    {f : SslAnswer → SslAction ω α} (hgiven : ∀ h ∈ c.given, h ∈ hs)
    (hf : ∀ answer, Owns hs (f answer) (LeavesAnd held taken okay)) :
    Owns hs (ssl.checkOne hs what c >>= f) (LeavesAnd held taken okay) :=
  owns_keeps_bind (owns_checkOne hgiven) hf

/-- Going on after memory was taken. -/
theorem owns_allocate_bind {length : Nat} {f : Unit → SslAction ω α}
    (hheld : (own.map Handle.kind).Sublist held)
    (hf : ∀ u, Owns own (f u) (LeavesAnd held taken okay)) :
    Owns own (ssl.allocate length >>= f) (LeavesAnd held taken okay) :=
  owns_keeps_bind (owns_mayThrow rfl hheld) hf

/-- Going on after a string was resized. -/
theorem owns_resize_bind {length target : Nat} {f : Unit → SslAction ω α}
    (hheld : (own.map Handle.kind).Sublist held)
    (hf : ∀ u, Owns own (f u) (LeavesAnd held taken okay)) :
    Owns own (ssl.resize length target >>= f) (LeavesAnd held taken okay) := by
  refine owns_keeps_bind ?_ hf
  unfold OpenSSL.resize
  split
  · exact owns_return rfl
  · exact owns_mayThrow rfl hheld

/-- Going on after a message was logged. -/
theorem owns_log_bind {message : Text} {f : Unit → SslAction ω α}
    (hheld : (own.map Handle.kind).Sublist held)
    (hf : ∀ u, Owns own (f u) (LeavesAnd held taken okay)) :
    Owns own (ssl.log message >>= f) (LeavesAnd held taken okay) :=
  owns_keeps_bind (owns_mayThrow rfl hheld) hf

end

end Brazier
