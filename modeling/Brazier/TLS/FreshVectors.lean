import Brazier.TLS.KeyHistory
import Mathlib.Data.List.DropRight

/-!
# Vectors of issued tickets

What `TicketKeyStore::handle` answers when a ticket is to be issued, for every outcome of the calls
of OpenSSL. `handle_issues` is the one lemma on that branch; `fresh_vectors_iff` says in which runs
no ticket is issued under a vector that `RAND_bytes` has not filled.
-/

namespace Brazier.TicketKeyStore

open ProofLib (runFrom Throughout throughout_iff)

/-- All draws for a key succeed. -/
def KeyDraw.complete (draw : KeyDraw) : Bool :=
  draw.name.isSome && draw.aesKey.isSome && draw.hmacKey.isSome

/-- The draws succeed for every key that is generated on the way to a ticket: the first key of an
empty store, and the key of a rotation that is due. -/
def Generates (store : TicketKeyStore) (amb : Ambient) : Prop :=
  match store.keys with
  | [] =>
      amb.draw.complete = true ∧
        (amb.later - amb.now < kRotationInterval ∨ amb.spare.complete = true)
  | front :: _ => amb.now - front.createdAt < kRotationInterval ∨ amb.draw.complete = true

/-- The keys that were there are there, unchanged and in their order; only keys past their lifetime
were removed. -/
def Keeps (now : Int) (old new : List Key) : Prop :=
  ∃ added kept removed, new = added ++ kept ∧ old = kept ++ removed ∧
    ∀ k ∈ removed, pastLifetime now k = true

/-- The reading of the clock that a rotation on the way to a ticket goes by. -/
def rotationTime (store : TicketKeyStore) (amb : Ambient) : Int :=
  if store.keys.isEmpty then amb.later else amb.now

/-- How the call that is to issue a ticket should end. It answers `1` only with a vector of
`RAND_bytes`, and with both contexts under the keys of the key that is named; otherwise it answers
`0` or less, or throws. The keys are kept. -/
structure IssuedWell (store : TicketKeyStore) (amb : Ambient)
    (result : Except String Handled) (next : TicketKeyStore) : Prop where
  fresh : ∀ r, result = .ok r → r.ret = 1 → ∃ vector, amb.iv = some vector ∧ r.iv = vector ∧
    ∃ cur ∈ next.keys, r.keyName = cur.name ∧ r.cipher = some (cur.aesKey, vector) ∧
      r.mac = some cur.hmacKey
  refused : ∀ r, result = .ok r → r.ret ≠ 1 → r.ret ≤ 0
  keeps : Keeps (store.rotationTime amb) store.keys next.keys

/-! ## Generating keys -/

theorem generate_key_ok_iff (now : Int) (draw : KeyDraw) :
    (∃ k, generateKey now draw = .ok k) ↔ draw.complete = true := by
  obtain ⟨name, aesKey, hmacKey⟩ := draw
  cases name <;> cases aesKey <;> cases hmacKey <;> simp [generateKey, KeyDraw.complete]

/-- A failed draw throws. -/
theorem generate_key_error (now : Int) {draw : KeyDraw} (h : ¬ draw.complete = true) :
    ∃ e, generateKey now draw = .error e := by
  cases hk : generateKey now draw with
  | error e => exact ⟨e, rfl⟩
  | ok k => exact absurd ((generate_key_ok_iff now draw).mp ⟨k, hk⟩) h

theorem keeps_refl (now : Int) (keys : List Key) : Keeps now keys keys :=
  ⟨[], keys, [], rfl, (List.append_nil keys).symm, nofun⟩

/-- A rotation puts its key in front and removes keys from the back. -/
theorem keeps_rotation {now : Int} {k : Key} (hk : k.createdAt = now) (keys : List Key) :
    Keeps now keys (prune now (k :: keys)) := by
  rw [prune_fresh hk]
  refine ⟨[k], prune now keys, keys.rtakeWhile (pastLifetime now), rfl, ?_, ?_⟩
  · exact List.rdropWhile_append_rtakeWhile.symm
  · exact fun old hold => List.mem_rtakeWhile_imp hold

/-- On a store with a key, the lazy rotation throws when it is due and its draw fails, and leaves a
key in front otherwise. -/
theorem maybe_rotate_cases {store : TicketKeyStore} {front : Key} {rest : List Key}
    (hkeys : store.keys = front :: rest) (now : Int) (draw : KeyDraw) :
    (¬ (now - front.createdAt < kRotationInterval ∨ draw.complete = true) ∧
        ∃ e, store.maybeRotateLocked now draw = .error e) ∨
      ((now - front.createdAt < kRotationInterval ∨ draw.complete = true) ∧
        ∃ cur older, store.maybeRotateLocked now draw = .ok ⟨cur :: older⟩ ∧
          Keeps now store.keys (cur :: older)) := by
  unfold maybeRotateLocked
  rw [hkeys]
  dsimp only
  by_cases hdue : now - front.createdAt < kRotationInterval
  · rw [if_pos hdue]
    refine .inr ⟨.inl hdue, front, rest, ?_, keeps_refl now _⟩
    rw [← hkeys]
    rfl
  · rw [if_neg hdue]
    by_cases hdraw : draw.complete = true
    · obtain ⟨k, hk⟩ := (generate_key_ok_iff now draw).mpr hdraw
      have hcreated := generate_key_created hk
      refine .inr ⟨.inr hdraw, k, prune now (front :: rest), ?_, ?_⟩
      · rw [hk, ← prune_fresh hcreated]
        rfl
      · rw [← prune_fresh hcreated]
        exact keeps_rotation hcreated _
    · obtain ⟨e, he⟩ := generate_key_error now hdraw
      refine .inl ⟨?_, e, ?_⟩
      · rintro (hyoung | hcomplete)
        · exact hdue hyoung
        · exact hdraw hcomplete
      · rw [he]
        rfl

/-! ## Issuing a ticket -/

/-- The call throws when a key cannot be drawn. Otherwise it initialises both contexts with the key
in front, whose name it writes. The keys are kept either way. -/
theorem handle_issues (store : TicketKeyStore) (keyName : Buffer kNameSize)
    (iv : Buffer evpMaxIvLength) (amb : Ambient) :
    (¬ store.Generates amb ∧
        ∃ e next, store.handle keyName iv 1 amb = (.error e, next) ∧
          Keeps (store.rotationTime amb) store.keys next.keys) ∨
      (store.Generates amb ∧
        ∃ cur older, store.handle keyName iv 1 amb =
            (.ok (install cur 1 cur.name (amb.iv.getD iv) amb), ⟨cur :: older⟩) ∧
          Keeps (store.rotationTime amb) store.keys (cur :: older)) := by
  have hnew : ∀ (now : Int) (new : List Key), Keeps now [] new :=
    fun _ new => ⟨new, [], [], (List.append_nil new).symm, rfl, nofun⟩
  unfold Generates handle seed rotationTime
  cases hkeys : store.keys with
  | nil =>
      dsimp only
      by_cases hdraw : amb.draw.complete = true
      · obtain ⟨k, hk⟩ := (generate_key_ok_iff amb.now amb.draw).mpr hdraw
        rw [hk]
        simp only [bind, Except.bind, pure, Except.pure, if_true, encrypt]
        have hstore : (⟨[k]⟩ : TicketKeyStore).keys = [k] := rfl
        rcases maybe_rotate_cases hstore amb.later amb.spare with
          ⟨hnot, e, he⟩ | ⟨hrotates, cur, older, hok, -⟩
        · rw [generate_key_created hk] at hnot
          refine .inl ⟨fun h => hnot h.2, e, ⟨[k]⟩, ?_, hnew _ _⟩
          rw [he]
        · rw [generate_key_created hk] at hrotates
          refine .inr ⟨⟨hdraw, hrotates⟩, cur, older, ?_, hnew _ _⟩
          rw [hok]
      · obtain ⟨e, he⟩ := generate_key_error amb.now hdraw
        refine .inl ⟨fun h => hdraw h.1, e, store, ?_, hnew _ _⟩
        rw [he]
        rfl
  | cons front rest =>
      simp only [pure, Except.pure, if_true, encrypt]
      rcases maybe_rotate_cases hkeys amb.now amb.draw with
        ⟨hnot, e, he⟩ | ⟨hrotates, cur, older, hok, hkeeps⟩
      · refine .inl ⟨hnot, e, store, ?_, ?_⟩
        · rw [he]
        · rw [hkeys]
          exact keeps_refl _ _
      · refine .inr ⟨hrotates, cur, older, ?_, ?_⟩
        · rw [hok]
        · rw [hkeys] at hkeeps
          exact hkeeps

/-- A call ends as it should exactly when the vector is filled or something else fails. -/
theorem issued_well_iff (store : TicketKeyStore) (keyName : Buffer kNameSize)
    (iv : Buffer evpMaxIvLength) (amb : Ambient) :
    IssuedWell store amb (store.handle keyName iv 1 amb).1 (store.handle keyName iv 1 amb).2 ↔
      (store.Generates amb → amb.cipherInit = true → amb.macInit = true →
        amb.iv.isSome = true) := by
  rcases handle_issues store keyName iv amb with
    ⟨hnot, e, next, hhandle, hkeeps⟩ | ⟨hgenerates, cur, older, hhandle, hkeeps⟩
  · rw [hhandle]
    exact iff_of_true ⟨nofun, nofun, hkeeps⟩ fun h => absurd h hnot
  · rw [hhandle]
    constructor
    · intro h _ hcipher hmac
      obtain ⟨vector, hiv, -⟩ := h.fresh _ rfl (by rw [install_succeeds hcipher hmac])
      rw [hiv]
      rfl
    · intro h
      refine ⟨?_, ?_, hkeeps⟩
      · intro r hr hret
        cases hr
        obtain ⟨hcipher, hmac⟩ := (install_accepts (.inl rfl)).mp (.inl hret)
        obtain ⟨vector, hvector⟩ := Option.isSome_iff_exists.mp (h hgenerates hcipher hmac)
        rw [install_succeeds hcipher hmac, hvector]
        exact ⟨vector, rfl, rfl, cur, List.mem_cons_self, rfl, rfl, rfl⟩
      · intro r hr hret
        cases hr
        unfold install at hret ⊢
        split
        · show (-1 : Int) ≤ 0
          decide
        · split
          · show (-1 : Int) ≤ 0
            decide
          · next hcipher hmac =>
              rw [if_neg hcipher, if_neg hmac] at hret
              exact absurd rfl hret

/-! ## Runs -/

/-- Of a call that is to issue a ticket: it ends as it should. -/
def IssuesWell (store : TicketKeyStore) : Call → Prop
  | .handle keyName iv enc amb =>
      enc = 1 → IssuedWell store amb (store.handle keyName iv enc amb).1
        (store.handle keyName iv enc amb).2
  | .ensureInitialized _ => True
  | .rotateNow _ => True

/-- Of a call that is to issue a ticket: `RAND_bytes` fills the vector, unless a key cannot be
drawn or one of the contexts cannot be initialised. -/
def FillsVector (store : TicketKeyStore) : Call → Prop
  | .handle _ _ enc amb =>
      enc = 1 → store.Generates amb → amb.cipherInit = true → amb.macInit = true →
        amb.iv.isSome = true
  | .ensureInitialized _ => True
  | .rotateNow _ => True

/-- In a run every ticket is issued as it should be exactly when no vector is left unfilled in a
call in which all else succeeds. -/
theorem fresh_vectors_iff (calls : List Call) :
    Throughout (fun store c => (store.step c).2) IssuesWell ⟨[]⟩ calls ↔
      Throughout (fun store c => (store.step c).2) FillsVector ⟨[]⟩ calls := by
  refine throughout_iff (fun _ => True) trivial (fun _ _ _ _ => trivial) ?_ calls
  intro store c _
  cases c with
  | ensureInitialized amb => exact Iff.rfl
  | rotateNow amb => exact Iff.rfl
  | handle keyName iv enc amb =>
      refine imp_congr_right fun henc => ?_
      subst henc
      exact issued_well_iff store keyName iv amb

/-- Surroundings in which only the draw for the vector fails. -/
def vectorFails : Ambient where
  now := 0
  later := 0
  draw := ⟨some (.replicate _ 1), some (.replicate _ 2), some (.replicate _ 3)⟩
  spare := ⟨none, none, none⟩
  iv := none
  cipherInit := true
  macInit := true

/-- The ticket is issued under the bytes that the buffer had before. -/
theorem unfilled_vector_issued :
    (((⟨[]⟩ : TicketKeyStore).handle (.replicate _ 0) (.replicate _ 9) 1 vectorFails).1.map
        fun r => (r.ret, r.iv)) = .ok (1, .replicate _ 9) ∧
      ¬ Throughout (fun store c => (store.step c).2) IssuesWell ⟨[]⟩
        [.handle (.replicate _ 0) (.replicate _ 9) 1 vectorFails] := by
  refine ⟨rfl, ?_⟩
  intro h
  have hwell := (issued_well_iff ⟨[]⟩ (.replicate _ 0) (.replicate _ 9) vectorFails).mp (h.1 rfl)
  have hgenerates : Generates ⟨[]⟩ vectorFails := ⟨rfl, .inl (by decide)⟩
  exact absurd (hwell hgenerates rfl rfl) (by decide)

end Brazier.TicketKeyStore
