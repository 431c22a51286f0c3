import Mathlib.Data.List.DropRight
import Brazier.ProofLib.Runs

/-!
# The session ticket key store

`TicketKeyStore` of `src/TLS/TicketKeyStore.cpp`. The deque `keys_` is a list whose head is the
front. What lies outside the class (the readings of `now_provider_`, the bytes of `RAND_bytes`,
the outcome of the OpenSSL initialisers) enters every call as an `Ambient` record, so a run of a
store is a list of `Call`s. Time points and durations are integers, in nanoseconds.
-/

namespace Brazier

/-- `std::chrono::hours(n)` in nanoseconds. -/
def hours (n : Int) : Int := n * 3600 * 1000000000

/-- OpenSSL's bound on the length of an initialisation vector. -/
def evpMaxIvLength : Nat := 16

/-- A byte buffer of fixed size. -/
abbrev Buffer (n : Nat) := Vector UInt8 n

namespace TicketKeyStore

/-- A key stops being used for new tickets after this time. -/
def kRotationInterval : Int := hours 12

/-- A rotation removes keys older than this. -/
def kKeyLifetime : Int := hours 48

/-- `kNameSize` bytes name a key. -/
def kNameSize : Nat := 16

/-- `kAesKeySize` bytes encrypt a ticket. -/
def kAesKeySize : Nat := 32

/-- `kHmacKeySize` bytes authenticate a ticket. -/
def kHmacKeySize : Nat := 32

/-- A ticket key. -/
structure Key where
  name : Buffer kNameSize
  aesKey : Buffer kAesKeySize
  hmacKey : Buffer kHmacKeySize
  createdAt : Int
  deriving DecidableEq

/-- What `RAND_bytes` delivers for the three parts of one key; `none` is a failed call. -/
structure KeyDraw where
  name : Option (Buffer kNameSize)
  aesKey : Option (Buffer kAesKeySize)
  hmacKey : Option (Buffer kHmacKeySize)

/-- `generate_key`: throws when one of the three draws fails. -/
def generateKey (now : Int) (draw : KeyDraw) : Except String Key :=
  match draw.name, draw.aesKey, draw.hmacKey with
  | some name, some aesKey, some hmacKey => .ok ⟨name, aesKey, hmacKey, now⟩
  | _, _, _ => .error "TicketKeyStore: RAND_bytes failed"

/-- The test of the pruning loops: the key is older than `kKeyLifetime`. -/
def pastLifetime (now : Int) (k : Key) : Bool :=
  decide (now - k.createdAt > kKeyLifetime)

/-- The pruning loop: pop keys off the back while the last one is past its lifetime. -/
def prune (now : Int) (keys : List Key) : List Key :=
  keys.rdropWhile (pastLifetime now)

end TicketKeyStore

open TicketKeyStore

/-- The store: `keys_`, newest key in front. -/
structure TicketKeyStore where
  keys : List Key
  deriving DecidableEq

namespace TicketKeyStore

/-- What surrounds one call: the first and the second reading of `now_provider_`, the draws for
the first and the second key generated, the draw for the initialisation vector, and whether the
cipher and the MAC initialisation succeed. -/
structure Ambient where
  now : Int
  later : Int
  draw : KeyDraw
  spare : KeyDraw
  iv : Option (Buffer evpMaxIvLength)
  cipherInit : Bool
  macInit : Bool

/-- `ensure_initialized`. -/
def ensureInitialized (store : TicketKeyStore) (amb : Ambient) : Except String TicketKeyStore :=
  match store.keys with
  | [] => do
      let k ← generateKey amb.now amb.draw
      pure ⟨[k]⟩
  | _ :: _ => pure store

/-- `rotate_now`. -/
def rotateNow (store : TicketKeyStore) (amb : Ambient) : Except String TicketKeyStore := do
  let k ← generateKey amb.now amb.draw
  pure ⟨prune amb.now (k :: store.keys)⟩

/-- `maybe_rotate_locked`. -/
def maybeRotateLocked (store : TicketKeyStore) (now : Int) (draw : KeyDraw) :
    Except String TicketKeyStore :=
  match store.keys with
  | [] => do
      let k ← generateKey now draw
      pure ⟨[k]⟩
  | front :: _ =>
      if now - front.createdAt < kRotationInterval then pure store
      else do
        let k ← generateKey now draw
        pure ⟨prune now (k :: store.keys)⟩

/-- What a call of `handle` returns and leaves in its arguments: the key name, the vector, and
the keys that the cipher and MAC contexts hold after a successful initialisation. -/
structure Handled where
  ret : Int
  keyName : Buffer kNameSize
  iv : Buffer evpMaxIvLength
  cipher : Option (Buffer kAesKeySize × Buffer evpMaxIvLength)
  mac : Option (Buffer kHmacKeySize)
  deriving DecidableEq

/-- Initialise both contexts with a key; `ret` is returned when both initialisers succeed. -/
def install (k : Key) (ret : Int) (keyName : Buffer kNameSize) (iv : Buffer evpMaxIvLength)
    (amb : Ambient) : Handled :=
  if amb.cipherInit = false then ⟨-1, keyName, iv, none, none⟩
  else if amb.macInit = false then ⟨-1, keyName, iv, some (k.aesKey, iv), none⟩
  else ⟨ret, keyName, iv, some (k.aesKey, iv), some k.hmacKey⟩

/-- The search loop of `handle`: the first key with the given name and its index. -/
def findKey (keyName : Buffer kNameSize) : Nat → List Key → Option (Nat × Key)
  | _, [] => none
  | i, k :: rest => if keyName = k.name then some (i, k) else findKey keyName (i + 1) rest

/-- The first lines of `handle`: an empty store gets a key. The reading and the draw returned are
those left for `maybe_rotate_locked`. -/
def seed (store : TicketKeyStore) (amb : Ambient) :
    Except String (TicketKeyStore × Int × KeyDraw) :=
  match store.keys with
  | [] => do
      let k ← generateKey amb.now amb.draw
      pure (⟨[k]⟩, amb.later, amb.spare)
  | _ :: _ => pure (store, amb.now, amb.draw)

/-- The branch `enc == 1` of `handle`. A failing `RAND_bytes` leaves the vector as it was. -/
def encrypt (store : TicketKeyStore) (now : Int) (draw : KeyDraw)
    (keyName : Buffer kNameSize) (iv : Buffer evpMaxIvLength) (amb : Ambient) :
    Except String Handled × TicketKeyStore :=
  match maybeRotateLocked store now draw with
  | .error e => (.error e, store)
  | .ok rotated =>
      match rotated.keys with
      | [] => (.ok ⟨-1, keyName, iv, none, none⟩, rotated)  -- not reached: a key is in front
      | cur :: _ => (.ok (install cur 1 cur.name (amb.iv.getD iv) amb), rotated)

/-- The lookup of `handle` for any other value of `enc`. -/
def decrypt (store : TicketKeyStore) (keyName : Buffer kNameSize) (iv : Buffer evpMaxIvLength)
    (amb : Ambient) : Handled :=
  match findKey keyName 0 store.keys with
  | none => ⟨0, keyName, iv, none, none⟩
  | some (i, k) => install k (if i = 0 then 1 else 2) keyName iv amb

/-- `handle`: the result, or the exception that escapes, and the store afterwards. -/
def handle (store : TicketKeyStore) (keyName : Buffer kNameSize) (iv : Buffer evpMaxIvLength)
    (enc : Int) (amb : Ambient) : Except String Handled × TicketKeyStore :=
  match seed store amb with
  | .error e => (.error e, store)
  | .ok (seeded, now, draw) =>
      if enc = 1 then encrypt seeded now draw keyName iv amb
      else (.ok (decrypt seeded keyName iv amb), seeded)

/-- `key_count`. -/
def keyCount (store : TicketKeyStore) : Nat := store.keys.length

/-- `snapshot`. -/
def snapshot (store : TicketKeyStore) : List Key := store.keys

/-! ## Runs -/

/-- An operation of the store together with its surroundings. -/
inductive Call where
  | ensureInitialized (amb : Ambient)
  | rotateNow (amb : Ambient)
  | handle (keyName : Buffer kNameSize) (iv : Buffer evpMaxIvLength) (enc : Int) (amb : Ambient)

/-- The surroundings of an operation. -/
def Call.ambient : Call → Ambient
  | .ensureInitialized amb | .rotateNow amb | .handle _ _ _ amb => amb

/-- An operation that throws leaves the store as it was. -/
def settle (store : TicketKeyStore) (result : Except String TicketKeyStore) :
    Except String (Option Handled) × TicketKeyStore :=
  match result with
  | .error e => (.error e, store)
  | .ok next => (.ok none, next)

/-- One operation: what it returns or throws, and the store afterwards. -/
def step (store : TicketKeyStore) : Call → Except String (Option Handled) × TicketKeyStore
  | .ensureInitialized amb => settle store (store.ensureInitialized amb)
  | .rotateNow amb => settle store (store.rotateNow amb)
  | .handle keyName iv enc amb =>
      let (result, next) := store.handle keyName iv enc amb
      (result.map some, next)

/-- The store after a list of operations, starting from a new store. -/
def run (calls : List Call) : TicketKeyStore :=
  ProofLib.runFrom (fun store c => (store.step c).2) ⟨[]⟩ calls

/-- The clock never goes back: neither within an operation nor from one to a later one. -/
def Timed (calls : List Call) : Prop :=
  (∀ c ∈ calls, c.ambient.now ≤ c.ambient.later) ∧
    calls.Pairwise (fun c d => c.ambient.later ≤ d.ambient.now)

/-- Every OpenSSL call of the operation succeeds. -/
structure Ambient.Succeeds (amb : Ambient) : Prop where
  draw : ∃ name aesKey hmacKey, amb.draw = ⟨some name, some aesKey, some hmacKey⟩
  spare : ∃ name aesKey hmacKey, amb.spare = ⟨some name, some aesKey, some hmacKey⟩
  iv : amb.iv.isSome = true
  cipherInit : amb.cipherInit = true
  macInit : amb.macInit = true

/-! ## What the operations do -/

/-- A generated key carries the reading it was generated at. -/
theorem generate_key_created {now : Int} {draw : KeyDraw} {k : Key}
    (h : generateKey now draw = .ok k) : k.createdAt = now := by
  unfold generateKey at h
  split at h
  · cases h
    rfl
  · cases h

/-- A fresh key is within its lifetime. -/
theorem past_lifetime_self (k : Key) : pastLifetime k.createdAt k = false := by
  simp [pastLifetime, kKeyLifetime, hours]

/-- The search loop returns the first key with the name. -/
theorem find_key_snd (keyName : Buffer kNameSize) (i : Nat) (keys : List Key) :
    (findKey keyName i keys).map Prod.snd = keys.find? (fun k => keyName = k.name) := by
  induction keys generalizing i with
  | nil => rfl
  | cons k rest ih =>
      by_cases h : keyName = k.name
      · simp [findKey, h]
      · simpa [findKey, h] using ih (i + 1)

/-- The index grows from its start, so it is the start exactly for a match in front. -/
theorem find_key_index {keyName : Buffer kNameSize} {i j : Nat} {keys : List Key} {k : Key}
    (h : findKey keyName i keys = some (j, k)) :
    i ≤ j ∧ (j = i ↔ keys.head?.map Key.name = some keyName) := by
  induction keys generalizing i with
  | nil => cases h
  | cons front rest ih =>
      by_cases hname : keyName = front.name
      · simp only [findKey, hname, if_true] at h
        cases h
        simp [hname]
      · simp only [findKey, hname, if_false] at h
        have hlt := (ih h).1
        refine ⟨by omega, ?_⟩
        constructor
        · intro hj
          omega
        · intro hfront
          exact absurd (Option.some.inj hfront).symm hname

/-- The lookup answers `0` for an unknown name and otherwise installs the first key with that
name. -/
theorem decrypt_eq (store : TicketKeyStore) (keyName : Buffer kNameSize)
    (iv : Buffer evpMaxIvLength) (amb : Ambient) :
    store.decrypt keyName iv amb =
      match store.keys.find? (fun k => keyName = k.name) with
      | none => ⟨0, keyName, iv, none, none⟩
      | some k =>
          install k (if store.keys.head?.map Key.name = some keyName then 1 else 2)
            keyName iv amb := by
  have hsnd := find_key_snd keyName 0 store.keys
  unfold decrypt
  cases hfind : findKey keyName 0 store.keys with
  | none =>
      rw [hfind] at hsnd
      rw [← hsnd]
      rfl
  | some found =>
      obtain ⟨i, k⟩ := found
      rw [hfind] at hsnd
      rw [← hsnd]
      simp only [Option.map_some, (find_key_index hfind).2]

/-- The answer is `1` or `2` only when both initialisers succeeded. -/
theorem install_accepts {k : Key} {ret : Int} {keyName : Buffer kNameSize}
    {iv : Buffer evpMaxIvLength} {amb : Ambient} (hret : ret = 1 ∨ ret = 2) :
    ((install k ret keyName iv amb).ret = 1 ∨ (install k ret keyName iv amb).ret = 2) ↔
      amb.cipherInit = true ∧ amb.macInit = true := by
  unfold install
  cases amb.cipherInit <;> cases amb.macInit <;> simp [hret]

/-- A lookup succeeds exactly when it finds the name and both initialisers succeed. -/
theorem decrypt_accepts {store : TicketKeyStore} {keyName : Buffer kNameSize}
    {iv : Buffer evpMaxIvLength} {amb : Ambient} :
    ((store.decrypt keyName iv amb).ret = 1 ∨ (store.decrypt keyName iv amb).ret = 2) ↔
      (∃ k, store.keys.find? (fun k => keyName = k.name) = some k) ∧
        amb.cipherInit = true ∧ amb.macInit = true := by
  rw [decrypt_eq]
  cases store.keys.find? (fun k => keyName = k.name) with
  | none => simp
  | some k =>
      have hret : ∀ (P : Prop) [Decidable P],
          (if P then (1 : Int) else 2) = 1 ∨ (if P then (1 : Int) else 2) = 2 := by
        intro P _
        by_cases hP : P <;> simp [hP]
      simpa using install_accepts (hret (store.keys.head?.map Key.name = some keyName))

/-- Successful initialisers install both parts of the key. -/
theorem install_succeeds {k : Key} {ret : Int} {keyName : Buffer kNameSize}
    {iv : Buffer evpMaxIvLength} {amb : Ambient} (hcipher : amb.cipherInit = true)
    (hmac : amb.macInit = true) :
    install k ret keyName iv amb = ⟨ret, keyName, iv, some (k.aesKey, iv), some k.hmacKey⟩ := by
  simp [install, hcipher, hmac]

end TicketKeyStore

end Brazier
