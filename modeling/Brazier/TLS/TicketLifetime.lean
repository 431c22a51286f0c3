import Mathlib.Algebra.Order.Group.Int
import Mathlib.Data.List.Nodup
import Brazier.TLS.KeyHistory

/-!
# How long tickets are honoured

Three results about every run of a `TicketKeyStore` whose clock does not go back. A ticket just
issued can be decrypted for `kKeyLifetime - kRotationInterval`. The deque is ordered, not empty,
swept by every rotation and short when rotations are only the lazy ones. The converse of the
first result, that a key is refused after `kKeyLifetime`, holds only of runs in which a rotation
comes between the end of a key and its use, since a lookup does not look at the clock.
-/

namespace Brazier.TicketKeyStore

open ProofLib (Ledger)

/-! ## Availability -/

/-- The reading of the clock that `maybe_rotate_locked` gets from an encrypting call. -/
def encryptionTime (store : TicketKeyStore) (amb : Ambient) : Int :=
  match store.keys with
  | [] => amb.later
  | _ :: _ => amb.now

/-- A successful encryption uses the key it leaves in front, which is younger than the rotation
interval. -/
theorem encrypt_uses_front {store next : TicketKeyStore} {keyName : Buffer kNameSize}
    {iv : Buffer evpMaxIvLength} {amb : Ambient} {r : Handled}
    (h : store.handle keyName iv 1 amb = (.ok r, next)) (hret : r.ret = 1) :
    ∃ cur, next.keys.head? = some cur ∧ r.keyName = cur.name ∧
      r.cipher = some (cur.aesKey, r.iv) ∧ r.mac = some cur.hmacKey ∧
      store.encryptionTime amb - cur.createdAt < kRotationInterval := by
  have hencrypt : ∀ (seeded : TicketKeyStore) now draw,
      seeded.encrypt now draw keyName iv amb = (.ok r, next) →
      ∃ cur, next.keys.head? = some cur ∧ r.keyName = cur.name ∧
        r.cipher = some (cur.aesKey, r.iv) ∧ r.mac = some cur.hmacKey ∧
        now - cur.createdAt < kRotationInterval := by
    intro seeded now draw henc
    unfold encrypt at henc
    cases hrot : seeded.maybeRotateLocked now draw with
    | error e => simp [hrot] at henc
    | ok rotated =>
        obtain ⟨cur, rest, hkeys, hyoung⟩ := maybe_rotate_front hrot
        simp only [hrot, hkeys, Prod.mk.injEq, Except.ok.injEq] at henc
        obtain ⟨hr, rfl⟩ := henc
        have haccept : (install cur 1 cur.name (amb.iv.getD iv) amb).ret = 1 := hr ▸ hret
        have hinit := (install_accepts (Or.inl rfl)).mp (Or.inl haccept)
        rw [install_succeeds hinit.1 hinit.2] at hr
        subst hr
        exact ⟨cur, by rw [hkeys]; rfl, rfl, rfl, rfl, hyoung⟩
  unfold handle seed at h
  unfold encryptionTime
  cases hkeys : store.keys with
  | nil =>
      simp only [hkeys] at h ⊢
      cases hk : generateKey amb.now amb.draw with
      | error e => simp [hk, bind, Except.bind] at h
      | ok k =>
          simp only [hk, bind, Except.bind, pure, Except.pure, if_true] at h
          exact hencrypt _ _ _ h
  | cons front rest =>
      simp only [hkeys, pure, Except.pure, if_true] at h ⊢
      exact hencrypt _ _ _ h

/-- On a store with a key a decrypting call is a lookup. -/
theorem handle_decrypt {store : TicketKeyStore} (hne : store.keys ≠ [])
    (keyName : Buffer kNameSize) (iv : Buffer evpMaxIvLength) {enc : Int} (henc : enc ≠ 1)
    (amb : Ambient) :
    store.handle keyName iv enc amb = (.ok (store.decrypt keyName iv amb), store) := by
  cases hkeys : store.keys with
  | nil => exact absurd hkeys hne
  | cons front rest => simp [handle, seed, hkeys, henc, pure, Except.pure]

/-- A key issued less than `kRotationInterval` before `t` is held until
`t + kKeyLifetime - kRotationInterval`. -/
theorem held_for_36_hours {store : TicketKeyStore} {h : History} {k : Key} {t now : Int}
    (ht : Tracks store h now) (hmem : k ∈ h.entered)
    (hyoung : t - k.createdAt < kRotationInterval)
    (hage : now - t ≤ kKeyLifetime - kRotationInterval) : k ∈ store.keys := by
  rw [ht.keys, Ledger.mem_kept]
  refine ⟨hmem, ?_⟩
  unfold Ledger.swept
  cases hs : h.sweptAt with
  | none => rfl
  | some s =>
      have hle := ht.swept s hs
      have hyoung' : ¬ s - k.createdAt > kKeyLifetime := by
        omega
      exact decide_eq_false hyoung'

/-- Keys with distinct names are found by their names. -/
theorem find_by_name {keys : List Key} (hnames : (keys.map Key.name).Nodup) {k : Key}
    (hmem : k ∈ keys) : keys.find? (fun x => k.name = x.name) = some k := by
  cases hfind : keys.find? (fun x => k.name = x.name) with
  | none =>
      have hno := List.find?_eq_none.mp hfind k hmem
      simp at hno
  | some x =>
      have hx : k.name = x.name := by simpa using List.find?_some hfind
      have heq := List.inj_on_of_nodup_map hnames hmem (List.mem_of_find?_eq_some hfind) hx
      rw [heq]

/-- Among distinct names, the front has the name of a key exactly when it is the key. -/
theorem head_name_iff {keys : List Key} (hnodup : (keys.map Key.name).Nodup) {k : Key}
    (hk : k ∈ keys) : keys.head?.map Key.name = some k.name ↔ keys.head? = some k := by
  constructor
  · intro hhead
    obtain ⟨x, hx, hxname⟩ := Option.map_eq_some_iff.mp hhead
    rw [hx, List.inj_on_of_nodup_map hnodup (List.mem_of_mem_head? hx) hk hxname]
  · intro hhead
    rw [hhead, Option.map_some]

/-- A ticket issued at time `t` is decrypted with the keys that encrypted it at every time up to
36 hours after `t`, and reported current exactly while its key is in front. -/
theorem ticket_available (calls before between after : List Call)
    {name₀ name : Buffer kNameSize} {iv₀ iv : Buffer evpMaxIvLength} {amb₀ amb : Ambient}
    {issued : Handled} {next : TicketKeyStore}
    (hcalls : calls =
      before ++ .handle name₀ iv₀ 1 amb₀ :: (between ++ .handle name iv 0 amb :: after))
    (htimed : Timed calls) (hopenssl : ∀ c ∈ calls, c.ambient.Succeeds)
    (hnames : ((history calls).entered.map Key.name).Nodup)
    (hissue : (run before).handle name₀ iv₀ 1 amb₀ = (.ok issued, next))
    (hret : issued.ret = 1) (hname : issued.keyName = name)
    (hage : amb.now - (run before).encryptionTime amb₀ ≤ kKeyLifetime - kRotationInterval) :
    ∃ k r, (run (before ++ [.handle name₀ iv₀ 1 amb₀])).keys.head? = some k ∧
      issued.cipher = some (k.aesKey, issued.iv) ∧ issued.mac = some k.hmacKey ∧
      ((run (before ++ .handle name₀ iv₀ 1 amb₀ :: between)).handle name iv 0 amb).1 = .ok r ∧
      (r.ret = 1 ∨ r.ret = 2) ∧
      r.cipher = some (k.aesKey, iv) ∧ r.mac = some k.hmacKey ∧
      (r.ret = 1 ↔
        (run (before ++ .handle name₀ iv₀ 1 amb₀ :: between)).keys.head? = some k) := by
  obtain ⟨k, hfront, hkname, hcipher, hmac, hyoung⟩ := encrypt_uses_front hissue hret
  have hnext : run (before ++ [.handle name₀ iv₀ 1 amb₀]) = next := by
    rw [run_append]
    simp [step, hissue]
  set later := before ++ .handle name₀ iv₀ 1 amb₀ :: between with hlater
  have hcut : later = (before ++ [.handle name₀ iv₀ 1 amb₀]) ++ between := by
    simp [hlater]
  have hsplit : calls = later ++ .handle name iv 0 amb :: after := by
    simp [hcalls, hlater]
  have htrack : Tracks (run later) (history later) amb.now := tracks_before (hsplit ▸ htimed)
  -- the key issued is in the history from then on
  have hmem : k ∈ (history later).entered := by
    have hhead := (tracks_after (hcalls ▸ htimed)).front
    rw [hnext, hfront] at hhead
    rw [hcut]
    exact (history_suffix _ between).mem (List.mem_of_mem_head? hhead.symm)
  have hheld : k ∈ (run later).keys := held_for_36_hours htrack hmem hyoung hage
  -- and its name finds it
  have hnodup : ((run later).keys.map Key.name).Nodup := by
    have hall : ((history later).entered.map Key.name).Nodup := by
      rw [hsplit] at hnames
      exact hnames.sublist ((history_suffix later _).sublist.map _)
    rw [htrack.keys]
    exact hall.sublist (List.filter_sublist.map _)
  have hfind := find_by_name hnodup hheld
  have hok : amb.Succeeds := hopenssl (.handle name iv 0 amb) (by rw [hsplit]; simp)
  have hne : (run later).keys ≠ [] := List.ne_nil_of_mem hheld
  rw [hkname] at hname
  rw [hname] at hfind
  refine ⟨k, (run later).decrypt name iv amb, hnext ▸ hfront, hcipher, hmac, ?_⟩
  rw [handle_decrypt hne name iv (by omega) amb, decrypt_eq, hfind]
  simp only [install_succeeds hok.cipherInit hok.macInit, true_and]
  have hcurrent := head_name_iff hnodup hheld
  rw [hname] at hcurrent
  by_cases hcur : (run later).keys.head? = some k
  · simp [hcur, hname]
  · simp [mt hcurrent.mp hcur, hcur]

/-- Surroundings in which every call succeeds, both readings are `now`, and the key drawn
consists of copies of one byte. -/
def calm (now : Int) (byte : UInt8) : Ambient where
  now := now
  later := now
  draw := ⟨some (.replicate _ byte), some (.replicate _ byte), some (.replicate _ byte)⟩
  spare := ⟨some (.replicate _ byte), some (.replicate _ byte), some (.replicate _ byte)⟩
  iv := some (.replicate _ byte)
  cipherInit := true
  macInit := true

theorem calm_succeeds (now : Int) (byte : UInt8) : (calm now byte).Succeeds where
  draw := ⟨_, _, _, rfl⟩
  spare := ⟨_, _, _, rfl⟩
  iv := rfl
  cipherInit := rfl
  macInit := rfl

/-- Issue a ticket at time zero and decrypt it after 36 hours. -/
def resumption : List Call :=
  [.handle (.replicate _ 0) (.replicate _ 0) 1 (calm 0 1),
   .handle (.replicate _ 1) (.replicate _ 0) 0 (calm (hours 36) 2)]

/-- A ticket is accepted 36 hours after it was issued. -/
theorem resumption_available :
    ∃ r, ((run (resumption.take 1)).handle (.replicate _ 1) (.replicate _ 0) 0
        (calm (hours 36) 2)).1 = .ok r ∧ (r.ret = 1 ∨ r.ret = 2) := by
  have hopenssl : ∀ c ∈ resumption, c.ambient.Succeeds := by
    simp [resumption, Call.ambient, calm_succeeds]
  have htimed : Timed resumption := by
    simp [Timed, resumption, Call.ambient, calm, hours]
  obtain ⟨k, r, -, -, -, hr, haccept, -⟩ :=
    ticket_available resumption [] [] [] rfl htimed hopenssl (by decide) rfl rfl rfl (by decide)
  exact ⟨r, hr, haccept⟩

/-! ## The representation invariant -/

/-- The reading at which an operation rotates, if it does. -/
def rotatesAt (store : TicketKeyStore) : Call → Option Int
  | .ensureInitialized _ => none
  | .rotateNow amb =>
      match generateKey amb.now amb.draw with
      | .error _ => none
      | .ok _ => some amb.now
  | .handle _ _ enc amb =>
      match store.seed amb with
      | .error _ => none
      | .ok (seeded, now, draw) =>
          match seeded.keys.head?, generateKey now draw with
          | some front, .ok _ =>
              if enc = 1 ∧ ¬ now - front.createdAt < kRotationInterval then some now else none
          | _, _ => none

/-- What holds of the deque after a run. -/
structure KeysInvariant (calls : List Call) : Prop where
  newestFirst : (run calls).keys.Pairwise (fun newer older => older.createdAt ≤ newer.createdAt)
  nonempty : ∀ before c after, calls = before ++ c :: after →
    (∃ out, ((run before).step c).1 = .ok out) → (run calls).keys ≠ []
  swept : ∀ before c now, calls = before ++ [c] → rotatesAt (run before) c = some now →
    ∀ k ∈ (run calls).keys, now - k.createdAt ≤ kKeyLifetime
  spaced : (∀ c ∈ calls, ∀ amb, c ≠ .rotateNow amb) →
    (run calls).keys.IsChain
      (fun newer older => older.createdAt + kRotationInterval ≤ newer.createdAt)
  few : (∀ c ∈ calls, ∀ amb, c ≠ .rotateNow amb) → (run calls).keyCount ≤ 5

/-- Issuing a ticket with a key that is due sweeps the history. -/
theorem record_encryption_sweeps {h : History} {front k : Key} {now : Int} {draw : KeyDraw}
    (hfront : h.entered.head? = some front) (hk : generateKey now draw = .ok k)
    (hdue : ¬ now - front.createdAt < kRotationInterval) :
    (recordEncryption h now draw).sweptAt = some now := by
  cases hent : h.entered with
  | nil => simp [hent] at hfront
  | cons newest older =>
      obtain rfl : newest = front := by simpa [hent] using hfront
      simp [recordEncryption, hent, hdue, recordRotation, hk]

/-- A rotation of the code sweeps the history. -/
theorem record_sweeps {store : TicketKeyStore} {h : History} {upTo now : Int}
    (ht : Tracks store h upTo) {c : Call} (hrot : rotatesAt store c = some now) :
    (record h c).sweptAt = some now := by
  cases c with
  | ensureInitialized amb => cases hrot
  | rotateNow amb =>
      cases hk : generateKey amb.now amb.draw with
      | error e => simp [rotatesAt, hk] at hrot
      | ok k => simpa [rotatesAt, record, recordRotation, hk] using hrot
  | handle keyName iv enc amb =>
      unfold rotatesAt seed at hrot
      cases hkeys : store.keys with
      | nil =>
          have hent := ht.keys_nil_iff.mp hkeys
          cases hk : generateKey amb.now amb.draw with
          | error e => simp [hkeys, hk, bind, Except.bind] at hrot
          | ok first =>
              cases hk' : generateKey amb.later amb.spare with
              | error e => simp [hkeys, hk, hk', bind, Except.bind, pure, Except.pure] at hrot
              | ok k =>
                  simp only [hkeys, hk, hk', bind, Except.bind, pure, Except.pure,
                    List.head?_cons, Option.ite_none_right_eq_some, Option.some.injEq] at hrot
                  obtain ⟨⟨henc, hdue⟩, rfl⟩ := hrot
                  simp only [record, hent, hk, henc, if_true]
                  exact record_encryption_sweeps rfl hk' hdue
      | cons front rest =>
          have hfront : h.entered.head? = some front := by rw [← ht.front, hkeys]; rfl
          cases hk : generateKey amb.now amb.draw with
          | error e => simp [hkeys, hk, pure, Except.pure] at hrot
          | ok k =>
              simp only [hkeys, hk, pure, Except.pure, List.head?_cons,
                Option.ite_none_right_eq_some, Option.some.injEq] at hrot
              obtain ⟨⟨henc, hdue⟩, rfl⟩ := hrot
              cases hent : h.entered with
              | nil => simp [hent] at hfront
              | cons newest older =>
                  simp only [record, hent, henc, if_true]
                  exact record_encryption_sweeps hfront hk hdue

/-- An operation that returns leaves a key in the history. -/
theorem record_nonempty {store : TicketKeyStore} {h : History} {upTo : Int}
    (ht : Tracks store h upTo) {c : Call} (hout : ∃ out, (store.step c).1 = .ok out) :
    (record h c).entered ≠ [] := by
  obtain ⟨out, hout⟩ := hout
  by_cases hent : h.entered = []
  · have hkeys := ht.keys_nil_iff.mpr hent
    obtain rfl : store = ⟨[]⟩ := by cases store; simp_all
    cases c with
    | ensureInitialized amb =>
        cases hk : generateKey amb.now amb.draw with
        | error e => simp [step, settle, ensureInitialized, hk, bind, Except.bind] at hout
        | ok k => simp [record, hent, hk]
    | rotateNow amb =>
        cases hk : generateKey amb.now amb.draw with
        | error e => simp [step, settle, rotateNow, hk, bind, Except.bind] at hout
        | ok k => simp [record, recordRotation, hk]
    | handle keyName iv enc amb =>
        cases hk : generateKey amb.now amb.draw with
        | error e => simp [step, handle, seed, hk, bind, Except.bind, Except.map] at hout
        | ok k =>
            have hgrow := (record_encryption_suffix (h.enter k) amb.later amb.spare).length_le
            simp only [record, hent, hk]
            split
            · exact List.ne_nil_of_length_pos (by simpa using Nat.lt_of_lt_of_le (by simp) hgrow)
            · simp
  · intro hnil
    have hgrow := (record_suffix h c).length_le
    rw [hnil] at hgrow
    exact hent (List.length_eq_zero_iff.mp (Nat.le_zero.mp hgrow))

/-! Without `rotate_now` the keys are spaced. -/

/-- The keys were created at least `kRotationInterval` apart, the newest at the last sweep. -/
structure Spaced (h : History) : Prop where
  gaps : h.entered.Pairwise
    (fun newer older => older.createdAt + kRotationInterval ≤ newer.createdAt)
  single : h.sweptAt = none → h.entered.length ≤ 1
  latest : ∀ s, h.sweptAt = some s → h.entered.head?.map Key.createdAt = some s

/-- The first key of a history. -/
theorem Spaced.enter {h : History} (hs : Spaced h) (hent : h.entered = []) (k : Key) :
    Spaced (h.enter k) where
  gaps := by simp [hent]
  single := by simp [hent]
  latest := by
    intro s hswept
    have hlatest := hs.latest s hswept
    simp [hent] at hlatest

/-- A lazy rotation keeps the spacing, since it waits for the interval to pass. -/
theorem Spaced.encryption {h : History} (hs : Spaced h) (now : Int) (draw : KeyDraw) :
    Spaced (recordEncryption h now draw) := by
  unfold recordEncryption
  split
  · exact hs
  · rename_i newest older hent
    split
    · exact hs
    · rename_i hdue
      cases hk : generateKey now draw with
      | error e => simpa [recordRotation, hk] using hs
      | ok k =>
          have hcreated := generate_key_created hk
          have hgaps := hs.gaps
          rw [hent] at hgaps
          have hbelow : ∀ x ∈ newest :: older, x.createdAt + kRotationInterval ≤ k.createdAt := by
            intro x hx
            rcases List.mem_cons.mp hx with rfl | hx
            · omega
            · have hgap := (List.pairwise_cons.mp hgaps).1 x hx
              simp only [kRotationInterval, hours] at hgap hdue ⊢
              omega
          simp only [recordRotation, hk]
          refine ⟨?_, by simp, by simp [hcreated]⟩
          simp only [Ledger.entered_sweep, Ledger.entered_enter, hent]
          exact List.pairwise_cons.mpr ⟨hbelow, hgaps⟩

/-- Every operation but `rotate_now` keeps the spacing. -/
theorem Spaced.record {h : History} (hs : Spaced h) {c : Call}
    (hc : ∀ amb, c ≠ .rotateNow amb) : Spaced (record h c) := by
  cases c with
  | ensureInitialized amb =>
      simp only [TicketKeyStore.record]
      split
      · exact hs.enter (by assumption) _
      · exact hs
  | rotateNow amb => exact absurd rfl (hc amb)
  | handle keyName iv enc amb =>
      simp only [TicketKeyStore.record]
      split
      · exact hs
      · have henter := hs.enter (by assumption)
        split
        · exact (henter _).encryption _ _
        · exact henter _
      · split
        · exact hs.encryption _ _
        · exact hs

/-- The history of a run without `rotate_now` is spaced. -/
theorem spaced_history {calls : List Call} (hc : ∀ c ∈ calls, ∀ amb, c ≠ .rotateNow amb) :
    Spaced (history calls) := by
  induction calls using List.reverseRecOn with
  | nil => exact ⟨List.Pairwise.nil, by simp [history, Ledger.empty],
      by simp [history, Ledger.empty]⟩
  | append_singleton calls c ih =>
      rw [history_append]
      exact (ih (fun d hd => hc d (by simp [hd]))).record (hc c (by simp))

/-- A spaced history has at most five keys left: they span no more than `kKeyLifetime`, which is
four rotation intervals. -/
theorem Spaced.length_kept_le {h : History} (hs : Spaced h) : (h.kept lifetime).length ≤ 5 := by
  cases hswept : h.sweptAt with
  | none =>
      have hsub : (h.kept lifetime).length ≤ h.entered.length := List.length_filter_le _ _
      have hsingle := hs.single hswept
      omega
  | some s =>
      have hgaps := hs.gaps.sublist
        (List.filter_sublist (p := fun k => !h.swept lifetime k))
      have hhi : ∀ k ∈ h.kept lifetime, k.createdAt ≤ s := by
        intro k hk
        have hlatest := hs.latest s hswept
        cases hent : h.entered with
        | nil => simp [hent] at hlatest
        | cons newest older =>
            have hnewest : newest.createdAt = s := by simpa [hent] using hlatest
            have hmem := (Ledger.mem_kept.mp hk).1
            have hg := hs.gaps
            rw [hent] at hmem hg
            rcases List.mem_cons.mp hmem with rfl | hmem
            · omega
            · have hgap := (List.pairwise_cons.mp hg).1 k hmem
              simp only [kRotationInterval, hours] at hgap
              omega
      have hlo : ∀ k ∈ h.kept lifetime, s - kKeyLifetime ≤ k.createdAt := by
        intro k hk
        have hyoung := (Ledger.mem_kept.mp hk).2
        simp only [Ledger.swept, hswept, lifetime, pastLifetime, decide_eq_false_iff_not] at hyoung
        omega
      have hlen := ProofLib.length_nsmul_le (by simp [kRotationInterval, hours])
        (by simp [kKeyLifetime, hours]) hgaps hlo hhi
      simp only [kKeyLifetime, kRotationInterval, hours, nsmul_eq_mul] at hlen
      rw [show h.entered.filter (fun k => !h.swept lifetime k) = h.kept lifetime from rfl] at hlen
      omega

/-- In every run the keys are ordered, some key is held once an operation has returned, every
rotation leaves only keys within their lifetime, and without `rotate_now` the keys are spaced
and at most five. -/
theorem keys_invariant {calls : List Call} (htimed : Timed calls) : KeysInvariant calls := by
  obtain ⟨t, htrack⟩ : ∃ t, Tracks (run calls) (history calls) t := by
    cases hlast : calls.getLast? with
    | none =>
        rw [List.getLast?_eq_none_iff.mp hlast]
        exact ⟨0, Tracks.init 0⟩
    | some c =>
        obtain ⟨before, rfl⟩ := List.getLast?_eq_some_iff.mp hlast
        exact ⟨_, tracks_after htimed⟩
  have hkept : ∀ {R : Key → Key → Prop}, (history calls).entered.Pairwise R →
      (run calls).keys.Pairwise R := by
    intro R h
    rw [htrack.keys]
    exact h.sublist List.filter_sublist
  refine ⟨hkept htrack.sorted, ?_, ?_, ?_, ?_⟩
  · rintro before c after rfl hout hnil
    have hprior := tracks_before htimed
    have hent := htrack.keys_nil_iff.mp hnil
    have hgrow := (history_suffix (before ++ [c]) after).length_le
    rw [List.append_assoc, List.singleton_append, hent, history_append] at hgrow
    exact record_nonempty hprior hout
      (List.length_eq_zero_iff.mp (Nat.le_zero.mp hgrow))
  · rintro before c now rfl hrot k hk
    have hsweep := record_sweeps (tracks_before htimed) hrot
    rw [htrack.keys, Ledger.mem_kept, history_append] at hk
    have hyoung := hk.2
    simp only [Ledger.swept, hsweep, lifetime, pastLifetime, decide_eq_false_iff_not] at hyoung
    omega
  · intro hlazy
    exact (hkept (spaced_history hlazy).gaps).isChain
  · intro hlazy
    rw [keyCount, htrack.keys]
    exact (spaced_history hlazy).length_kept_le

/-- Four lazy rotations after exactly twelve hours each leave five keys. -/
def lazyRotations : List Call :=
  [0, 12, 24, 36, 48].map
    (fun t => .handle (.replicate _ 0) (.replicate _ 0) 1 (calm (hours t) t.toNat.toUInt8))

/-- The bound of five keys is reached. -/
theorem lazy_rotations_invariant :
    KeysInvariant lazyRotations ∧ (run lazyRotations).keyCount = 5 := by
  refine ⟨keys_invariant ?_, by decide⟩
  simp [Timed, lazyRotations, Call.ambient, calm, hours]

/-! ## Expiry -/

/-- The call decrypts, at the time `amb.now`, with a key that is past its lifetime. -/
def AcceptsExpired (store : TicketKeyStore) : Call → Prop
  | .handle keyName iv enc amb =>
      enc = 0 ∧ ∃ r k, (store.handle keyName iv enc amb).1 = .ok r ∧ (r.ret = 1 ∨ r.ret = 2) ∧
        (store.handle keyName iv enc amb).2.keys.find? (fun k => keyName = k.name) = some k ∧
        amb.now - k.createdAt > kKeyLifetime
  | _ => False

/-- If the call asks for a key past its lifetime, then a rotation came after the end of that
lifetime, or OpenSSL fails in the call. -/
def SweptInTime (h : History) : Call → Prop
  | .handle keyName _ enc amb =>
      enc = 0 → ∀ k, h.entered.find? (fun k => keyName = k.name) = some k →
        amb.now - k.createdAt > kKeyLifetime →
          (∃ s, h.sweptAt = some s ∧ s - k.createdAt > kKeyLifetime) ∨
            amb.cipherInit = false ∨ amb.macInit = false
  | _ => True

/-- A key has been swept exactly when the last rotation came after the end of its lifetime. -/
theorem swept_iff {h : History} {k : Key} :
    h.swept lifetime k = true ↔ ∃ s, h.sweptAt = some s ∧ s - k.createdAt > kKeyLifetime := by
  unfold Ledger.swept
  cases h.sweptAt with
  | none => simp
  | some s => simp [lifetime, pastLifetime]

/-- One call: it decrypts with an expired key exactly when no rotation came in time. -/
theorem accepts_expired_iff {store : TicketKeyStore} {h : History} {c : Call}
    (ht : Tracks store h c.ambient.now) : ¬ AcceptsExpired store c ↔ SweptInTime h c := by
  cases c with
  | ensureInitialized amb => simp [AcceptsExpired, SweptInTime]
  | rotateNow amb => simp [AcceptsExpired, SweptInTime]
  | handle keyName iv enc amb =>
      by_cases henc : enc = 0
      · subst henc
        by_cases hne : store.keys = []
        · -- a store without a key makes a new one, which cannot be expired
          have hent := ht.keys_nil_iff.mp hne
          obtain rfl : store = ⟨[]⟩ := by cases store; simp_all
          have hswept : SweptInTime h (.handle keyName iv 0 amb) := by simp [SweptInTime, hent]
          refine iff_of_true ?_ hswept
          rintro ⟨-, r, k, hr, -, hfind, hold⟩
          cases hk : generateKey amb.now amb.draw with
          | error e => simp [handle, seed, hk, bind, Except.bind] at hr
          | ok first =>
              simp only [handle, seed, hk, bind, Except.bind, pure, Except.pure, zero_ne_one,
                if_false] at hfind
              have hmem := List.mem_of_find?_eq_some hfind
              rw [List.mem_singleton.mp hmem, generate_key_created hk] at hold
              simp [kKeyLifetime, hours] at hold
        · have hlookup := handle_decrypt hne keyName iv (show (0 : Int) ≠ 1 by omega) amb
          have hfind : store.keys.find? (fun k => keyName = k.name) =
              (h.entered.find? (fun k => keyName = k.name)).filter
                (fun k => !h.swept lifetime k) := by
            rw [ht.keys]
            exact Ledger.find_kept (ordered_of_sorted ht.sorted) _
          have haccepts : AcceptsExpired store (.handle keyName iv 0 amb) ↔
              ∃ k, store.keys.find? (fun k => keyName = k.name) = some k ∧
                amb.now - k.createdAt > kKeyLifetime ∧
                amb.cipherInit = true ∧ amb.macInit = true := by
            simp only [AcceptsExpired, hlookup, Except.ok.injEq, true_and]
            constructor
            · rintro ⟨r, k, rfl, haccept, hk, hold⟩
              exact ⟨k, hk, hold, (decrypt_accepts.mp haccept).2⟩
            · rintro ⟨k, hk, hold, hinit⟩
              exact ⟨_, k, rfl, decrypt_accepts.mpr ⟨⟨k, hk⟩, hinit⟩, hk, hold⟩
          rw [haccepts, hfind]
          simp only [SweptInTime, forall_const, ← swept_iff]
          cases h.entered.find? (fun k => keyName = k.name) with
          | none => simp
          | some k =>
              cases hsw : h.swept lifetime k <;>
                cases amb.cipherInit <;> cases amb.macInit <;> simp [hsw, Option.filter]
      · simp [AcceptsExpired, SweptInTime, henc]

/-- In every run, no call decrypts with a key past its lifetime exactly when every key asked for
after its lifetime was swept by a rotation that came after the end of that lifetime. -/
theorem expired_keys_refused_iff {calls : List Call} (htimed : Timed calls) :
    (∀ before c after, calls = before ++ c :: after → ¬ AcceptsExpired (run before) c) ↔
      ∀ before c after, calls = before ++ c :: after → SweptInTime (history before) c := by
  refine forall₄_congr ?_
  rintro before c after rfl
  exact accepts_expired_iff (tracks_before htimed)

/-- A ticket decrypted 49 hours after its key was made, with no rotation in between. -/
def quietResumption : List Call :=
  [.ensureInitialized (calm 0 1),
   .handle (.replicate _ 1) (.replicate _ 0) 0 (calm (hours 49) 2)]

theorem quiet_resumption_timed : Timed quietResumption := by
  simp [Timed, quietResumption, Call.ambient, calm, hours]

/-- The store honours a key 49 hours after its creation. -/
theorem quiet_resumption_accepted :
    ¬ ∀ calls, Timed calls → ∀ before c after, calls = before ++ c :: after →
      ¬ AcceptsExpired (run before) c := by
  intro h
  refine h quietResumption quiet_resumption_timed (quietResumption.take 1) _ [] rfl ?_
  exact ⟨rfl, _, _, rfl, Or.inl rfl, rfl, by decide⟩

/-- Decrypt a ticket of the first key after 49 hours. -/
def lateResumption : Call := .handle (.replicate _ 1) (.replicate _ 0) 0 (calm (hours 49) 3)

/-- Make a key, and rotate after 49 hours. -/
def lateRotation : List Call := [.ensureInitialized (calm 0 1), .rotateNow (calm (hours 49) 2)]

/-- The rotation makes the late decryption fail. -/
theorem swept_resumption_refused : ¬ AcceptsExpired (run lateRotation) lateResumption := by
  have htimed : Timed (lateRotation ++ [lateResumption]) := by
    simp [Timed, lateRotation, lateResumption, Call.ambient, calm, hours]
  refine (expired_keys_refused_iff htimed).mpr (ProofLib.throughout_iff_split.mp ?_)
    lateRotation lateResumption [] rfl
  refine ⟨trivial, trivial, ?_, trivial⟩
  intro _ k _ hold
  exact Or.inl ⟨hours 49, rfl, hold⟩

end Brazier.TicketKeyStore
