import Brazier.ProofLib.Ledger
import Brazier.TLS.TicketKeyStore

/-!
# The history of a ticket key store

The abstract store never deletes: a `History` lists every key ever generated, newest first, with
the time of the last rotation. `record` says what an operation adds to it. `tracks_run` is the
refinement: under a clock that does not go back, the deque of the code is always what the history
has left after its last sweep, and the key in front is the newest one generated.
-/

namespace Brazier.TicketKeyStore

open ProofLib (Ledger Expiry)

/-- Every key generated, newest first, and the time of the last rotation. -/
abbrev History := Ledger Key Int

/-- A key past its lifetime stays so. -/
theorem past_lifetime_mono {s t : Int} {k : Key} (hle : s ≤ t)
    (h : pastLifetime s k = true) : pastLifetime t k = true := by
  simp only [pastLifetime, decide_eq_true_eq] at h ⊢
  omega

/-- Keys expire `kKeyLifetime` after their creation. -/
def lifetime : Expiry Key Int where
  expired := pastLifetime
  mono := past_lifetime_mono

/-- A rotation enters a key and sweeps. A failed draw changes nothing. -/
def recordRotation (h : History) (now : Int) (draw : KeyDraw) : History :=
  match generateKey now draw with
  | .error _ => h
  | .ok k => (h.enter k).sweep now

/-- Issuing a ticket rotates when the newest key has reached `kRotationInterval`. -/
def recordEncryption (h : History) (now : Int) (draw : KeyDraw) : History :=
  match h.entered with
  | [] => h
  | newest :: _ =>
      if now - newest.createdAt < kRotationInterval then h else recordRotation h now draw

/-- What an operation adds to the history. -/
def record (h : History) : Call → History
  | .ensureInitialized amb =>
      match h.entered, generateKey amb.now amb.draw with
      | [], .ok k => h.enter k
      | _, _ => h
  | .rotateNow amb => recordRotation h amb.now amb.draw
  | .handle _ _ enc amb =>
      match h.entered, generateKey amb.now amb.draw with
      | [], .error _ => h
      | [], .ok k => if enc = 1 then recordEncryption (h.enter k) amb.later amb.spare else h.enter k
      | _ :: _, _ => if enc = 1 then recordEncryption h amb.now amb.draw else h

/-- The history of a list of operations on a new store. -/
def history (calls : List Call) : History :=
  ProofLib.runFrom record Ledger.empty calls

/-! ## The refinement relation -/

/-- The store holds what the history has left, and nothing in the history is later than
`upTo`. -/
structure Tracks (store : TicketKeyStore) (h : History) (upTo : Int) : Prop where
  keys : store.keys = h.kept lifetime
  front : store.keys.head? = h.entered.head?
  sorted : h.entered.Pairwise (fun newer older => older.createdAt ≤ newer.createdAt)
  created : ∀ k ∈ h.entered, k.createdAt ≤ upTo
  swept : ∀ s, h.sweptAt = some s → s ≤ upTo

/-- Keys in order of creation expire in the reverse order. -/
theorem ordered_of_sorted {keys : List Key}
    (h : keys.Pairwise (fun newer older => older.createdAt ≤ newer.createdAt)) :
    Ledger.Ordered lifetime keys := by
  refine h.imp ?_
  intro newer older hle t hexp
  simp only [lifetime, pastLifetime, decide_eq_true_eq] at hexp ⊢
  omega

/-- A key created after the last sweep was not swept. -/
theorem not_swept_of_created {h : History} {k : Key}
    (hle : ∀ s, h.sweptAt = some s → s ≤ k.createdAt) : h.swept lifetime k = false := by
  unfold Ledger.swept
  cases hs : h.sweptAt with
  | none => rfl
  | some s =>
      have hs := hle s hs
      have hyoung : ¬ s - k.createdAt > kKeyLifetime := by
        simp only [kKeyLifetime, hours]
        omega
      exact decide_eq_false hyoung

namespace Tracks

variable {store : TicketKeyStore} {h : History} {upTo now : Int}

/-- A new store has an empty history. -/
theorem init (upTo : Int) : Tracks ⟨[]⟩ Ledger.empty upTo where
  keys := rfl
  front := rfl
  sorted := List.Pairwise.nil
  created := by simp [Ledger.empty]
  swept := by simp [Ledger.empty]

/-- The bound on the history may grow. -/
theorem mono (ht : Tracks store h upTo) (hle : upTo ≤ now) : Tracks store h now where
  keys := ht.keys
  front := ht.front
  sorted := ht.sorted
  created := fun k hk => (ht.created k hk).trans hle
  swept := fun s hs => (ht.swept s hs).trans hle

/-- The store is empty exactly when no key was ever generated. -/
theorem keys_nil_iff (ht : Tracks store h upTo) : store.keys = [] ↔ h.entered = [] := by
  rw [← List.head?_eq_none_iff, ← List.head?_eq_none_iff, ht.front]

/-- A key created now may be put in front of the history. -/
theorem sorted_cons (ht : Tracks store h upTo) {k : Key} (hle : upTo ≤ k.createdAt) :
    (k :: h.entered).Pairwise (fun newer older => older.createdAt ≤ newer.createdAt) :=
  List.pairwise_cons.mpr ⟨fun x hx => (ht.created x hx).trans hle, ht.sorted⟩

/-- The first key of an empty store. -/
theorem enter (ht : Tracks ⟨[]⟩ h upTo) {k : Key} (hle : upTo ≤ k.createdAt) :
    Tracks ⟨[k]⟩ (h.enter k) k.createdAt := by
  have hnil : h.entered = [] := ht.keys_nil_iff.mp rfl
  have hfresh : (h.enter k).swept lifetime k = false :=
    not_swept_of_created (fun s hs => (ht.swept s hs).trans hle)
  refine ⟨?_, rfl, ht.sorted_cons hle, ?_, fun s hs => (ht.swept s hs).trans hle⟩
  · simp [Ledger.kept, hnil, hfresh]
  · simp [hnil]

/-- A rotation. -/
theorem rotate (ht : Tracks store h upTo) {k : Key} (hle : upTo ≤ k.createdAt) :
    Tracks ⟨prune k.createdAt (k :: store.keys)⟩ ((h.enter k).sweep k.createdAt)
      k.createdAt := by
  have hkeys : prune k.createdAt (k :: store.keys) =
      ((h.enter k).sweep k.createdAt).kept lifetime := by
    rw [ht.keys]
    exact Ledger.rdropWhile_kept (ordered_of_sorted (ht.sorted_cons hle))
      (fun s hs => (ht.swept s hs).trans hle)
  have hfresh : ((h.enter k).sweep k.createdAt).swept lifetime k = false :=
    past_lifetime_self k
  refine ⟨hkeys, ?_, ht.sorted_cons hle, ?_, ?_⟩
  · simp only [hkeys, Ledger.kept, Ledger.entered_sweep, Ledger.entered_enter,
      List.filter_cons, hfresh, Bool.not_false, if_true, List.head?_cons]
  · intro x hx
    rcases List.mem_cons.mp hx with rfl | hx
    · exact le_rfl
    · exact (ht.created x hx).trans hle
  · intro s hs
    exact (Option.some.inj hs).symm.le

end Tracks

/-! ## One operation -/

section
variable {store next : TicketKeyStore} {h : History} {upTo now : Int} {draw : KeyDraw}

/-- A rotation of the code is a rotation of the history. -/
theorem tracks_rotation (ht : Tracks store h upTo) (hle : upTo ≤ now) {k : Key}
    (hk : generateKey now draw = .ok k) :
    Tracks ⟨prune now (k :: store.keys)⟩ (recordRotation h now draw) now := by
  have hcreated : k.createdAt = now := generate_key_created hk
  simp only [recordRotation, hk]
  rw [← hcreated] at hle ⊢
  exact ht.rotate hle

/-- The branch that issues a ticket, on a store that already has a key. -/
theorem tracks_encryption (ht : Tracks store h upTo) (hle : upTo ≤ now)
    (hne : store.keys ≠ []) (keyName : Buffer kNameSize) (iv : Buffer evpMaxIvLength)
    (amb : Ambient) :
    Tracks (store.encrypt now draw keyName iv amb).2 (recordEncryption h now draw) now := by
  have hfront := ht.front
  cases hkeys : store.keys with
  | nil => exact absurd hkeys hne
  | cons front rest =>
      cases hent : h.entered with
      | nil => simp [hkeys, hent] at hfront
      | cons newest older =>
          have heq : front = newest := by simpa [hkeys, hent] using hfront
          subst heq
          unfold encrypt maybeRotateLocked recordEncryption
          simp only [hkeys, hent]
          by_cases hdue : now - front.createdAt < kRotationInterval
          · simp only [hdue, if_true, pure, Except.pure]
            rw [hkeys]
            exact ht.mono hle
          · simp only [hdue, if_false]
            cases hk : generateKey now draw with
            | error e =>
                simp only [bind, Except.bind, recordRotation, hk]
                exact ht.mono hle
            | ok k =>
                have hrot := tracks_rotation ht hle hk
                rw [hkeys] at hrot
                simp only [bind, Except.bind, pure, Except.pure]
                cases hpruned : prune now (k :: front :: rest) with
                | nil => simpa [hpruned] using hrot
                | cons cur others => simpa [hpruned] using hrot

/-- A store without keys belongs to a history without keys. -/
theorem Tracks.entered_nil (ht : Tracks store h upTo) (hkeys : store.keys = []) :
    store = ⟨[]⟩ ∧ h.entered = [] := by
  refine ⟨?_, ht.keys_nil_iff.mp hkeys⟩
  cases store
  cases hkeys
  rfl

/-- A store with keys belongs to a history with keys. -/
theorem Tracks.entered_cons (ht : Tracks store h upTo) {front : Key} {rest : List Key}
    (hkeys : store.keys = front :: rest) : ∃ newest older, h.entered = newest :: older := by
  refine List.exists_cons_of_ne_nil fun hent => ?_
  rw [ht.keys_nil_iff.mpr hent] at hkeys
  cases hkeys

/-- `ensureInitialized` is recorded. -/
theorem tracks_ensureInitialized (amb : Ambient) (ht : Tracks store h upTo) (hle : upTo ≤ amb.now)
    (hclock : amb.now ≤ amb.later) :
    Tracks (store.step (.ensureInitialized amb)).2 (record h (.ensureInitialized amb))
      amb.later := by
  cases hkeys : store.keys with
  | nil =>
      obtain ⟨rfl, hent⟩ := ht.entered_nil hkeys
      cases hk : generateKey amb.now amb.draw with
      | error e =>
          simp only [step, ensureInitialized, settle, record, hent, hk, bind, Except.bind]
          exact ht.mono (hle.trans hclock)
      | ok k =>
          have hcreated := generate_key_created hk
          simp only [step, ensureInitialized, settle, record, hent, hk, bind, Except.bind,
            pure, Except.pure]
          exact (ht.enter (by omega)).mono (by omega)
  | cons front rest =>
      obtain ⟨newest, older, hent⟩ := ht.entered_cons hkeys
      simp only [step, ensureInitialized, settle, record, hent, hkeys, pure, Except.pure]
      exact ht.mono (hle.trans hclock)

/-- `rotateNow` is recorded. -/
theorem tracks_rotateNow (amb : Ambient) (ht : Tracks store h upTo) (hle : upTo ≤ amb.now)
    (hclock : amb.now ≤ amb.later) :
    Tracks (store.step (.rotateNow amb)).2 (record h (.rotateNow amb)) amb.later := by
  cases hk : generateKey amb.now amb.draw with
  | error e =>
      simp only [step, rotateNow, settle, record, recordRotation, hk, bind, Except.bind]
      exact ht.mono (hle.trans hclock)
  | ok k =>
      simp only [step, rotateNow, settle, record, hk, bind, Except.bind, pure, Except.pure]
      exact (tracks_rotation ht hle hk).mono hclock

/-- `handle` is recorded: it seeds an empty store first. -/
theorem tracks_handle (keyName : Buffer kNameSize) (iv : Buffer evpMaxIvLength) (enc : Int)
    (amb : Ambient) (ht : Tracks store h upTo) (hle : upTo ≤ amb.now)
    (hclock : amb.now ≤ amb.later) :
    Tracks (store.step (.handle keyName iv enc amb)).2 (record h (.handle keyName iv enc amb))
      amb.later := by
  cases hkeys : store.keys with
  | nil =>
      obtain ⟨rfl, hent⟩ := ht.entered_nil hkeys
      cases hk : generateKey amb.now amb.draw with
      | error e =>
          simp only [step, handle, seed, record, hent, hk, bind, Except.bind]
          exact ht.mono (hle.trans hclock)
      | ok k =>
          have hcreated := generate_key_created hk
          have hseeded : Tracks ⟨[k]⟩ (h.enter k) amb.now := hcreated ▸ ht.enter (by omega)
          simp only [step, handle, seed, record, hent, hk, bind, Except.bind, pure, Except.pure]
          by_cases henc : enc = 1
          · simp only [henc, if_true]
            exact tracks_encryption hseeded hclock (by simp) keyName iv amb
          · simp only [henc, if_false]
            exact hseeded.mono hclock
  | cons front rest =>
      obtain ⟨newest, older, hent⟩ := ht.entered_cons hkeys
      simp only [step, handle, seed, record, hent, hkeys, pure, Except.pure]
      by_cases henc : enc = 1
      · simp only [henc, if_true]
        exact (tracks_encryption ht hle (by simp [hkeys]) keyName iv amb).mono hclock
      · simp only [henc, if_false]
        exact ht.mono (hle.trans hclock)

/-- Every operation of the code is recorded in the history. -/
theorem tracks_step (c : Call) (ht : Tracks store h upTo) (hle : upTo ≤ c.ambient.now)
    (hclock : c.ambient.now ≤ c.ambient.later) :
    Tracks (store.step c).2 (record h c) c.ambient.later := by
  cases c with
  | ensureInitialized amb => exact tracks_ensureInitialized amb ht hle hclock
  | rotateNow amb => exact tracks_rotateNow amb ht hle hclock
  | handle keyName iv enc amb => exact tracks_handle keyName iv enc amb ht hle hclock

end

/-- A rotation leaves the new key in front. -/
theorem prune_fresh {now : Int} {k : Key} (hk : k.createdAt = now) (keys : List Key) :
    prune now (k :: keys) = k :: prune now keys :=
  ProofLib.rdropWhile_cons_of_neg (hk ▸ past_lifetime_self k)

/-- The key that `maybe_rotate_locked` leaves in front has not reached the rotation interval. -/
theorem maybe_rotate_front {store next : TicketKeyStore} {now : Int} {draw : KeyDraw}
    (h : store.maybeRotateLocked now draw = .ok next) :
    ∃ cur rest, next.keys = cur :: rest ∧ now - cur.createdAt < kRotationInterval := by
  have hfresh : ∀ k, generateKey now draw = .ok k → now - k.createdAt < kRotationInterval := by
    intro k hk
    rw [generate_key_created hk]
    simp [kRotationInterval, hours]
  unfold maybeRotateLocked at h
  split at h
  · cases hk : generateKey now draw with
    | error e => simp [hk, bind, Except.bind] at h
    | ok k =>
        simp only [hk, bind, Except.bind, pure, Except.pure, Except.ok.injEq] at h
        exact ⟨k, [], by rw [← h], hfresh k hk⟩
  · rename_i front rest hkeys
    split at h
    · rename_i hdue
      cases h
      exact ⟨front, rest, hkeys, hdue⟩
    · cases hk : generateKey now draw with
      | error e => simp [hk, bind, Except.bind] at h
      | ok k =>
          simp only [hk, bind, Except.bind, pure, Except.pure, Except.ok.injEq] at h
          refine ⟨k, prune now store.keys, ?_, hfresh k hk⟩
          rw [← h, prune_fresh (generate_key_created hk)]

theorem record_rotation_suffix (h : History) (now : Int) (draw : KeyDraw) :
    h.entered <:+ (recordRotation h now draw).entered := by
  unfold recordRotation
  split
  · exact List.suffix_rfl
  · exact List.suffix_cons _ _

theorem record_encryption_suffix (h : History) (now : Int) (draw : KeyDraw) :
    h.entered <:+ (recordEncryption h now draw).entered := by
  unfold recordEncryption
  split
  · exact List.suffix_rfl
  · split
    · exact List.suffix_rfl
    · exact record_rotation_suffix h now draw

/-- The history only grows, and only in front. -/
theorem record_suffix (h : History) (c : Call) : h.entered <:+ (record h c).entered := by
  cases c with
  | ensureInitialized amb =>
      simp only [record]
      split
      · exact List.suffix_cons _ _
      · exact List.suffix_rfl
  | rotateNow amb => exact record_rotation_suffix h _ _
  | handle keyName iv enc amb =>
      simp only [record]
      split
      · exact List.suffix_rfl
      · rename_i k _ _
        have henter := List.suffix_cons k h.entered
        split
        · exact henter.trans (record_encryption_suffix (h.enter k) _ _)
        · exact henter
      · split
        · exact record_encryption_suffix h _ _
        · exact List.suffix_rfl

/-! ## Whole runs -/

theorem run_append (calls : List Call) (c : Call) :
    run (calls ++ [c]) = ((run calls).step c).2 :=
  ProofLib.runFrom_append _ calls [c]

theorem history_append (calls : List Call) (c : Call) :
    history (calls ++ [c]) = record (history calls) c :=
  ProofLib.runFrom_append _ calls [c]

/-- Later operations only add to the history. -/
theorem history_suffix (calls more : List Call) :
    (history calls).entered <:+ (history (calls ++ more)).entered := by
  induction more using List.reverseRecOn with
  | nil => simp
  | append_singleton more c ih =>
      rw [← List.append_assoc, history_append]
      exact ih.trans (record_suffix _ c)

/-- A part of a run is a run on the same clock. -/
theorem Timed.prefix {calls more : List Call} (h : Timed (calls ++ more)) : Timed calls :=
  ⟨fun c hc => h.1 c (List.mem_append_left more hc), (List.pairwise_append.mp h.2).1⟩

/-- At every time not before the end of the run the store holds what its history has left. -/
theorem tracks_run {calls : List Call} (htimed : Timed calls) {t : Int}
    (ht : ∀ c ∈ calls, c.ambient.later ≤ t) : Tracks (run calls) (history calls) t := by
  induction calls using List.reverseRecOn generalizing t with
  | nil => exact Tracks.init t
  | append_singleton calls c ih =>
      have hbefore : ∀ d ∈ calls, d.ambient.later ≤ c.ambient.now := by
        intro d hd
        exact (List.pairwise_append.mp htimed.2).2.2 d hd c List.mem_cons_self
      have hprior := ih htimed.prefix hbefore
      rw [run_append, history_append]
      have hstep := tracks_step c hprior le_rfl (htimed.1 c (by simp))
      exact hstep.mono (ht c (by simp))

/-- Before an operation of a run the store holds what its history has left. -/
theorem tracks_before {calls : List Call} {c : Call} {rest : List Call}
    (htimed : Timed (calls ++ c :: rest)) :
    Tracks (run calls) (history calls) c.ambient.now := by
  refine tracks_run htimed.prefix ?_
  intro d hd
  exact (List.pairwise_append.mp htimed.2).2.2 d hd c List.mem_cons_self

/-- After an operation of a run the store holds what its history has left. -/
theorem tracks_after {calls : List Call} {c : Call} {rest : List Call}
    (htimed : Timed (calls ++ c :: rest)) :
    Tracks (run (calls ++ [c])) (history (calls ++ [c])) c.ambient.later := by
  rw [run_append, history_append]
  exact tracks_step c (tracks_before htimed) le_rfl (htimed.1 c (by simp))

end Brazier.TicketKeyStore
