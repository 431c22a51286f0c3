import Brazier.Database.Methods
import Brazier.ProofLib.Runs
import Mathlib.Data.List.Forall2

/-!
# What a returning commit means

From `transaction("")` on, the caller counts on the statements of the calls that returned, less
those that a named rollback undid. `Within` relates this work, itself kept as a block, to the
block of the server. It survives every call that does not lose the block, and then a `commit` that
returns has committed the work as one transaction.
-/

namespace Brazier

/-- Everything in the first block is in the second, at the same savepoints. -/
structure Block.Within (work b : Block) : Prop where
  pending : work.pending.Sublist b.pending
  savepoints : List.Forall₂ (fun x y => x.name = y.name ∧ x.before.Sublist y.before)
    work.savepoints b.savepoints

/-- Related lists stay related without their first items, as long as the same are dropped. -/
theorem forall₂_dropWhile {α β : Type} {R : α → β → Prop} {p : α → Bool} {q : β → Bool}
    (hpq : ∀ x y, R x y → p x = q y) {xs : List α} {ys : List β} (h : List.Forall₂ R xs ys) :
    List.Forall₂ R (xs.dropWhile p) (ys.dropWhile q) := by
  induction h with
  | nil => exact List.Forall₂.nil
  | cons hxy hrest ih =>
      rename_i x y xs ys
      cases hq : q y with
      | true => simpa [List.dropWhile, hpq x y hxy, hq] using ih
      | false => simpa [List.dropWhile, hpq x y hxy, hq] using ⟨hxy, hrest⟩

namespace Block.Within

variable {work b : Block}

/-- Both blocks have the savepoints of a name at the same place. -/
theorem find (h : work.Within b) (name : Text) :
    List.Forall₂ (fun x y => x.name = y.name ∧ x.before.Sublist y.before)
      (work.find name) (b.find name) := by
  refine forall₂_dropWhile ?_ h.savepoints
  intro x y hxy
  rw [hxy.1]

/-- A statement of which the caller does not know may be done. -/
theorem statement_right (h : work.Within b) (sql : Text) :
    work.Within (b.apply (.statement sql)) where
  pending := h.pending.trans (List.sublist_append_left _ _)
  savepoints := h.savepoints

/-- Both blocks may apply a command. -/
theorem apply (h : work.Within b) (cmd : Command) : (work.apply cmd).Within (b.apply cmd) := by
  cases cmd with
  | statement sql => exact ⟨h.pending.append (List.Sublist.refl _), h.savepoints⟩
  | savepoint name => exact ⟨h.pending, List.Forall₂.cons ⟨rfl, h.pending⟩ h.savepoints⟩
  | rollbackTo name =>
      have hfind := h.find name
      rw [Block.apply_rollback_to, Block.apply_rollback_to]
      cases hw : work.find name with
      | nil =>
          rw [hw] at hfind
          rw [List.forall₂_nil_left_iff.mp hfind]
          exact h
      | cons x older =>
          rw [hw] at hfind
          obtain ⟨y, olderY, hxy, holder, hy⟩ := List.forall₂_cons_left_iff.mp hfind
          rw [hy]
          exact ⟨hxy.2, List.Forall₂.cons hxy holder⟩
  | _ => exact h

end Block.Within

namespace Database

variable {pqEscapeLiteral : Text → Option Text}

/-- What the caller adds to its work after a call: a call that returned did what it is for. A
rollback that sends nothing undoes nothing. -/
def note (pqEscapeLiteral : Text → Option Text) (db : Database) (work : Block) (c : Call) :
    Block :=
  if db.sends c && (perform pqEscapeLiteral db c).1.isOk then
    work.apply (c.command pqEscapeLiteral)
  else work

/-- A call, with the work of the caller alongside. -/
def observe (pqEscapeLiteral : Text → Option Text) (s : Database × Block) (c : Call) :
    Database × Block :=
  (after pqEscapeLiteral s.1 c, note pqEscapeLiteral s.1 s.2 c)

/-- The statements that returned and were not undone by a named rollback. -/
def survivors (pqEscapeLiteral : Text → Option Text) (db : Database) (calls : List Call) :
    List Text :=
  (ProofLib.runFrom (observe pqEscapeLiteral) (db, ⟨[], []⟩) calls).2.pending

/-- The connection after a list of calls. -/
def reached (pqEscapeLiteral : Text → Option Text) (db : Database) (calls : List Call) :
    Database :=
  ProofLib.runFrom (after pqEscapeLiteral) db calls

/-- If `commit` returns after the calls, the survivors of the calls are in one of the transactions
committed since. -/
def CommitTellsTruth (pqEscapeLiteral : Text → Option Text) (db : Database)
    (calls : List Call) : Prop :=
  (reached pqEscapeLiteral db calls).commit.1.isOk = true →
    ∃ tx ∈ (reached pqEscapeLiteral db calls).commit.2.server.committed.drop
        db.server.committed.length,
      (survivors pqEscapeLiteral db calls).Sublist tx

/-- A call that does not end the transaction block: no failing `execute`, no `rollback("")` and no
`commit`. -/
def KeepsBlock (db : Database) : Call → Prop
  | .execute sql => db.inTransaction = true → db.accepts (.statement sql) = true
  | .rollback [] => db.inTransaction = false
  | .commit => False
  | _ => True

instance (db : Database) : DecidablePred (KeepsBlock db)
  | .execute _ => inferInstanceAs (Decidable (_ → _))
  | .rollback [] => inferInstanceAs (Decidable (_ = _))
  | .commit => isFalse not_false
  | .rollback (_ :: _) | .transaction _ | .query _ | .queryMap _ _ | .queryToVector _ _ =>
      isTrue trivial

/-- The calls after `transaction("")` keep the block it opens, and leave it unaborted. -/
structure Undisturbed (pqEscapeLiteral : Text → Option Text) (db : Database)
    (calls : List Call) : Prop where
  idle : db.server.session = .idle
  begins : db.accepts .begin = true
  keeps : ProofLib.Throughout (after pqEscapeLiteral) KeepsBlock
    (after pqEscapeLiteral db (.transaction [])) calls
  sound : (reached pqEscapeLiteral db (.transaction [] :: calls)).server.session.isAborted = false

/-- The transactions committed are the given ones, and the work is in the open block. -/
structure Holding (committed : List (List Text)) (s : Database × Block) : Prop where
  committed : s.1.server.committed = committed
  block : ∃ b, s.1.server.session.block = some b ∧ s.2.Within b

/-- A call that keeps the block and is sent does not end the block. -/
theorem ends_block_of_keeps {db : Database} {c : Call} (hkeep : KeepsBlock db c)
    (hsends : db.sends c = true) : (c.command pqEscapeLiteral).endsBlock = false := by
  cases c with
  | transaction name => cases name <;> rfl
  | rollback name =>
      cases name with
      | nil => cases hsends.symm.trans hkeep
      | cons head rest => rfl
  | commit => exact hkeep.elim
  | _ => rfl

/-- A call that keeps the block is not followed by a `ROLLBACK`. -/
theorem rolls_back_of_keeps {db : Database} {c : Call} (hkeep : KeepsBlock db c) :
    db.rollsBack c = false := by
  cases c with
  | execute sql =>
      cases hflag : db.inTransaction with
      | false => simp [rollsBack, hflag]
      | true => simp [rollsBack, hkeep hflag]
  | _ => rfl

/-- The work of a call that is sent stays in the block that the call leaves. -/
theorem within_note {db : Database} {c : Call} {work b : Block} (h : work.Within b)
    (hsends : db.sends c = true) :
    (note pqEscapeLiteral db work c).Within
      (if db.accepts (c.command pqEscapeLiteral) then b.apply (c.command pqEscapeLiteral)
        else b) := by
  unfold note
  rw [hsends, Bool.true_and]
  cases hok : (perform pqEscapeLiteral db c).1.isOk with
  | true =>
      rw [accepts_of_returned hsends hok]
      exact h.apply _
  | false =>
      cases hacc : db.accepts (c.command pqEscapeLiteral) with
      | false => exact h
      | true =>
          -- accepted, and yet the call threw: a query whose statement returns no rows
          cases hcmd : c.command pqEscapeLiteral with
          | statement sql => exact h.statement_right sql
          | _ =>
              have hreturned := returned_of_accepts hsends (by rw [hcmd]; rfl) hacc
              cases hreturned.symm.trans hok

/-- One call: the work stays in the block. -/
theorem holding_observe {committed : List (List Text)} {s : Database × Block} {c : Call}
    (h : Holding committed s) (hkeep : KeepsBlock s.1 c) :
    Holding committed (observe pqEscapeLiteral s c) := by
  obtain ⟨hcommitted, b, hb, hwithin⟩ := h
  have hback := rolls_back_of_keeps hkeep
  cases hsends : s.1.sends c with
  | false =>
      have hserver : (after pqEscapeLiteral s.1 c).server = s.1.server := by
        simp [server_after, hback, hsends]
      have hnote : note pqEscapeLiteral s.1 s.2 c = s.2 := by simp [note, hsends]
      refine ⟨?_, b, ?_, ?_⟩
      · simpa [observe, hserver] using hcommitted
      · simpa [observe, hserver] using hb
      · simpa [observe, hnote] using hwithin
  | true =>
      have hcmd : (c.command pqEscapeLiteral).endsBlock = false :=
        ends_block_of_keeps hkeep hsends
      have hserver : (after pqEscapeLiteral s.1 c).server =
          (s.1.pqExec (c.command pqEscapeLiteral)).2.server := by
        simp [server_after, hback, hsends]
      refine ⟨?_, _, ?_, within_note hwithin hsends⟩
      · simpa [observe, hserver, committed_in_block hb hcmd] using hcommitted
      · rw [observe, hserver]
        exact Session.exec_block hb hcmd s.1.nextAnswer

/-- The block that `transaction("")` opens holds the work of the caller: none. -/
theorem holding_begin {db : Database} (hidle : db.server.session = .idle)
    (hbegins : db.accepts .begin = true) :
    Holding db.server.committed
      (observe pqEscapeLiteral (db, ⟨[], []⟩) (.transaction [])) := by
  have hserver : (after pqEscapeLiteral db (.transaction [])).server =
      (db.pqExec .begin).2.server := by
    simp [server_after, rollsBack, sends, Call.command]
  have hans : db.nextAnswer.accepts = true := by
    simpa [accepts, hidle, Session.allows] using hbegins
  refine ⟨?_, ⟨[], []⟩, ?_, ?_⟩
  · simp [observe, hserver, committed_pq_exec, Session.exec_commits, hidle, Session.commits]
  · simp [observe, hserver, session_pq_exec, hidle, Session.exec_idle_block, hans]
  · have hnote : note pqEscapeLiteral db ⟨[], []⟩ (.transaction []) = ⟨[], []⟩ := by
      simp [note, Call.command, Block.apply]
    simp only [observe, hnote]
    exact ⟨List.Sublist.refl _, List.Forall₂.nil⟩

/-- Keeping the work does not change what the calls do. -/
theorem observe_fst (db : Database) (work : Block) (calls : List Call) :
    (ProofLib.runFrom (observe pqEscapeLiteral) (db, work) calls).1 =
      reached pqEscapeLiteral db calls :=
  ProofLib.runFrom_fst (fun _ _ => rfl) (db, work) calls

/-- After undisturbed calls the work is still in the block. -/
theorem holding_run {db : Database} {calls : List Call}
    (h : Undisturbed pqEscapeLiteral db calls) :
    Holding db.server.committed (ProofLib.runFrom (observe pqEscapeLiteral) (db, ⟨[], []⟩)
      (.transaction [] :: calls)) := by
  have hkeeps : ProofLib.Throughout (observe pqEscapeLiteral) (fun s c => KeepsBlock s.1 c)
      (observe pqEscapeLiteral (db, ⟨[], []⟩) (.transaction [])) calls :=
    ProofLib.throughout_fst (fun _ _ => rfl) h.keeps
  exact hkeeps.invariant (holding_begin h.idle h.begins)
    (fun _ _ hs hkeep => holding_observe hs hkeep)

/-- `COMMIT` in an unaborted block commits the block. -/
theorem committed_commit {db : Database} {b : Block} (hs : db.server.session = .inTransaction b)
    (hok : db.commit.1.isOk = true) :
    db.commit.2.server.committed = db.server.committed ++ [b.pending] := by
  have hans : db.nextAnswer.accepts = true := by
    simpa [commit_spec, accepts, hs, Session.allows] using hok
  simp [commit_spec, committed_pq_exec, Session.exec_commits, hs, hans, Session.commits]

/-- In every run of calls that `transaction("")` begins and nothing disturbs, a `commit` that
returns has committed every surviving statement, all in one transaction. -/
theorem commit_tells_truth (pqEscapeLiteral : Text → Option Text) (db : Database)
    (calls : List Call) (h : Undisturbed pqEscapeLiteral db calls) :
    CommitTellsTruth pqEscapeLiteral db (.transaction [] :: calls) := by
  intro hok
  obtain ⟨hcommitted, b, hb, hwithin⟩ := holding_run h
  rw [observe_fst] at hcommitted hb
  have hsession : (reached pqEscapeLiteral db (.transaction [] :: calls)).server.session =
      .inTransaction b := by
    cases hs : (reached pqEscapeLiteral db (.transaction [] :: calls)).server.session with
    | idle => simp [hs, Session.block] at hb
    | inTransaction b' => simpa [hs, Session.block] using hb
    | aborted b' =>
        have hsound := h.sound
        simp [hs, Session.isAborted] at hsound
  refine ⟨b.pending, ?_, hwithin.pending⟩
  rw [committed_commit hsession hok, hcommitted]
  simp

/-- A transfer whose failing query is undone by a named rollback. -/
def transfer : List Call :=
  [.execute "UPDATE accounts SET sum = 1", .transaction "sp", .queryMap "SELECT sum" [],
    .rollback "sp", .execute "UPDATE accounts SET sum = 2"]

/-- Both statements of the transfer are committed together. -/
theorem transfer_committed :
    CommitTellsTruth quoteLiteral
      (connect [] [.commandOk, .commandOk, .commandOk, .error "no such column"])
      (.transaction "" :: transfer) :=
  commit_tells_truth quoteLiteral _ transfer ⟨by decide, by decide, by decide, by decide⟩

/-- Without a savepoint: the second statement fails, `execute` rolls back, and `commit` returns
with nothing committed. -/
theorem transfer_lost :
    ¬ CommitTellsTruth quoteLiteral (connect [] [.commandOk, .commandOk, .error "check"])
      [.transaction "", .execute "UPDATE accounts SET sum = 1",
        .execute "UPDATE accounts SET sum = 2"] := by
  intro h
  obtain ⟨tx, htx, -⟩ := h (by decide)
  exact absurd htx (List.not_mem_nil)

end Database

end Brazier
