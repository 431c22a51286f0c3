import Brazier.Database.Methods
import Brazier.ProofLib.Runs

/-!
# The transaction flag

`isInTransaction` is to tell whether the server session is in a transaction. Each call keeps
this exactly when `KeepsFlag` holds of it, so a run of calls keeps it exactly when `KeepsFlag`
holds throughout.
-/

namespace Brazier

namespace Database

variable {pqEscapeLiteral : Text → Option Text}

/-- The flag is set exactly when the session is not idle. -/
def Mirrors (db : Database) : Prop :=
  db.isInTransaction = true ↔ db.server.session ≠ .idle

instance : DecidablePred Mirrors := fun _ => inferInstanceAs (Decidable (_ ↔ _))

/-- None of the three calls that leave the flag wrong: a refused `BEGIN` of a new transaction, a
refused or impossible return to a savepoint, and a refused `COMMIT` of a transaction. -/
def KeepsFlag (db : Database) : Call → Prop
  | .transaction [] => db.server.session = .idle → db.accepts .begin = true
  | .rollback (c :: rest) =>
      db.server.session ≠ .idle → db.accepts (.rollbackTo (c :: rest)) = true
  | .commit => db.server.session ≠ .idle → db.accepts .commit = true
  | _ => True

/-- Outside of a block a session is idle after a command, unless that is an accepted `BEGIN`. -/
theorem session_idle_of_idle {db : Database} (h : db.server.session = .idle) (cmd : Command) :
    (db.pqExec cmd).2.server.session = .idle ↔ (cmd = .begin → db.accepts cmd = false) := by
  rw [session_pq_exec, ← Session.block_eq_none_iff, h, Session.exec_idle_block]
  by_cases hcmd : cmd = .begin
  · subst hcmd
    cases hans : db.nextAnswer.accepts <;> simp [accepts, h, hans, Session.allows]
  · simp [hcmd]

/-- After `COMMIT` and `ROLLBACK` the session is idle. -/
theorem session_pq_exec_ends (db : Database) (cmd : Command) (hcmd : cmd.endsBlock = true) :
    (db.pqExec cmd).2.server.session = .idle :=
  db.server.session.exec_ends cmd hcmd db.nextAnswer

/-- Inside a block a session is idle only after a command that ends the block. -/
theorem session_idle_of_block {db : Database} (h : db.server.session ≠ .idle) (cmd : Command) :
    (db.pqExec cmd).2.server.session = .idle ↔ cmd.endsBlock = true := by
  rw [session_pq_exec]
  cases hcmd : cmd.endsBlock with
  | true => simp [Session.exec_ends _ cmd hcmd]
  | false =>
      cases hb : db.server.session.block with
      | none => exact absurd ((Session.block_eq_none_iff _).mp hb) h
      | some b => rw [← Session.block_eq_none_iff, Session.exec_block hb hcmd]; simp

/-- After a call in an idle session, the session is idle unless the call began a block. -/
theorem session_after_idle {db : Database} (h : db.server.session = .idle) (c : Call) :
    (after pqEscapeLiteral db c).server.session = .idle ↔
      (c.command pqEscapeLiteral = .begin → db.accepts .begin = false) := by
  rw [server_after]
  cases hback : db.rollsBack c with
  | true =>
      have hidle := session_pq_exec_ends (db.pqExec (c.command pqEscapeLiteral)).2 .rollback rfl
      cases c <;> simp_all [rollsBack, Call.command]
  | false =>
      cases hsends : db.sends c with
      | true =>
          simp only [Bool.false_eq_true, if_false, if_true, session_idle_of_idle h]
          exact forall_congr' (fun hcmd => by rw [hcmd])
      | false =>
          simp only [Bool.false_eq_true, if_false, h, true_iff]
          intro hcmd
          cases c with
          | transaction name => cases name <;> simp_all [sends, Call.command]
          | rollback name => cases name <;> simp_all [Call.command]
          | _ => simp_all [Call.command]

/-- After a call in a block, the session is idle when the call ended the block. -/
theorem session_after_block {db : Database} (h : db.server.session ≠ .idle) (c : Call) :
    (after pqEscapeLiteral db c).server.session = .idle ↔
      db.rollsBack c = true ∨
        db.sends c = true ∧ (c.command pqEscapeLiteral).endsBlock = true := by
  rw [server_after]
  cases hback : db.rollsBack c with
  | true => simp [session_pq_exec_ends _ .rollback rfl]
  | false =>
      cases hsends : db.sends c with
      | true => simp [session_idle_of_block h]
      | false => simp [h]

/-- One call: the flag stays right exactly when `KeepsFlag` holds. -/
theorem mirrors_after_iff {db : Database} (hm : Mirrors db) (c : Call) :
    Mirrors (after pqEscapeLiteral db c) ↔ KeepsFlag db c := by
  unfold Mirrors isInTransaction at hm ⊢
  rw [flag_after]
  by_cases hidle : db.server.session = .idle
  · have hflag : db.inTransaction = false := by simpa [hidle] using hm
    rw [ne_eq, session_after_idle hidle]
    cases c with
    | transaction name => cases name <;> simp [hidle, hflag, KeepsFlag, Call.command]
    | rollback name => cases name <;> simp [hidle, hflag, KeepsFlag, Call.command]
    | _ => simp [hidle, hflag, KeepsFlag, Call.command]
  · have hflag : db.inTransaction = true := hm.mpr hidle
    rw [ne_eq, session_after_block hidle]
    cases c with
    | transaction name =>
        cases name <;>
          simp [hidle, hflag, KeepsFlag, Call.command, rollsBack, Command.endsBlock]
    | rollback name =>
        cases name <;>
          simp [hidle, hflag, KeepsFlag, Call.command, rollsBack, sends, Command.endsBlock]
    | execute sql =>
        simp [hflag, KeepsFlag, Call.command, rollsBack, Command.endsBlock]
    | _ => simp [hidle, hflag, KeepsFlag, Call.command, rollsBack, sends, Command.endsBlock]

/-- In every run of a connection, the flag tells after each call whether the session is in a
transaction exactly when no call is one of the three that leave it wrong. -/
theorem flag_mirrors_session_iff (pqEscapeLiteral : Text → Option Text)
    (committed : List (List Text)) (answers : List Answer) (calls : List Call) :
    ProofLib.Throughout (after pqEscapeLiteral)
        (fun db c => Mirrors (after pqEscapeLiteral db c)) (connect committed answers) calls ↔
      ProofLib.Throughout (after pqEscapeLiteral) KeepsFlag (connect committed answers) calls := by
  have hstart : Mirrors (connect committed answers) := by
    simp [Mirrors, connect, isInTransaction]
  have hstep : ∀ db c, Mirrors db →
      (Mirrors (after pqEscapeLiteral db c) ↔ KeepsFlag db c) :=
    fun _ c hm => mirrors_after_iff hm c
  exact ProofLib.throughout_post_iff hstart hstep calls

/-- A misspelt savepoint: the flag is cleared and the transaction stays open, aborted. -/
theorem flag_lost_by_rollback :
    ¬ ProofLib.Throughout (after quoteLiteral) (fun db c => Mirrors (after quoteLiteral db c))
      (connect [] []) [.transaction "", .rollback "sp"] := by
  decide

end Database

end Brazier
