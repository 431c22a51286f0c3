import Brazier.Database.Database

/-!
# What each method does

For every method of `Database`: when it returns, and the connection afterwards, in terms of the
command it sends and of whether that command is accepted.
-/

namespace Brazier

namespace Database

/-- The command a call is for. -/
def Call.command (pqEscapeLiteral : Text → Option Text) : Call → Command
  | .transaction [] => .begin
  | .transaction name => .savepoint name
  | .execute sql => .statement sql
  | .query sql => .statement sql
  | .queryMap sqlTemplate params => .statement (substitute pqEscapeLiteral sqlTemplate params)
  | .queryToVector sqlTemplate params =>
      .statement (substitute pqEscapeLiteral sqlTemplate params)
  | .rollback [] => .rollback
  | .rollback name => .rollbackTo name
  | .commit => .commit

/-- The call gets as far as sending its command. -/
def sends (db : Database) : Call → Bool
  | .transaction (_ :: _) => db.inTransaction
  | .rollback _ => db.inTransaction
  | .queryMap sqlTemplate params => sqlTemplate.count '?' = params.length
  | .queryToVector sqlTemplate params => sqlTemplate.count '?' = params.length
  | _ => true

/-- The session allows the command and the server accepts it. -/
def accepts (db : Database) (cmd : Command) : Bool :=
  db.server.session.allows cmd && db.nextAnswer.accepts

/-- The call is an `execute` that fails inside a transaction. -/
def rollsBack (db : Database) : Call → Bool
  | .execute sql => db.inTransaction && !db.accepts (.statement sql)
  | _ => false

variable {pqEscapeLiteral : Text → Option Text}

@[simp] theorem pq_exec_flag (db : Database) (cmd : Command) :
    (db.pqExec cmd).2.inTransaction = db.inTransaction := rfl

/-- `PQexec` adds the command to those received. -/
theorem received_pq_exec (db : Database) (cmd : Command) :
    (db.pqExec cmd).2.server.received = db.server.received ++ [cmd] := rfl

/-- `PQexec` moves the session. -/
theorem session_pq_exec (db : Database) (cmd : Command) :
    (db.pqExec cmd).2.server.session = (db.server.session.exec cmd db.nextAnswer).1 := rfl

/-- `PQexec` adds what the command commits. -/
theorem committed_pq_exec (db : Database) (cmd : Command) :
    (db.pqExec cmd).2.server.committed =
      db.server.committed ++ (db.server.session.exec cmd db.nextAnswer).2.1 := rfl

/-- The status of a command tells whether it was accepted. -/
theorem pq_exec_ok (db : Database) (cmd : Command) :
    (db.pqExec cmd).1.isOk = db.accepts cmd :=
  db.server.session.exec_ok cmd db.nextAnswer

/-- A command other than a statement is accepted or fails. -/
theorem pq_exec_status (db : Database) (cmd : Command) (hcmd : cmd.isStatement = false) :
    (db.accepts cmd = true ∧ (db.pqExec cmd).1 = .commandOk) ∨
      (db.accepts cmd = false ∧ ∃ e, (db.pqExec cmd).1 = .fatalError e) := by
  have hok := db.pq_exec_ok cmd
  have hstatus : (db.pqExec cmd).1 = .commandOk ∨ (db.pqExec cmd).1.isOk = false :=
    db.server.session.exec_status cmd hcmd db.nextAnswer
  cases h : (db.pqExec cmd).1 with
  | commandOk => exact Or.inl ⟨by simpa [h, ExecStatus.isOk] using hok.symm, rfl⟩
  | tuplesOk rows => simp [h, ExecStatus.isOk] at hstatus
  | fatalError e => exact Or.inr ⟨by simpa [h, ExecStatus.isOk] using hok.symm, e, rfl⟩

/-- In a block, a command that does not end it commits nothing. -/
theorem committed_in_block {db : Database} {b : Block} (hb : db.server.session.block = some b)
    {cmd : Command} (hcmd : cmd.endsBlock = false) :
    (db.pqExec cmd).2.server.committed = db.server.committed := by
  have hcommits : db.server.session.commits cmd = [] := by
    cases hs : db.server.session with
    | idle => simp [hs, Session.block] at hb
    | inTransaction b' => cases cmd <;> cases hcmd <;> rfl
    | aborted b' => rfl
  rw [committed_pq_exec, Session.exec_commits, hcommits]
  simp

/-- A refused command commits nothing. -/
theorem committed_of_refused {db : Database} (hans : db.nextAnswer.accepts = false)
    (cmd : Command) : (db.pqExec cmd).2.server.committed = db.server.committed := by
  rw [committed_pq_exec, Session.exec_commits, hans]
  simp

/-- `ROLLBACK` commits nothing. -/
theorem committed_rollback (db : Database) :
    (db.pqExec .rollback).2.server.committed = db.server.committed := by
  rw [committed_pq_exec, Session.exec_commits]
  cases db.server.session <;> simp [Session.commits]

/-- `ROLLBACK TO SAVEPOINT` commits nothing. -/
theorem committed_rollback_to (db : Database) (name : Text) :
    (db.pqExec (.rollbackTo name)).2.server.committed = db.server.committed := by
  rw [committed_pq_exec, Session.exec_commits]
  cases db.server.session <;> simp [Session.commits]

/-! ## The methods -/

/-- `start` returns when its command is accepted. -/
theorem start_spec (db : Database) {cmd : Command} (hcmd : cmd.isStatement = false) :
    (db.start cmd).1.isOk = db.accepts cmd ∧ (db.start cmd).2 = (db.pqExec cmd).2 := by
  unfold start
  have hstatus := db.pq_exec_status cmd hcmd
  cases hexec : db.pqExec cmd with
  | mk status db' =>
      rw [hexec] at hstatus
      rcases hstatus with ⟨hacc, rfl⟩ | ⟨hacc, e, rfl⟩
      · simp [hacc, Except.isOk, Except.toBool]
      · simp [hacc, Except.isOk, Except.toBool]

/-- `commit` returns when `COMMIT` is accepted, and clears the flag then. -/
theorem commit_spec (db : Database) :
    db.commit.1.isOk = db.accepts .commit ∧
      db.commit.2 = { (db.pqExec .commit).2 with
        inTransaction := db.inTransaction && !db.accepts .commit } := by
  unfold commit
  have hflag := db.pq_exec_flag .commit
  have hstatus := db.pq_exec_status .commit rfl
  cases hexec : db.pqExec .commit with
  | mk status db' =>
      rw [hexec] at hflag hstatus
      rcases hstatus with ⟨hacc, rfl⟩ | ⟨hacc, e, rfl⟩
      · simp [hacc, Except.isOk, Except.toBool]
      · simp [hacc, ← hflag, Except.isOk, Except.toBool]

/-- `fetch` hands the connection over as `PQexec` leaves it, and returns only if the statement
was accepted. -/
theorem fetch_spec (db : Database) (sql : Text) :
    ((db.fetch sql).1.isOk = true → db.accepts (.statement sql) = true) ∧
      (db.fetch sql).2 = (db.pqExec (.statement sql)).2 := by
  unfold fetch
  have hok := db.pq_exec_ok (.statement sql)
  cases hexec : db.pqExec (.statement sql) with
  | mk status db' =>
      cases status <;> simp_all [Except.isOk, Except.toBool, ExecStatus.isOk]

/-- `transaction` without a name sets the flag and sends `BEGIN`. -/
theorem transaction_begin_spec (db : Database) :
    (db.transaction []).1.isOk = db.accepts .begin ∧
      (db.transaction []).2 = { (db.pqExec .begin).2 with inTransaction := true } :=
  start_spec { db with inTransaction := true } rfl

/-- `transaction` with a name needs the flag, and sends `SAVEPOINT`. -/
theorem transaction_savepoint_spec (db : Database) {name : Text} (hname : name ≠ []) :
    (db.transaction name).1.isOk = (db.inTransaction && db.accepts (.savepoint name)) ∧
      (db.transaction name).2 =
        if db.inTransaction then (db.pqExec (.savepoint name)).2 else db := by
  obtain ⟨c, rest, rfl⟩ := List.exists_cons_of_ne_nil hname
  unfold transaction
  cases hflag : db.inTransaction with
  | false => simp [Except.isOk, Except.toBool]
  | true => simpa using db.start_spec rfl

/-- `rollback` without the flag does nothing. -/
theorem rollback_noop (db : Database) (name : Text) (hflag : db.inTransaction = false) :
    db.rollback name = (.ok (), db) := by
  simp [rollback, hflag]

/-- `rollback` without a name clears the flag and sends `ROLLBACK`. -/
theorem rollback_all_spec (db : Database) (hflag : db.inTransaction = true) :
    (db.rollback []).1.isOk = db.accepts .rollback ∧
      (db.rollback []).2 = { (db.pqExec .rollback).2 with inTransaction := false } := by
  have hstatus := pq_exec_status { db with inTransaction := false } .rollback rfl
  have haccepts : accepts { db with inTransaction := false } .rollback = db.accepts .rollback :=
    rfl
  have hserver : (pqExec { db with inTransaction := false } .rollback).2 =
      { (db.pqExec .rollback).2 with inTransaction := false } := rfl
  rw [← hserver]
  simp only [rollback, hflag, if_true]
  cases hexec : pqExec { db with inTransaction := false } .rollback with
  | mk status db' =>
      have hflag' : db'.inTransaction = false := by
        have := pq_exec_flag { db with inTransaction := false } .rollback
        rwa [hexec] at this
      rw [hexec] at hstatus
      rw [← haccepts]
      rcases hstatus with ⟨hacc, rfl⟩ | ⟨hacc, e, rfl⟩
      · simp [hacc, Except.isOk, Except.toBool]
      · refine ⟨by simp [hacc, Except.isOk, Except.toBool], ?_⟩
        simp [← hflag']

/-- `rollback` with a name sends `ROLLBACK TO SAVEPOINT`, and a failure clears the flag. -/
theorem rollback_to_spec (db : Database) (hflag : db.inTransaction = true) {name : Text}
    (hname : name ≠ []) :
    (db.rollback name).1.isOk = db.accepts (.rollbackTo name) ∧
      (db.rollback name).2 = { (db.pqExec (.rollbackTo name)).2 with
        inTransaction := db.accepts (.rollbackTo name) } := by
  obtain ⟨c, rest, rfl⟩ := List.exists_cons_of_ne_nil hname
  have hstatus := db.pq_exec_status (.rollbackTo (c :: rest)) rfl
  simp only [rollback, hflag, if_true]
  cases hexec : db.pqExec (.rollbackTo (c :: rest)) with
  | mk status db' =>
      rw [hexec] at hstatus
      rcases hstatus with ⟨hacc, rfl⟩ | ⟨hacc, e, rfl⟩
      · simp [hacc, Except.isOk, Except.toBool]
      · simp [hacc, Except.isOk, Except.toBool]

/-- `execute` returns when its statement is accepted. Otherwise a set flag is cleared and
`ROLLBACK` sent. -/
theorem execute_spec (db : Database) (sql : Text) :
    (db.execute sql).1.isOk = db.accepts (.statement sql) ∧
      (db.execute sql).2 =
        if db.inTransaction && !db.accepts (.statement sql) then
          { ((db.pqExec (.statement sql)).2.pqExec .rollback).2 with inTransaction := false }
        else (db.pqExec (.statement sql)).2 := by
  unfold execute
  have hok := db.pq_exec_ok (.statement sql)
  have hflag := db.pq_exec_flag (.statement sql)
  cases hexec : db.pqExec (.statement sql) with
  | mk status db' =>
      rw [hexec] at hok hflag
      cases status with
      | fatalError e =>
          have hacc : db.accepts (.statement sql) = false := by
            simpa [ExecStatus.isOk] using hok.symm
          have hin : db'.inTransaction = db.inTransaction := hflag
          cases hdb : db.inTransaction <;>
            simp [hacc, hin, hdb, Except.isOk, Except.toBool]
      | _ =>
          have hacc : db.accepts (.statement sql) = true := by
            simpa [ExecStatus.isOk] using hok.symm
          simp [hacc, Except.isOk, Except.toBool]

/-- The parametrised queries fetch the substituted template, if the parameters are as many as the
placeholders. -/
theorem fetch_template_spec (db : Database) (sqlTemplate : Text) (params : List Text) :
    ((fetchTemplate pqEscapeLiteral db sqlTemplate params).1.isOk = true →
      sqlTemplate.count '?' = params.length ∧
        db.accepts (.statement (substitute pqEscapeLiteral sqlTemplate params)) = true) ∧
      (fetchTemplate pqEscapeLiteral db sqlTemplate params).2 =
        if sqlTemplate.count '?' = params.length then
          (db.pqExec (.statement (substitute pqEscapeLiteral sqlTemplate params))).2
        else db := by
  unfold fetchTemplate
  split
  · rename_i hcount
    have hspec := db.fetch_spec (substitute pqEscapeLiteral sqlTemplate params)
    exact ⟨fun h => ⟨hcount, hspec.1 h⟩, hspec.2⟩
  · simp [Except.isOk, Except.toBool]

/-! ## All calls alike -/

/-- The result of `Except.map` is a value when the argument is one. -/
theorem is_ok_map {ε α β : Type} (f : α → β) (result : Except ε α) :
    (result.map f).isOk = result.isOk := by
  cases result <;> rfl

/-- The server after a call: nothing is sent, or the call's command, or that and `ROLLBACK`. -/
theorem server_after (db : Database) (c : Call) :
    (after pqEscapeLiteral db c).server =
      if db.rollsBack c then
        ((db.pqExec (c.command pqEscapeLiteral)).2.pqExec .rollback).2.server
      else if db.sends c then (db.pqExec (c.command pqEscapeLiteral)).2.server
      else db.server := by
  cases c with
  | transaction name =>
      cases name with
      | nil => simp [after, perform, transaction_begin_spec, rollsBack, sends, Call.command]
      | cons head rest =>
          have hname : head :: rest ≠ [] := List.cons_ne_nil head rest
          cases hflag : db.inTransaction <;>
            simp [after, perform, transaction_savepoint_spec, hname, hflag, rollsBack, sends,
              Call.command]
  | execute sql =>
      cases hflag : db.inTransaction <;> cases hacc : db.accepts (.statement sql) <;>
        simp [after, perform, execute_spec, hflag, hacc, rollsBack, sends, Call.command]
  | query sql => simp [after, perform, query, fetch_spec, rollsBack, sends, Call.command]
  | queryMap sqlTemplate params =>
      simp only [after, perform, queryMap, fetch_template_spec, rollsBack, sends, Call.command]
      split <;> simp_all
  | queryToVector sqlTemplate params =>
      simp only [after, perform, queryToVector, fetch_template_spec, rollsBack, sends,
        Call.command]
      split <;> simp_all
  | rollback name =>
      cases hflag : db.inTransaction with
      | false => simp [after, perform, rollback_noop, hflag, rollsBack, sends]
      | true =>
          cases name with
          | nil =>
              simp [after, perform, rollback_all_spec, hflag, rollsBack, sends, Call.command]
          | cons head rest =>
              have hname : head :: rest ≠ [] := List.cons_ne_nil head rest
              simp [after, perform, rollback_to_spec, hname, hflag, rollsBack, sends,
                Call.command]
  | commit => simp [after, perform, commit_spec, rollsBack, sends, Call.command]

/-- The flag after a call. -/
theorem flag_after (db : Database) (c : Call) :
    (after pqEscapeLiteral db c).inTransaction =
      match c with
      | .transaction [] => true
      | .rollback [] => false
      | .rollback name => db.inTransaction && db.accepts (.rollbackTo name)
      | .commit => db.inTransaction && !db.accepts .commit
      | .execute sql => db.inTransaction && db.accepts (.statement sql)
      | _ => db.inTransaction := by
  cases c with
  | transaction name =>
      cases name with
      | nil => simp [after, perform, transaction_begin_spec]
      | cons head rest =>
          have hname : head :: rest ≠ [] := List.cons_ne_nil head rest
          cases hflag : db.inTransaction <;>
            simp [after, perform, transaction_savepoint_spec, hname, hflag]
  | execute sql =>
      cases hflag : db.inTransaction <;> cases hacc : db.accepts (.statement sql) <;>
        simp [after, perform, execute_spec, hflag, hacc]
  | query sql => simp [after, perform, query, fetch_spec]
  | queryMap sqlTemplate params =>
      simp only [after, perform, queryMap, fetch_template_spec]
      split <;> rfl
  | queryToVector sqlTemplate params =>
      simp only [after, perform, queryToVector, fetch_template_spec]
      split <;> rfl
  | rollback name =>
      cases hflag : db.inTransaction with
      | false => cases name <;> simp [after, perform, rollback_noop, hflag]
      | true =>
          cases name with
          | nil => simp [after, perform, rollback_all_spec, hflag]
          | cons head rest =>
              have hname : head :: rest ≠ [] := List.cons_ne_nil head rest
              simp [after, perform, rollback_to_spec, hname, hflag]
  | commit => simp [after, perform, commit_spec]

/-- A call that returns and sends its command had it accepted. -/
theorem accepts_of_returned {db : Database} {c : Call} (hsends : db.sends c = true)
    (hok : (perform pqEscapeLiteral db c).1.isOk = true) :
    db.accepts (c.command pqEscapeLiteral) = true := by
  cases c with
  | transaction name =>
      cases name with
      | nil => exact db.transaction_begin_spec.1 ▸ hok
      | cons head rest =>
          have hspec := (db.transaction_savepoint_spec (List.cons_ne_nil head rest)).1
          simp only [perform, hspec, Bool.and_eq_true] at hok
          exact hok.2
  | execute sql => exact (db.execute_spec sql).1 ▸ hok
  | query sql =>
      simp only [perform, query, is_ok_map] at hok
      exact (db.fetch_spec sql).1 hok
  | queryMap sqlTemplate params =>
      simp only [perform, queryMap, is_ok_map] at hok
      exact ((db.fetch_template_spec sqlTemplate params).1 hok).2
  | queryToVector sqlTemplate params =>
      simp only [perform, queryToVector, is_ok_map] at hok
      exact ((db.fetch_template_spec sqlTemplate params).1 hok).2
  | rollback name =>
      have hflag : db.inTransaction = true := hsends
      cases name with
      | nil => exact (db.rollback_all_spec hflag).1 ▸ hok
      | cons head rest =>
          exact (db.rollback_to_spec hflag (List.cons_ne_nil head rest)).1 ▸ hok
  | commit => exact db.commit_spec.1 ▸ hok

/-- A call whose command is accepted returns, unless it expects rows. -/
theorem returned_of_accepts {db : Database} {c : Call} (hsends : db.sends c = true)
    (hcmd : (c.command pqEscapeLiteral).isStatement = false)
    (hacc : db.accepts (c.command pqEscapeLiteral) = true) :
    (perform pqEscapeLiteral db c).1.isOk = true := by
  cases c with
  | transaction name =>
      cases name with
      | nil => exact db.transaction_begin_spec.1.trans hacc
      | cons head rest =>
          have hflag : db.inTransaction = true := hsends
          have hspec := (db.transaction_savepoint_spec (List.cons_ne_nil head rest)).1
          rw [hflag, Bool.true_and] at hspec
          exact hspec.trans hacc
  | rollback name =>
      have hflag : db.inTransaction = true := hsends
      cases name with
      | nil => exact (db.rollback_all_spec hflag).1.trans hacc
      | cons head rest =>
          exact (db.rollback_to_spec hflag (List.cons_ne_nil head rest)).1.trans hacc
  | commit => exact db.commit_spec.1.trans hacc
  | _ => cases hcmd

end Database

end Brazier
