import Brazier.Database.Methods
import Brazier.ProofLib.Runs

/-!
# Commands one after the other

A list of commands on a connection, without regard to `in_transaction_`: the connection after them,
and whether each is accepted in its turn. Each method of `Database` sends its command so, when the
flag does not keep it from sending.
-/

namespace Brazier

open ProofLib

namespace Database

/-- Send a command and drop the result. -/
def send (db : Database) (cmd : Command) : Database := (db.pqExec cmd).2

/-- The session after a command. -/
theorem session_send (db : Database) (cmd : Command) :
    (db.send cmd).server.session = (db.server.session.exec cmd db.nextAnswer).1 :=
  session_pq_exec db cmd

/-- What a command commits. -/
theorem committed_send (db : Database) (cmd : Command) :
    (db.send cmd).server.committed =
      db.server.committed ++ (db.server.session.exec cmd db.nextAnswer).2.1 :=
  committed_pq_exec db cmd

/-- Send the commands in order. -/
def sendAll (db : Database) (cmds : List Command) : Database := runFrom send db cmds

/-- Each of the commands is accepted in its turn. -/
def AcceptsAll (db : Database) (cmds : List Command) : Prop :=
  Throughout send (fun db cmd => db.accepts cmd = true) db cmds

/-- The connection with the flag set to a value. -/
def setFlag (db : Database) (flag : Bool) : Database := { db with inTransaction := flag }

@[simp] theorem setFlag_setFlag (db : Database) (flag flag' : Bool) :
    (db.setFlag flag).setFlag flag' = db.setFlag flag' := rfl

@[simp] theorem inTransaction_setFlag (db : Database) (flag : Bool) :
    (db.setFlag flag).inTransaction = flag := rfl

@[simp] theorem server_setFlag (db : Database) (flag : Bool) :
    (db.setFlag flag).server = db.server := rfl

@[simp] theorem accepts_setFlag (db : Database) (flag : Bool) (cmd : Command) :
    (db.setFlag flag).accepts cmd = db.accepts cmd := rfl

@[simp] theorem send_setFlag (db : Database) (flag : Bool) (cmd : Command) :
    (db.setFlag flag).send cmd = (db.send cmd).setFlag flag := rfl

/-- A connection is itself with its flag. -/
theorem setFlag_self {db : Database} {flag : Bool} (h : db.inTransaction = flag) :
    db.setFlag flag = db := by
  subst h
  rfl

@[simp] theorem sendAll_setFlag (db : Database) (flag : Bool) (cmds : List Command) :
    (db.setFlag flag).sendAll cmds = (db.sendAll cmds).setFlag flag := by
  unfold sendAll
  induction cmds generalizing db with
  | nil => rfl
  | cons cmd rest ih => rw [runFrom_cons, runFrom_cons, send_setFlag, ih]

@[simp] theorem acceptsAll_setFlag (db : Database) (flag : Bool) (cmds : List Command) :
    (db.setFlag flag).AcceptsAll cmds ↔ db.AcceptsAll cmds := by
  unfold AcceptsAll
  induction cmds generalizing db with
  | nil => exact Iff.rfl
  | cons cmd rest ih =>
      unfold Throughout
      rw [send_setFlag, accepts_setFlag, ih]

@[simp] theorem sendAll_nil (db : Database) : db.sendAll [] = db := rfl

theorem sendAll_append (db : Database) (first second : List Command) :
    db.sendAll (first ++ second) = (db.sendAll first).sendAll second :=
  runFrom_append db first second

theorem acceptsAll_append {db : Database} {first second : List Command} :
    db.AcceptsAll (first ++ second) ↔ db.AcceptsAll first ∧ (db.sendAll first).AcceptsAll second :=
  throughout_append

/-- One more command. -/
theorem acceptsAll_snoc {db : Database} {cmds : List Command} {cmd : Command} :
    db.AcceptsAll (cmds ++ [cmd]) ↔
      db.AcceptsAll cmds ∧ (db.sendAll cmds).accepts cmd = true := by
  rw [acceptsAll_append]
  exact and_congr_right fun _ => and_iff_left trivial

/-- The server receives the commands. -/
theorem received_sendAll (db : Database) (cmds : List Command) :
    (db.sendAll cmds).server.received = db.server.received ++ cmds := by
  induction cmds generalizing db with
  | nil => exact (List.append_nil _).symm
  | cons cmd rest ih =>
      have hsend : db.sendAll (cmd :: rest) = (db.send cmd).sendAll rest := rfl
      have hreceived : (db.send cmd).server.received = db.server.received ++ [cmd] := rfl
      rw [hsend, ih, hreceived, List.append_assoc, List.singleton_append]

/-! ## Scripts that fail -/

/-- `ROLLBACK` or `ROLLBACK TO SAVEPOINT`. -/
def Undoes : Command → Bool
  | .rollback | .rollbackTo _ => true
  | _ => false

/-- A `rollback` sends nothing or a command that undoes. -/
theorem rollback_undoes (db : Database) (name : Text) :
    ∃ undo flag, (db.rollback name).2 = (db.sendAll undo).setFlag flag ∧
      ∀ cmd ∈ undo, Undoes cmd = true := by
  cases hflag : db.inTransaction with
  | false =>
      rw [rollback_noop db name hflag]
      exact ⟨[], false, (setFlag_self hflag).symm, fun _ h => absurd h List.not_mem_nil⟩
  | true =>
      cases name with
      | nil =>
          rw [(rollback_all_spec db hflag).2]
          exact ⟨[.rollback], false, rfl, List.forall_mem_singleton.mpr rfl⟩
      | cons head rest =>
          rw [(rollback_to_spec db hflag (List.cons_ne_nil head rest)).2]
          exact ⟨[.rollbackTo (head :: rest)], _, rfl, List.forall_mem_singleton.mpr rfl⟩

/-- `sent` is what goes out when a command of the script is refused: the commands before it, which
were accepted, that command, and then only commands that undo. -/
def FailsWith (db : Database) (script sent : List Command) : Prop :=
  ∃ before cmd after undo, script = before ++ cmd :: after ∧ db.AcceptsAll before ∧
    (db.sendAll before).accepts cmd = false ∧ sent = before ++ cmd :: undo ∧
    ∀ c ∈ undo, Undoes c = true

/-- Whether a script fails does not depend on the flag. -/
@[simp] theorem failsWith_setFlag (db : Database) (flag : Bool) (script sent : List Command) :
    (db.setFlag flag).FailsWith script sent ↔ db.FailsWith script sent := by
  simp only [FailsWith, acceptsAll_setFlag, sendAll_setFlag, accepts_setFlag]

/-- A script that fails fails with any continuation. -/
theorem FailsWith.append {db : Database} {script sent : List Command} (h : db.FailsWith script sent)
    (more : List Command) : db.FailsWith (script ++ more) sent := by
  obtain ⟨before, cmd, after, undo, hscript, hrest⟩ := h
  refine ⟨before, cmd, after ++ more, undo, ?_, hrest⟩
  rw [hscript, List.append_assoc, List.cons_append]

/-- What undoes may follow. -/
theorem FailsWith.undo {db : Database} {script sent undo : List Command}
    (h : db.FailsWith script sent) (hundo : ∀ c ∈ undo, Undoes c = true) :
    db.FailsWith script (sent ++ undo) := by
  obtain ⟨before, cmd, after, undo', hscript, haccepts, hrefused, hsent, hundo'⟩ := h
  refine ⟨before, cmd, after, undo' ++ undo, hscript, haccepts, hrefused, ?_,
    List.forall_mem_append.mpr ⟨hundo', hundo⟩⟩
  rw [hsent, List.append_assoc, List.cons_append]

/-! ## Methods that send one command

Each is called in a transaction, `transaction` without a name apart. -/

/-- The call sends the command: it returns if that is accepted, with the flag at a value, and
throws if it is refused, after commands that undo. -/
structure Sends (db : Database) (cmd : Command) (flag : Bool)
    (result : Except Text Unit × Database) : Prop where
  ok : result.1.isOk = db.accepts cmd
  accepted : db.accepts cmd = true → result.2 = (db.send cmd).setFlag flag
  refused : db.accepts cmd = false → ∃ undo flag',
    result.2 = (db.sendAll (cmd :: undo)).setFlag flag' ∧ ∀ c ∈ undo, Undoes c = true

/-- `transaction` without a name. -/
theorem sends_begin (db : Database) : db.Sends .begin true (db.transaction []) := by
  obtain ⟨hok, hafter⟩ := db.transaction_begin_spec
  exact ⟨hok, fun _ => hafter, fun _ => ⟨[], true, hafter, List.forall_mem_nil _⟩⟩

/-- `transaction` with a name. -/
theorem sends_savepoint (db : Database) {name : Text} (hname : name ≠ []) :
    db.Sends (.savepoint name) true ((db.setFlag true).transaction name) := by
  obtain ⟨hok, hafter⟩ := (db.setFlag true).transaction_savepoint_spec hname
  exact ⟨hok, fun _ => hafter, fun _ => ⟨[], true, hafter, List.forall_mem_nil _⟩⟩

/-- `execute`: when the statement is refused, `ROLLBACK` follows. -/
theorem sends_execute (db : Database) (sql : Text) :
    db.Sends (.statement sql) true ((db.setFlag true).execute sql) := by
  obtain ⟨hok, hafter⟩ := (db.setFlag true).execute_spec sql
  rw [accepts_setFlag, inTransaction_setFlag, Bool.true_and] at hafter
  refine ⟨hok, fun hacc => ?_, fun hacc => ⟨[.rollback], false, ?_, ?_⟩⟩
  · rw [hafter, hacc]
    rfl
  · rw [hafter, hacc]
    rfl
  · exact List.forall_mem_singleton.mpr rfl

/-- `commit`. -/
theorem sends_commit (db : Database) : db.Sends .commit false (db.setFlag true).commit := by
  obtain ⟨hok, hafter⟩ := (db.setFlag true).commit_spec
  rw [accepts_setFlag, inTransaction_setFlag, Bool.true_and] at hafter
  refine ⟨hok, fun hacc => ?_, fun hacc => ⟨[], true, ?_, List.forall_mem_nil _⟩⟩
  · rw [hafter, hacc]
    rfl
  · rw [hafter, hacc]
    rfl

end Database

end Brazier
