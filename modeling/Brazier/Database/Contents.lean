import Brazier.Database.Script
import Brazier.Database.Migrations.Atomicity

/-!
# What is stored

The list of answers of a `Database` comes from outside. Here it comes from a server: `Sql` says
what a server answers to a statement, given what is stored, and what an accepted statement changes.
`Honest` says that the answers to some commands are the ones of the server. `seen_sendAll` says what
accepted commands make of what is stored.
-/

namespace Brazier

open ProofLib

/-- The statement in a command. -/
def Command.sql : Command → Option Text
  | .statement sql => some sql
  | _ => none

/-- An idle session is not aborted. -/
theorem Session.not_aborted_of_idle {s : Session} (h : s = .idle) : s.isAborted = false := by
  rw [h]
  rfl

/-- An accepted command adds its statement to what the session did, committed or not. -/
theorem Session.exec_work {s : Session} {cmd : Command} {answer : Answer}
    (hab : s.isAborted = false) (hundoes : Database.Undoes cmd = false)
    (hacc : (s.allows cmd && answer.accepts) = true) :
    (s.exec cmd answer).1.isAborted = false ∧
      (s.exec cmd answer).2.1.flatten ++ (s.exec cmd answer).1.openWork =
        s.openWork ++ cmd.sql.toList := by
  obtain ⟨hallows, hans⟩ := Bool.and_eq_true_iff.mp hacc
  cases s with
  | idle =>
      cases cmd with
      | savepoint name => cases hallows
      | rollback => cases hundoes
      | rollbackTo name => cases hundoes
      | begin => cases answer <;> exact ⟨rfl, rfl⟩
      | commit => cases answer <;> exact ⟨rfl, rfl⟩
      | statement sql => cases answer <;> first | exact ⟨rfl, rfl⟩ | cases hans
  | inTransaction b =>
      cases cmd with
      | rollback => cases hundoes
      | rollbackTo name => cases hundoes
      | savepoint name =>
          cases answer <;> first | exact ⟨rfl, (List.append_nil _).symm⟩ | cases hans
      | begin => cases answer <;> first | exact ⟨rfl, (List.append_nil _).symm⟩ | cases hans
      | commit =>
          cases answer <;> first | exact ⟨rfl, List.append_nil _⟩ | cases hans
      | statement sql => cases answer <;> first | exact ⟨rfl, rfl⟩ | cases hans
  | aborted b => cases hab

/-- A server, as far as SQL statements go. -/
structure Sql (S : Type) where
  answer : S → Text → Answer
  effect : Text → S → S

namespace Sql

variable {S : Type} (server : Sql S) (base : S)

/-- What is stored after some statements. -/
def play (s : S) (statements : List Text) : S :=
  statements.foldl (fun s sql => server.effect sql s) s

/-- The answer to a command. The commands that are no statements are not refused. -/
def reply (s : S) : Command → Answer
  | .statement sql => server.answer s sql
  | _ => .commandOk

/-- What is stored in the database, which was at `base` before the commits. -/
def stored (db : Database) : S := server.play base db.server.committed.flatten

/-- What is stored as the connection sees it, with the work of its open block. -/
def seen (db : Database) : S := server.play (server.stored base db) db.server.session.openWork

/-- The commands get the answers of the server. -/
def Honest (db : Database) (cmds : List Command) : Prop :=
  Throughout Database.send
    (fun db cmd => db.nextAnswer = server.reply (server.seen base db) cmd) db cmds

variable {server base} {db : Database}

theorem play_append (s : S) (first second : List Text) :
    server.play s (first ++ second) = server.play (server.play s first) second :=
  List.foldl_append

/-- An idle session sees what is stored. -/
theorem seen_of_idle (hidle : db.server.session = .idle) :
    server.seen base db = server.stored base db := by
  rw [seen, hidle]
  rfl

/-- What the connection sees are its commits and then its open work. -/
theorem seen_eq (server : Sql S) (base : S) (db : Database) :
    server.seen base db =
      server.play base (db.server.committed.flatten ++ db.server.session.openWork) :=
  (play_append base _ _).symm

/-- One accepted command. -/
theorem seen_send (server : Sql S) (base : S) {cmd : Command}
    (hab : db.server.session.isAborted = false)
    (hundoes : Database.Undoes cmd = false) (hacc : db.accepts cmd = true) :
    (db.send cmd).server.session.isAborted = false ∧
      server.seen base (db.send cmd) = server.play (server.seen base db) cmd.sql.toList := by
  obtain ⟨hafter, hwork⟩ := Session.exec_work hab hundoes hacc
  refine ⟨hafter, ?_⟩
  rw [seen_eq, seen_eq, ← play_append, Database.session_send, Database.committed_send,
    List.flatten_append, List.append_assoc, hwork, List.append_assoc]

/-- Accepted commands, none of which undoes. -/
theorem seen_sendAll (server : Sql S) (base : S) {cmds : List Command}
    (hab : db.server.session.isAborted = false)
    (hundoes : ∀ cmd ∈ cmds, Database.Undoes cmd = false) (hacc : db.AcceptsAll cmds) :
    (db.sendAll cmds).server.session.isAborted = false ∧
      server.seen base (db.sendAll cmds) =
        server.play (server.seen base db) (cmds.filterMap Command.sql) := by
  induction cmds generalizing db with
  | nil => exact ⟨hab, rfl⟩
  | cons cmd rest ih =>
      obtain ⟨hcmd, hrest⟩ := List.forall_mem_cons.mp hundoes
      obtain ⟨hab', hseen⟩ := seen_send server base hab hcmd hacc.1
      obtain ⟨hab'', hseen'⟩ := ih hab' hrest hacc.2
      refine ⟨hab'', hseen'.trans ?_⟩
      have hsplit : (cmd :: rest).filterMap Command.sql =
          cmd.sql.toList ++ rest.filterMap Command.sql := by
        cases cmd <;> rfl
      rw [hseen, hsplit, play_append]

/-! ## Honest answers -/

/-- Honesty about two lists of commands, one after the other. -/
theorem honest_append {first second : List Command} :
    server.Honest base db (first ++ second) ↔
      server.Honest base db first ∧ server.Honest base (db.sendAll first) second :=
  throughout_append

/-- A command that the session allows and that is no statement is accepted. -/
theorem Honest.accepts {cmd : Command} {rest : List Command}
    (h : server.Honest base db (cmd :: rest)) (hallows : db.server.session.allows cmd = true)
    (hsql : cmd.sql = none) : db.accepts cmd = true := by
  have hreply : server.reply (server.seen base db) cmd = .commandOk := by
    cases cmd with
    | statement sql => cases hsql
    | begin | commit | rollback | savepoint name | rollbackTo name => rfl
  have hans : db.nextAnswer = .commandOk := h.1.trans hreply
  rw [Database.accepts, hallows, hans]
  rfl

/-- A session that is not aborted allows everything but going to savepoints outside of a block. -/
theorem allows_of_not_aborted {cmd : Command} (hab : db.server.session.isAborted = false)
    (hundoes : Database.Undoes cmd = false) (hsavepoint : ∀ name, cmd ≠ .savepoint name) :
    db.server.session.allows cmd = true := by
  cases hs : db.server.session with
  | aborted b => rw [hs] at hab; cases hab
  | idle =>
      cases cmd with
      | savepoint name => exact absurd rfl (hsavepoint name)
      | rollbackTo name => cases hundoes
      | begin | commit | rollback | statement sql => rfl
  | inTransaction b =>
      cases cmd with
      | rollbackTo name => cases hundoes
      | begin | commit | rollback | savepoint name | statement sql => rfl

/-- After an accepted `BEGIN` a block is open. -/
theorem block_of_begin (hab : db.server.session.isAborted = false)
    (hacc : db.accepts .begin = true) :
    ∃ b, (db.send .begin).server.session = .inTransaction b := by
  obtain ⟨-, hans⟩ := Bool.and_eq_true_iff.mp hacc
  rw [Database.session_send]
  cases hs : db.server.session with
  | aborted b => rw [hs] at hab; cases hab
  | idle => cases ha : db.nextAnswer <;> simp_all [Session.exec, execIdle, Answer.accepts]
  | inTransaction b =>
      cases ha : db.nextAnswer <;> simp_all [Session.exec, execOpen, Answer.accepts]

end Sql

namespace Database

/-- Commands that do not end the block commit nothing, accepted or not. -/
theorem committed_sendAll_in_block {db : Database} {b : Block} {cmds : List Command}
    (hblock : db.server.session.block = some b) (hcmds : ∀ cmd ∈ cmds, cmd.endsBlock = false) :
    (db.sendAll cmds).server.committed = db.server.committed := by
  induction cmds generalizing db b with
  | nil => rfl
  | cons cmd rest ih =>
      obtain ⟨hcmd, hrest⟩ := List.forall_mem_cons.mp hcmds
      have hblock' : (db.send cmd).server.session.block =
          some (if db.accepts cmd then b.apply cmd else b) :=
        Session.exec_block hblock hcmd db.nextAnswer
      exact (ih hblock' hrest).trans (committed_in_block hblock hcmd)

/-- Commands that undo commit nothing. -/
theorem committed_sendAll_undo {db : Database} {cmds : List Command}
    (hcmds : ∀ cmd ∈ cmds, Undoes cmd = true) :
    (db.sendAll cmds).server.committed = db.server.committed := by
  induction cmds generalizing db with
  | nil => rfl
  | cons cmd rest ih =>
      obtain ⟨hcmd, hrest⟩ := List.forall_mem_cons.mp hcmds
      have hsend : (db.send cmd).server.committed = db.server.committed := by
        cases cmd with
        | rollback => exact committed_rollback db
        | rollbackTo name => exact committed_rollback_to db name
        | begin => cases hcmd
        | commit => cases hcmd
        | savepoint name => cases hcmd
        | statement sql => cases hcmd
      exact (ih hrest).trans hsend

end Database

end Brazier
