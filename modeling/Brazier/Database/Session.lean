import Brazier.Text

/-!
# The PostgreSQL session behind a connection

What the server does with the commands that `Database` sends it. A session is idle, in a
transaction block, or in an aborted one. A block has the statements done so far and a stack of
savepoints. The server is free to refuse any command: its `Answer` to the next command comes
from outside, and matters where the session would accept the command. A `statement` is any SQL
text other than the transaction commands, and the names of savepoints are kept whole: `Grammar` is
about the texts of which that is so.
-/

namespace Brazier

/-- The rows of a result: the column names and the values of each row. -/
structure Rows where
  columns : List Text
  values : List (List Text)
  deriving DecidableEq

/-- What the server answers to a command that the session accepts. -/
inductive Answer where
  | tuplesOk (rows : Rows)
  | commandOk
  | error (message : Text)
  deriving DecidableEq

/-- `PQresultStatus`, with the rows or the text of `PQerrorMessage`. -/
inductive ExecStatus where
  | tuplesOk (rows : Rows)
  | commandOk
  | fatalError (message : Text)
  deriving DecidableEq

/-- The commands sent by `Database`, by their texts. -/
inductive Command where
  | begin  -- BEGIN
  | commit  -- COMMIT
  | rollback  -- ROLLBACK
  | savepoint (name : Text)  -- SAVEPOINT "name"
  | rollbackTo (name : Text)  -- ROLLBACK TO SAVEPOINT "name"
  | statement (sql : Text)
  deriving DecidableEq

/-- The beginning of a text for which there is room, in bytes: the server keeps 63 of a name. -/
def clip : Nat → Text → Text
  | _, [] => []
  | room, c :: rest => if c.utf8Size ≤ room then c :: clip (room - c.utf8Size) rest else []

/-- A savepoint and the statements done before it. -/
structure Savepoint where
  name : Text
  before : List Text
  deriving DecidableEq

/-- An open transaction block: the statements done in it, in order, and its savepoints, newest
first. -/
structure Block where
  pending : List Text
  savepoints : List Savepoint
  deriving DecidableEq

/-- The newest savepoint with a name, and everything older. -/
def Block.find (b : Block) (name : Text) : List Savepoint :=
  b.savepoints.dropWhile (fun sp => sp.name ≠ name)

/-- Undo what was done since the newest savepoint with the name. The savepoint stays. -/
def Block.rollbackTo (b : Block) (name : Text) : Option Block :=
  match b.find name with
  | [] => none
  | sp :: older => some ⟨sp.before, sp :: older⟩

/-- The session of a connection. -/
inductive Session where
  | idle
  | inTransaction (block : Block)
  | aborted (block : Block)
  deriving DecidableEq

/-- The server as one connection sees it: the session, the transactions committed so far with
the statements of each, and every command received. -/
structure PgServer where
  session : Session
  committed : List (List Text)
  received : List Command
  deriving DecidableEq

/-- The server's reply to a command it refuses inside an aborted block. -/
def abortedMessage : Text :=
  "current transaction is aborted, commands ignored until end of transaction block"

/-- A command outside a transaction block. A statement is a transaction of its own. -/
def execIdle : Command → Answer → Session × List (List Text) × ExecStatus
  | .begin, .error e => (.idle, [], .fatalError e)
  | .begin, _ => (.inTransaction ⟨[], []⟩, [], .commandOk)
  | .commit, .error e => (.idle, [], .fatalError e)
  -- without a transaction the server warns, and answers COMMAND_OK
  | .commit, _ => (.idle, [], .commandOk)
  | .rollback, .error e => (.idle, [], .fatalError e)
  | .rollback, _ => (.idle, [], .commandOk)
  | .savepoint _, _ =>
      (.idle, [], .fatalError "SAVEPOINT can only be used in transaction blocks")
  | .rollbackTo _, _ =>
      (.idle, [], .fatalError "ROLLBACK TO SAVEPOINT can only be used in transaction blocks")
  | .statement _, .error e => (.idle, [], .fatalError e)
  | .statement sql, .tuplesOk rows => (.idle, [[sql]], .tuplesOk rows)
  | .statement sql, .commandOk => (.idle, [[sql]], .commandOk)

/-- A command that goes back to a savepoint, inside a block. -/
def execRollbackTo (b : Block) (name : Text) (answer : Answer) :
    Session × List (List Text) × ExecStatus :=
  match b.rollbackTo name, answer with
  | none, _ => (.aborted b, [], .fatalError "savepoint does not exist")
  | some _, .error e => (.aborted b, [], .fatalError e)
  | some back, _ => (.inTransaction back, [], .commandOk)

/-- A command inside a transaction block. A refused command aborts the block. -/
def execOpen (b : Block) : Command → Answer → Session × List (List Text) × ExecStatus
  | .commit, .error e => (.idle, [], .fatalError e)
  | .commit, _ => (.idle, [b.pending], .commandOk)
  | .rollback, .error e => (.idle, [], .fatalError e)
  | .rollback, _ => (.idle, [], .commandOk)
  | .rollbackTo name, answer => execRollbackTo b name answer
  | .begin, .error e | .savepoint _, .error e | .statement _, .error e =>
      (.aborted b, [], .fatalError e)
  -- a second BEGIN is a warning
  | .begin, _ => (.inTransaction b, [], .commandOk)
  | .savepoint name, _ =>
      (.inTransaction { b with savepoints := ⟨name, b.pending⟩ :: b.savepoints }, [], .commandOk)
  | .statement sql, .tuplesOk rows =>
      (.inTransaction { b with pending := b.pending ++ [sql] }, [], .tuplesOk rows)
  | .statement sql, .commandOk =>
      (.inTransaction { b with pending := b.pending ++ [sql] }, [], .commandOk)

/-- A command inside an aborted block. `COMMIT` is accepted and rolls back. -/
def execAborted (b : Block) : Command → Answer → Session × List (List Text) × ExecStatus
  | .commit, .error e => (.idle, [], .fatalError e)
  -- answered COMMAND_OK, with the command tag ROLLBACK
  | .commit, _ => (.idle, [], .commandOk)
  | .rollback, .error e => (.idle, [], .fatalError e)
  | .rollback, _ => (.idle, [], .commandOk)
  | .rollbackTo name, answer => execRollbackTo b name answer
  | .begin, _ | .savepoint _, _ | .statement _, _ => (.aborted b, [], .fatalError abortedMessage)

/-- A command in any session: the session afterwards, the transactions it commits, and the
result. -/
def Session.exec : Session → Command → Answer → Session × List (List Text) × ExecStatus
  | .idle => execIdle
  | .inTransaction b => execOpen b
  | .aborted b => execAborted b

/-- One command on the server. -/
def PgServer.exec (s : PgServer) (cmd : Command) (answer : Answer) : ExecStatus × PgServer :=
  let (session, done, status) := s.session.exec cmd answer
  (status, ⟨session, s.committed ++ done, s.received ++ [cmd]⟩)

/-- The answer is not a refusal. -/
def Answer.accepts : Answer → Bool
  | .error _ => false
  | _ => true

/-- The status is not an error. -/
def ExecStatus.isOk : ExecStatus → Bool
  | .fatalError _ => false
  | _ => true

/-- The text of `PQerrorMessage` after a command. -/
def ExecStatus.errorMessage : ExecStatus → Text
  | .fatalError message => message
  | _ => []

/-! ## What a command does to a session -/

/-- The session accepts the command, if the server answers so. -/
def Session.allows : Session → Command → Bool
  | .idle, .savepoint _ | .idle, .rollbackTo _ => false
  | .inTransaction b, .rollbackTo name | .aborted b, .rollbackTo name =>
      (b.rollbackTo name).isSome
  | .aborted _, .begin | .aborted _, .savepoint _ | .aborted _, .statement _ => false
  | _, _ => true

/-- The command ends a transaction block, accepted or not. -/
def Command.endsBlock : Command → Bool
  | .commit | .rollback => true
  | _ => false

/-- The command is an SQL statement. -/
def Command.isStatement : Command → Bool
  | .statement _ => true
  | _ => false

/-- The open block, aborted or not. -/
def Session.block : Session → Option Block
  | .idle => none
  | .inTransaction b | .aborted b => some b

/-- The session waits for the end of an aborted block. -/
def Session.isAborted : Session → Bool
  | .aborted _ => true
  | _ => false

/-- What an accepted command does to the block it is sent in. -/
def Block.apply (b : Block) : Command → Block
  | .statement sql => { b with pending := b.pending ++ [sql] }
  | .savepoint name => { b with savepoints := ⟨name, b.pending⟩ :: b.savepoints }
  | .rollbackTo name => (b.rollbackTo name).getD b
  | _ => b

/-- Going back to a savepoint that does not exist changes nothing. -/
theorem Block.apply_rollback_to (b : Block) (name : Text) :
    b.apply (.rollbackTo name) =
      match b.find name with
      | [] => b
      | sp :: older => ⟨sp.before, sp :: older⟩ := by
  simp only [Block.apply, Block.rollbackTo]
  split <;> rfl

/-- A session is idle exactly when it has no block. -/
theorem Session.block_eq_none_iff (s : Session) : s.block = none ↔ s = .idle := by
  cases s <;> simp [Session.block]

/-- Going back to a savepoint stays in the block. -/
theorem exec_rollback_to_block (b : Block) (name : Text) (answer : Answer) :
    (execRollbackTo b name answer).1.block =
      some (if (b.rollbackTo name).isSome && answer.accepts then b.apply (.rollbackTo name)
        else b) := by
  unfold execRollbackTo
  cases hback : b.rollbackTo name with
  | none => simp [Session.block]
  | some back => cases answer <;> simp [Session.block, Answer.accepts, Block.apply, hback]

/-- Going back succeeds when the savepoint exists and the server accepts. -/
theorem exec_rollback_to_ok (b : Block) (name : Text) (answer : Answer) :
    (execRollbackTo b name answer).2.2.isOk = ((b.rollbackTo name).isSome && answer.accepts) := by
  unfold execRollbackTo
  cases b.rollbackTo name with
  | none => rfl
  | some back => cases answer <;> rfl

/-- Going back to an existing savepoint leaves the block unaborted. -/
theorem exec_rollback_to_accepted {b : Block} {name : Text} {answer : Answer}
    (hfind : (b.rollbackTo name).isSome = true) (hans : answer.accepts = true) :
    (execRollbackTo b name answer).1 = .inTransaction (b.apply (.rollbackTo name)) := by
  obtain ⟨back, hback⟩ := Option.isSome_iff_exists.mp hfind
  cases answer with
  | error e => cases hans
  | _ => simp [execRollbackTo, Block.apply, hback]

/-- A command succeeds when the session allows it and the server accepts. -/
theorem Session.exec_ok (s : Session) (cmd : Command) (answer : Answer) :
    (s.exec cmd answer).2.2.isOk = (s.allows cmd && answer.accepts) := by
  cases s with
  | idle => cases cmd <;> cases answer <;> rfl
  | inTransaction b =>
      cases cmd with
      | rollbackTo name => exact exec_rollback_to_ok b name answer
      | _ => cases answer <;> rfl
  | aborted b =>
      cases cmd with
      | rollbackTo name => exact exec_rollback_to_ok b name answer
      | _ => cases answer <;> rfl

/-- Commands other than statements return no rows. -/
theorem Session.exec_status (s : Session) (cmd : Command) (hcmd : cmd.isStatement = false)
    (answer : Answer) :
    (s.exec cmd answer).2.2 = .commandOk ∨ (s.exec cmd answer).2.2.isOk = false := by
  cases s with
  | idle => cases cmd <;> cases answer <;> simp_all [Session.exec, execIdle, ExecStatus.isOk,
      Command.isStatement]
  | inTransaction b =>
      cases cmd with
      | rollbackTo name =>
          simp only [Session.exec, execOpen, execRollbackTo]
          split <;> simp [ExecStatus.isOk]
      | _ => cases answer <;> simp_all [Session.exec, execOpen, ExecStatus.isOk,
          Command.isStatement]
  | aborted b =>
      cases cmd with
      | rollbackTo name =>
          simp only [Session.exec, execAborted, execRollbackTo]
          split <;> simp [ExecStatus.isOk]
      | _ => cases answer <;> simp_all [Session.exec, execAborted, ExecStatus.isOk,
          Command.isStatement]

/-- `COMMIT` and `ROLLBACK` leave the session idle, whatever the answer. -/
theorem Session.exec_ends (s : Session) (cmd : Command) (hcmd : cmd.endsBlock = true)
    (answer : Answer) : (s.exec cmd answer).1 = .idle := by
  cases cmd <;> cases hcmd <;> cases s <;> cases answer <;> rfl

/-- Any other command sent in a block stays in it, and changes it when it succeeds. -/
theorem Session.exec_block {s : Session} {b : Block} (hb : s.block = some b) {cmd : Command}
    (hcmd : cmd.endsBlock = false) (answer : Answer) :
    (s.exec cmd answer).1.block =
      some (if s.allows cmd && answer.accepts then b.apply cmd else b) := by
  cases s with
  | idle => cases hb
  | inTransaction b' =>
      cases hb
      cases cmd with
      | rollbackTo name => exact exec_rollback_to_block b name answer
      | commit => cases hcmd
      | rollback => cases hcmd
      | _ => cases answer <;> rfl
  | aborted b' =>
      cases hb
      cases cmd with
      | rollbackTo name => exact exec_rollback_to_block b name answer
      | commit => cases hcmd
      | rollback => cases hcmd
      | _ => cases answer <;> rfl

/-- A command that is accepted in a block leaves it unaborted. -/
theorem Session.exec_accepted {s : Session} {b : Block} (hb : s.block = some b) {cmd : Command}
    (hcmd : cmd.endsBlock = false) {answer : Answer}
    (hacc : (s.allows cmd && answer.accepts) = true) :
    (s.exec cmd answer).1 = .inTransaction (b.apply cmd) := by
  obtain ⟨hallows, hans⟩ := Bool.and_eq_true_iff.mp hacc
  cases s with
  | idle => cases hb
  | inTransaction b' =>
      cases hb
      cases cmd with
      | rollbackTo name => exact exec_rollback_to_accepted hallows hans
      | commit => cases hcmd
      | rollback => cases hcmd
      | _ => cases answer <;> first | rfl | cases hans
  | aborted b' =>
      cases hb
      cases cmd with
      | rollbackTo name => exact exec_rollback_to_accepted hallows hans
      | commit => cases hcmd
      | rollback => cases hcmd
      | _ => cases hallows

/-- An idle session opens a block only by an accepted `BEGIN`. -/
theorem Session.exec_idle_block (cmd : Command) (answer : Answer) :
    (Session.exec .idle cmd answer).1.block =
      if cmd = .begin ∧ answer.accepts = true then some ⟨[], []⟩ else none := by
  cases cmd <;> cases answer <;> rfl

/-- What an accepted command commits: the block it ends, or itself outside of a block. -/
def Session.commits : Session → Command → List (List Text)
  | .inTransaction b, .commit => [b.pending]
  | .idle, .statement sql => [[sql]]
  | _, _ => []

/-- A refused command commits nothing. -/
theorem Session.exec_commits (s : Session) (cmd : Command) (answer : Answer) :
    (s.exec cmd answer).2.1 = if answer.accepts then s.commits cmd else [] := by
  cases s with
  | idle => cases cmd <;> cases answer <;> rfl
  | inTransaction b =>
      cases cmd with
      | rollbackTo name =>
          simp only [Session.exec, execOpen, execRollbackTo, Session.commits]
          split <;> simp
      | _ => cases answer <;> rfl
  | aborted b =>
      cases cmd with
      | rollbackTo name =>
          simp only [Session.exec, execAborted, execRollbackTo, Session.commits]
          split <;> simp
      | _ => cases answer <;> rfl

end Brazier
