import Brazier.Database.Session
import Brazier.Database.SQLString

/-!
# The database connection

`Database` of `src/Database/Database.cpp`: a connection and the flag `in_transaction_`. A method
returns what the code returns, or the text of the `std::runtime_error` it throws, together with
the connection afterwards. The answers of the server are a list that `PQexec` consumes; past its
end every command is accepted.
-/

namespace Brazier

/-- A connected `Database`: the server, the answers still to come, and `in_transaction_`. -/
structure Database where
  server : PgServer
  answers : List Answer
  inTransaction : Bool
  deriving DecidableEq

namespace Database

/-- A new connection to a server, in no transaction. -/
def connect (committed : List (List Text)) (answers : List Answer) : Database :=
  ⟨⟨.idle, committed, []⟩, answers, false⟩

/-- The server's answer to the next command. -/
def nextAnswer (db : Database) : Answer :=
  db.answers.headD .commandOk

/-- `PQexec`. -/
def pqExec (db : Database) (cmd : Command) : ExecStatus × Database :=
  let (status, server) := db.server.exec cmd db.nextAnswer
  (status, { db with server, answers := db.answers.tail })

/-- `isInTransaction`. -/
def isInTransaction (db : Database) : Bool := db.inTransaction

/-- `execute`: a failure inside a transaction is followed by `ROLLBACK`. -/
def execute (db : Database) (sql : Text) : Except Text Unit × Database :=
  match db.pqExec (.statement sql) with
  | (.fatalError error, db) =>
      if db.inTransaction then
        -- the result of this command is dropped
        (.error error, { (db.pqExec .rollback).2 with inTransaction := false })
      else (.error error, db)
  | (_, db) => (.ok (), db)

/-- The second half of `transaction`: send the command and look at the result. -/
def start (db : Database) (cmd : Command) : Except Text Unit × Database :=
  match db.pqExec cmd with
  | (.commandOk, db) => (.ok (), db)
  | (status, db) =>
      (.error (("Failed to start transaction: " : Text) ++ status.errorMessage), db)

/-- `transaction`: the flag is set before `BEGIN` is sent. -/
def transaction (db : Database) (name : Text) : Except Text Unit × Database :=
  match name with
  | [] => start { db with inTransaction := true } .begin
  | _ :: _ =>
      if db.inTransaction then start db (.savepoint name)
      else (.error "Cannot create savepoint outside of a transaction", db)

/-- `rollback`: without a name the flag is cleared before `ROLLBACK` is sent, and any failure
clears it. -/
def rollback (db : Database) (name : Text) : Except Text Unit × Database :=
  if db.inTransaction then
    let (cmd, db) := match name with
      | [] => (Command.rollback, { db with inTransaction := false })
      | _ :: _ => (Command.rollbackTo name, db)
    match db.pqExec cmd with
    -- going back to a savepoint stays in the transaction
    | (.commandOk, db) => (.ok (), if name = [] then db else { db with inTransaction := true })
    | (status, db) =>
        (.error (("Failed to rollback: " : Text) ++ status.errorMessage),
          { db with inTransaction := false })
  else (.ok (), db)

/-- `commit`: looks neither at the flag before nor at the command tag of the answer. -/
def commit (db : Database) : Except Text Unit × Database :=
  match db.pqExec .commit with
  | (.commandOk, db) => (.ok (), { db with inTransaction := false })
  | (status, db) => (.error (("Failed to commit: " : Text) ++ status.errorMessage), db)

/-- Send a statement that must return rows. -/
def fetch (db : Database) (sql : Text) : Except Text Rows × Database :=
  match db.pqExec (.statement sql) with
  | (.tuplesOk rows, db) => (.ok rows, db)
  | (status, db) => (.error status.errorMessage, db)

/-- The text `query` makes of the rows. -/
def rowsText (rows : Rows) : Text :=
  (rows.values.map (fun row =>
    (row.map (fun value => value ++ (" " : Text))).flatten ++ ("\n" : Text))).flatten

/-- `query`. -/
def query (db : Database) (sql : Text) : Except Text Text × Database :=
  let (result, db) := db.fetch sql
  (result.map rowsText, db)

/-- A row as a map from column names to values. -/
def rowMap (columns row : List Text) : TextMap :=
  (columns.zip row).foldl (fun m cell => m.insert cell.1 cell.2) ∅

/-- The text of the exception for a wrong number of parameters. -/
def mismatchMessage (expected got : Nat) : Text :=
  ("Parameter count mismatch. Expected " : Text) ++ natText expected ++ (", got " : Text) ++
    natText got

/-- The loop over the parameters in `queryToVector` and `queryMap`: each parameter, escaped,
replaces the first question mark of the text as it then is. -/
def substitute (pqEscapeLiteral : Text → Option Text) (sqlTemplate : Text)
    (params : List Text) : Text :=
  params.foldl (fun sql param =>
    ProofLib.replaceFirst '?' (SQLString.escapeString pqEscapeLiteral param) sql) sqlTemplate

/-- Count the placeholders, substitute and fetch. -/
def fetchTemplate (pqEscapeLiteral : Text → Option Text) (db : Database) (sqlTemplate : Text)
    (params : List Text) : Except Text Rows × Database :=
  if sqlTemplate.count '?' = params.length then
    db.fetch (substitute pqEscapeLiteral sqlTemplate params)
  else (.error (mismatchMessage (sqlTemplate.count '?') params.length), db)

/-- `queryToVector`: every row as a map. -/
def queryToVector (pqEscapeLiteral : Text → Option Text) (db : Database) (sqlTemplate : Text)
    (params : List Text) : Except Text (List TextMap) × Database :=
  let (result, db) := fetchTemplate pqEscapeLiteral db sqlTemplate params
  (result.map (fun rows => rows.values.map (rowMap rows.columns)), db)

/-- `queryMap`: the first row as a map, or an empty map. -/
def queryMap (pqEscapeLiteral : Text → Option Text) (db : Database) (sqlTemplate : Text)
    (params : List Text) : Except Text TextMap × Database :=
  let (result, db) := fetchTemplate pqEscapeLiteral db sqlTemplate params
  (result.map (fun rows =>
    match rows.values with
    | [] => ∅
    | row :: _ => rowMap rows.columns row), db)

/-! ## Calls -/

/-- A call of a method of `Database`. -/
inductive Call where
  | transaction (name : Text)
  | execute (sql : Text)
  | query (sql : Text)
  | queryMap (sqlTemplate : Text) (params : List Text)
  | queryToVector (sqlTemplate : Text) (params : List Text)
  | rollback (name : Text)
  | commit
  deriving DecidableEq

/-- One call: whether it returned, or what it threw, and the connection afterwards. -/
def perform (pqEscapeLiteral : Text → Option Text) (db : Database) :
    Call → Except Text Unit × Database
  | .transaction name => db.transaction name
  | .execute sql => db.execute sql
  | .query sql => let (result, db) := db.query sql; (result.map (fun _ => ()), db)
  | .queryMap sqlTemplate params =>
      let (result, db) := queryMap pqEscapeLiteral db sqlTemplate params
      (result.map (fun _ => ()), db)
  | .queryToVector sqlTemplate params =>
      let (result, db) := queryToVector pqEscapeLiteral db sqlTemplate params
      (result.map (fun _ => ()), db)
  | .rollback name => db.rollback name
  | .commit => db.commit

/-- The connection after a call, whether the call returned or threw. -/
def after (pqEscapeLiteral : Text → Option Text) (db : Database) (c : Call) : Database :=
  (perform pqEscapeLiteral db c).2

end Database

end Brazier
