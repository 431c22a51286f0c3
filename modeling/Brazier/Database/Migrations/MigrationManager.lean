import Brazier.Database.Database
import Brazier.ProofLib.Throwing
import Mathlib.Data.Finset.Basic

/-!
# The migration manager

`MigrationManager` of `include/brazier/Database/Migrations/MigrationManager.hpp`: a connection and
the names of the migrations that count as executed. A migration is its type name and what its
`up` and `down` return.
-/

namespace Brazier

/-- A migration class: `typeid(Migration).name()`, `Migration::up()` and `Migration::down()`. -/
structure Migration where
  name : Text
  up : List Text
  down : Text

/-- A `MigrationManager` with the connection it refers to. -/
structure MigrationManager where
  db : Database
  executedMigrations : Finset Text

namespace MigrationManager

/-- A member function: it may change the manager, and return or throw. -/
abbrev Action := ProofLib.Throwing MigrationManager Text

/-- A call of the connection. -/
def onDb (call : Database → Except Text Unit × Database) : Action Unit := fun m =>
  let (result, db) := call m.db
  (result, { m with db })

/-- The query of the constructor. -/
def selectNames : Text := "SELECT name FROM migrations;"

/-- A pass of the loop in the constructor: a row without the column `name` is only logged. -/
def loadName (names : Finset Text) (row : TextMap) : Finset Text :=
  match row[("name" : Text)]? with
  | some name => insert name names
  | none => names

/-- The loop of the constructor. -/
def loadNames (rows : List TextMap) : Finset Text := rows.foldl loadName ∅

/-- The constructor. What its handler throws is a copy of the static type of `e`, so the text of
the exception is lost. -/
def ofDatabase (pqEscapeLiteral : Text → Option Text) (db : Database) :
    Except Text MigrationManager × Database :=
  match Database.queryToVector pqEscapeLiteral db selectNames [] with
  | (.ok rows, db) => (.ok ⟨db, loadNames rows⟩, db)
  | (.error _, db) => (.error "std::exception", db)

/-- `isMigrationExecuted`. -/
def isMigrationExecuted (m : MigrationManager) (name : Text) : Bool :=
  decide (name ∈ m.executedMigrations)

/-- The statement that enters a row. -/
def insertRow (name : Text) : Text :=
  ("INSERT INTO migrations (name) VALUES ('" : Text) ++ name ++ ("');" : Text)

/-- The statement that deletes the rows of a name. -/
def deleteRow (name : Text) : Text :=
  ("DELETE FROM migrations WHERE name = '" : Text) ++ name ++ ("';" : Text)

/-- `markMigrationAsExecuted`. -/
def markMigrationAsExecuted (name : Text) : Action Unit := do
  onDb (fun db => db.execute (insertRow name))
  modify (fun m => { m with executedMigrations := insert name m.executedMigrations })

/-- `unmarkMigrationAsExecuted`. -/
def unmarkMigrationAsExecuted (name : Text) : Action Unit := do
  onDb (fun db => db.execute (deleteRow name))
  modify (fun m => { m with executedMigrations := m.executedMigrations.erase name })

/-- `executeQueries`, and the same loop in `migrate`. -/
def executeQueries (queries : List Text) : Action Unit :=
  queries.forM (fun query => onDb (fun db => db.execute query))

/-- The savepoint of a migration. -/
def savepointName (name : Text) : Text := ("migration_" : Text) ++ name

/-- `try { … } catch (...) {}`. -/
def swallow (x : Action Unit) : Action Unit := tryCatch x (fun _ => pure ())

/-- What `migrate` does in its `try` block before `commit`. -/
def applyUp (M : Migration) : Action Unit := do
  onDb (fun db => db.transaction "")
  onDb (fun db => db.transaction (savepointName M.name))
  executeQueries M.up
  -- the name is in the set before `COMMIT` is sent
  markMigrationAsExecuted M.name

/-- The handler of `migrate`. -/
def undoUp (M : Migration) (e : Text) : Action Unit := do
  let m ← get
  if m.db.isInTransaction then
    swallow (onDb (fun db => db.rollback (savepointName M.name)))
    swallow (onDb (fun db => db.rollback ""))
  throw e

/-- `migrate`. -/
def migrate (M : Migration) : Action Unit := do
  let m ← get
  if m.isMigrationExecuted M.name then
    pure ()
  else
    tryCatch
      (do
        applyUp M
        onDb (fun db => db.commit))
      (undoUp M)

/-- `migrateAll`: the calls in order, and an exception is only logged. -/
def migrateAll (Ms : List Migration) : Action Unit :=
  tryCatch (Ms.forM migrate) (fun _ => pure ())

/-- What `rollback` does in its `try` block before `commit`. -/
def applyDown (M : Migration) : Action Unit := do
  onDb (fun db => db.transaction "")
  onDb (fun db => db.execute M.down)
  unmarkMigrationAsExecuted M.name

/-- The handler of `rollback`. -/
def undoDown (e : Text) : Action Unit := do
  swallow (onDb (fun db => db.rollback ""))
  throw e

/-- `rollback`. -/
def rollback (M : Migration) : Action Unit := do
  let m ← get
  if m.isMigrationExecuted M.name then
    tryCatch
      (do
        applyDown M
        onDb (fun db => db.commit))
      undoDown
  else
    pure ()

end MigrationManager

end Brazier
