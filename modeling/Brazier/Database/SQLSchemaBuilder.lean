import Brazier.Text

/-!
# The schema builder

`SQLSchemaBuilder` of `src/Database/SQLShemaBuilder.cpp`. Names and definitions are copied into the
text as they are. `createTable_eq` says that the separators come out right, whichever of the parts
are there.
-/

namespace Brazier

/-- A `SQLSchemaBuilder`. -/
structure SQLSchemaBuilder where
  table : Text
  columns : List Text
  primaryKeys : List Text
  foreignKeys : List Text

namespace SQLSchemaBuilder

/-- The constructor. -/
def ofTable (table : Text) : SQLSchemaBuilder := ⟨table, [], [], []⟩

/-- `AddColumn`. -/
def addColumn (b : SQLSchemaBuilder) (columnDefinition : Text) : SQLSchemaBuilder :=
  { b with columns := b.columns ++ [columnDefinition] }

/-- `AddPrimaryKey`. -/
def addPrimaryKey (b : SQLSchemaBuilder) (column : Text) : SQLSchemaBuilder :=
  { b with primaryKeys := b.primaryKeys ++ [column] }

/-- `AddForeignKey`. -/
def addForeignKey (b : SQLSchemaBuilder) (column referenceTable referenceColumn : Text) :
    SQLSchemaBuilder :=
  { b with
    foreignKeys := b.foreignKeys ++
      [("(" : Text) ++ column ++ (")" : Text) ++ (" REFERENCES " : Text) ++ referenceTable ++
        ("(" : Text) ++ referenceColumn ++ (")" : Text)] }

/-- `AddIndex`. -/
def addIndex (b : SQLSchemaBuilder) (indexName : Text) (columns : List Text) : Text :=
  ("CREATE INDEX " : Text) ++ indexName ++ (" ON " : Text) ++ b.table ++ (" (" : Text) ++
    joinWith ", " columns ++ (");" : Text)

/-- `AddUniqueConstraint`. -/
def addUniqueConstraint (b : SQLSchemaBuilder) (constraintName : Text) (columns : List Text) :
    Text :=
  ("ALTER TABLE " : Text) ++ b.table ++ (" ADD CONSTRAINT " : Text) ++ constraintName ++
    (" UNIQUE (" : Text) ++ joinWith ", " columns ++ (");" : Text)

/-- The columns in `CreateTable`. -/
def columnsText (b : SQLSchemaBuilder) : Text :=
  joinWith ", " b.columns ++
    if b.columns ≠ [] ∧ (b.primaryKeys ≠ [] ∨ b.foreignKeys ≠ []) then (", " : Text) else []

/-- The primary key. -/
def primaryKey (b : SQLSchemaBuilder) : Text :=
  ("PRIMARY KEY (" : Text) ++ joinWith ", " b.primaryKeys ++ (")" : Text)

/-- The primary key in `CreateTable`. -/
def primaryKeyText (b : SQLSchemaBuilder) : Text :=
  if b.primaryKeys ≠ [] then
    b.primaryKey ++ if b.foreignKeys ≠ [] then (", " : Text) else []
  else []

/-- A foreign key. -/
def foreignKey (key : Text) : Text := ("FOREIGN KEY " : Text) ++ key

/-- `CreateTable`. -/
def createTable (b : SQLSchemaBuilder) : Text :=
  ("CREATE TABLE " : Text) ++ b.table ++ (" (" : Text) ++ b.columnsText ++ b.primaryKeyText ++
    joinWith ", " (b.foreignKeys.map foreignKey) ++ (");" : Text)

/-- `DropTable`. -/
def dropTable (b : SQLSchemaBuilder) : Text :=
  ("DROP TABLE " : Text) ++ b.table ++ (" CASCADE;" : Text)

/-- The parts of a table definition, in their order. -/
def parts (b : SQLSchemaBuilder) : List Text :=
  b.columns ++ (if b.primaryKeys = [] then [] else [b.primaryKey]) ++ b.foreignKeys.map foreignKey

/-- `CreateTable` writes the parts with a separator between any two. -/
theorem createTable_eq (b : SQLSchemaBuilder) :
    b.createTable = ("CREATE TABLE " : Text) ++ b.table ++ (" (" : Text) ++
      joinWith ", " b.parts ++ (");" : Text) := by
  have hparts : b.columnsText ++ b.primaryKeyText ++ joinWith ", " (b.foreignKeys.map foreignKey) =
      joinWith ", " b.parts := by
    unfold columnsText primaryKeyText parts
    rw [List.append_assoc b.columns, joinWith_append, joinWith_append]
    cases b.primaryKeys with
    | nil => cases b.columns <;> cases b.foreignKeys <;> simp [joinWith]
    | cons key keys => cases b.columns <;> cases b.foreignKeys <;> simp [joinWith]
  unfold createTable
  rw [← hparts]
  simp only [List.append_assoc]

end SQLSchemaBuilder

end Brazier
