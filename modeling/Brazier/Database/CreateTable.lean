import Brazier.Database.SQLSchemaBuilder

/-!
# The text of a table definition

`SQLSchemaBuilder::CreateTable` of `src/Database/SQLShemaBuilder.cpp` statement by statement, with
the loops that decide about each separator on the spot. `createTableQuery_eq` says that it writes
the text of `createTable`, and `createTable_joined` what that is after any calls.
-/

namespace Brazier

namespace SQLSchemaBuilder

/-- A loop that writes the items, and a separator behind an item that is not the last, or behind
which more follows. In the loop the size is not zero, so that `size() - 1` is a difference. -/
def writeItems (write : Text → Text) (follows : Bool) (items : List Text) (i : Nat)
    (query : Text) : Text :=
  if h : i < items.length then
    let query := query ++ write items[i]
    let query := if i < items.length - 1 || follows then query ++ (", " : Text) else query
    writeItems write follows items (i + 1) query
  else query
  termination_by items.length - i

/-- `CreateTable`. -/
def createTableQuery (b : SQLSchemaBuilder) : Text :=
  let query := ("CREATE TABLE " : Text) ++ b.table ++ (" (" : Text)
  let query := writeItems id (!b.primaryKeys.isEmpty || !b.foreignKeys.isEmpty) b.columns 0 query
  let query :=
    if !b.primaryKeys.isEmpty then
      let query := query ++ ("PRIMARY KEY (" : Text)
      let query := writeItems id false b.primaryKeys 0 query
      let query := query ++ (")" : Text)
      if !b.foreignKeys.isEmpty then query ++ (", " : Text) else query
    else query
  let query := writeItems foreignKey false b.foreignKeys 0 query
  query ++ (");" : Text)

/-- A loop writes the items that are left with separators between them, and one more at the end
where more follows. -/
theorem writeItems_eq (write : Text → Text) (follows : Bool) (items : List Text) (i : Nat)
    (query : Text) :
    writeItems write follows items i query =
      query ++ joinWith ", " ((items.drop i).map write) ++
        if i < items.length ∧ follows = true then (", " : Text) else [] := by
  fun_induction writeItems write follows items i query with
  | case1 i query hi query₁ query₂ ih =>
      rw [ih, List.drop_eq_getElem_cons hi, List.map_cons]
      by_cases hlast : i + 1 < items.length
      · -- another item follows, so there is a separator in front of it
        have hsep : query₂ = query ++ write items[i] ++ (", " : Text) :=
          if_pos (by simp; omega)
        have hjoin : ∀ item next (rest : List Text), joinWith ", " (item :: next :: rest) =
            item ++ (", " : Text) ++ joinWith ", " (next :: rest) := fun _ _ _ => rfl
        rw [hsep, List.drop_eq_getElem_cons hlast, List.map_cons, hjoin,
          if_congr (and_iff_right hlast) rfl rfl, if_congr (and_iff_right hi) rfl rfl]
        simp only [List.append_assoc]
      · have hdrop : items.drop (i + 1) = [] := List.drop_eq_nil_of_le (by omega)
        rw [hdrop, List.map_nil, joinWith, joinWith,
          if_neg (fun h => hlast h.1), if_congr (and_iff_right hi) rfl rfl]
        have hend : ¬ i < items.length - 1 := by omega
        show (if _ then query₁ ++ _ else query₁) ++ [] ++ [] = _
        cases follows <;> simp [hend, query₁]
  | case2 i query hi =>
      rw [List.drop_eq_nil_of_le (by omega), if_neg (fun h => hi h.1)]
      simp [joinWith]

/-- The loops write the text that `createTable` puts together. -/
theorem createTableQuery_eq (b : SQLSchemaBuilder) : b.createTableQuery = b.createTable := by
  unfold createTableQuery createTable columnsText primaryKeyText primaryKey
  simp only [writeItems_eq, List.drop_zero, List.map_id, List.length_pos_iff]
  cases b.primaryKeys with
  | nil => cases b.foreignKeys <;> simp [joinWith]
  | cons key keys => cases b.foreignKeys <;> simp [joinWith]

/-! ## Calls -/

/-- A call that adds to a table definition. -/
inductive SchemaCall where
  | addColumn (columnDefinition : Text)
  | addPrimaryKey (column : Text)
  | addForeignKey (column referenceTable referenceColumn : Text)
  deriving DecidableEq

/-- One call. -/
def call (b : SQLSchemaBuilder) : SchemaCall → SQLSchemaBuilder
  | .addColumn columnDefinition => b.addColumn columnDefinition
  | .addPrimaryKey column => b.addPrimaryKey column
  | .addForeignKey column referenceTable referenceColumn =>
      b.addForeignKey column referenceTable referenceColumn

/-- The builder after some calls. -/
def build (table : Text) (calls : List SchemaCall) : SQLSchemaBuilder :=
  calls.foldl call (ofTable table)

namespace SchemaCall

/-- The column definition that a call adds. -/
def column? : SchemaCall → Option Text
  | addColumn columnDefinition => some columnDefinition
  | _ => none

/-- The key column that a call adds. -/
def key? : SchemaCall → Option Text
  | addPrimaryKey column => some column
  | _ => none

/-- The foreign-key clause that a call adds. -/
def clause? : SchemaCall → Option Text
  | addForeignKey column referenceTable referenceColumn =>
      some (("(" : Text) ++ column ++ (")" : Text) ++ (" REFERENCES " : Text) ++ referenceTable ++
        ("(" : Text) ++ referenceColumn ++ (")" : Text))
  | _ => none

end SchemaCall

open SchemaCall

/-- The parts of a table definition, in their order. -/
def definitionParts (calls : List SchemaCall) : List Text :=
  calls.filterMap column? ++
    (if calls.filterMap key? = [] then []
      else [("PRIMARY KEY (" : Text) ++ List.intercalate (", " : Text) (calls.filterMap key?) ++
        (")" : Text)]) ++
    (calls.filterMap clause?).map fun clause => ("FOREIGN KEY " : Text) ++ clause

/-- A call adds to the list of its kind. -/
theorem call_eq (b : SQLSchemaBuilder) (c : SchemaCall) :
    b.call c = ⟨b.table, b.columns ++ c.column?.toList, b.primaryKeys ++ c.key?.toList,
      b.foreignKeys ++ c.clause?.toList⟩ := by
  cases c <;> simp [call, addColumn, addPrimaryKey, addForeignKey, column?, key?, clause?]

/-- After some calls each list has what was added to it, in the order of the calls. -/
theorem build_eq (table : Text) (calls : List SchemaCall) :
    build table calls =
      ⟨table, calls.filterMap column?, calls.filterMap key?, calls.filterMap clause?⟩ := by
  have hfold : ∀ b : SQLSchemaBuilder, calls.foldl call b =
      ⟨b.table, b.columns ++ calls.filterMap column?, b.primaryKeys ++ calls.filterMap key?,
        b.foreignKeys ++ calls.filterMap clause?⟩ := by
    induction calls with
    | nil => simp
    | cons c calls ih =>
        intro b
        have hcons : ∀ f : SchemaCall → Option Text,
            (f c).toList ++ calls.filterMap f = (c :: calls).filterMap f := by
          intro f
          rw [List.filterMap_cons]
          cases f c <;> rfl
        rw [List.foldl_cons, ih, call_eq]
        simp only [List.append_assoc, hcons]
  rw [build, hfold, ofTable, List.nil_append, List.nil_append, List.nil_append]

/-- After any calls in any order the parts of the table definition stand in one list, with one
separator between neighbours and none at the end. -/
theorem createTable_joined (table : Text) (calls : List SchemaCall) :
    (build table calls).createTableQuery =
      ("CREATE TABLE " : Text) ++ table ++ (" (" : Text) ++
        List.intercalate (", " : Text) (definitionParts calls) ++ (");" : Text) := by
  have hparts : (build table calls).parts = definitionParts calls := by
    rw [build_eq]
    unfold parts definitionParts primaryKey
    dsimp only
    rw [joinWith_eq_intercalate]
    congr 1
  rw [createTableQuery_eq, createTable_eq, hparts, joinWith_eq_intercalate, build_eq]

end SQLSchemaBuilder

end Brazier
