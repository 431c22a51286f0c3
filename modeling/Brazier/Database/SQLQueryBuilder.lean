import Brazier.Text

/-!
# The query builder

`SQLQueryBuilder` of `src/Database/SQLQueryBuilder.cpp`. `get` looks at the insert values first,
then at the update values, then at the delete flag, and builds a `SELECT` otherwise. Column names
and values are copied into the text as they are.
-/

namespace Brazier

/-- A `SQLQueryBuilder`. -/
structure SQLQueryBuilder where
  table : Text
  selectColumns : List Text
  whereConditions : List Text
  orderByColumns : TextMap
  groupByColumns : List Text
  limit : Text
  offset : Text
  joins : TextMap
  insertValues : TextMap
  updateValues : TextMap
  isDeleteQuery : Bool
  isFirstConditionInGroup : Bool

namespace SQLQueryBuilder

/-- The constructor. -/
def ofTable (table : Text) : SQLQueryBuilder where
  table := table
  selectColumns := []
  whereConditions := []
  orderByColumns := ∅
  groupByColumns := []
  limit := []
  offset := []
  joins := ∅
  insertValues := ∅
  updateValues := ∅
  isDeleteQuery := false
  isFirstConditionInGroup := true

/-- `Select`. -/
def select (b : SQLQueryBuilder) (columns : List Text) : SQLQueryBuilder :=
  { b with selectColumns := columns }

/-- `Delete`. -/
def delete (b : SQLQueryBuilder) : SQLQueryBuilder :=
  { b with isDeleteQuery := true }

/-- `Where`: a condition that is not the first of its group carries the logical operator. -/
def «where» (b : SQLQueryBuilder) (condition logicalOperator : Text) : SQLQueryBuilder :=
  if b.whereConditions ≠ [] ∧ b.isFirstConditionInGroup = false then
    { b with
      whereConditions := b.whereConditions ++ [logicalOperator ++ (" " : Text) ++ condition] }
  else
    { b with
      whereConditions := b.whereConditions ++ [condition]
      isFirstConditionInGroup := false }

/-- `BeginGroup`. -/
def beginGroup (b : SQLQueryBuilder) (logicalOperator : Text) : SQLQueryBuilder :=
  if b.whereConditions ≠ [] then
    { b with
      whereConditions := b.whereConditions ++ [logicalOperator ++ (" (" : Text)]
      isFirstConditionInGroup := true }
  else
    { b with
      whereConditions := b.whereConditions ++ [("(" : Text)]
      isFirstConditionInGroup := true }

/-- `EndGroup`. -/
def endGroup (b : SQLQueryBuilder) : SQLQueryBuilder :=
  { b with
    whereConditions := b.whereConditions ++ [(")" : Text)]
    isFirstConditionInGroup := false }

/-- `OrderBy`. -/
def orderBy (b : SQLQueryBuilder) (colDir : TextMap) : SQLQueryBuilder :=
  { b with orderByColumns := colDir }

/-- `GroupBy`. -/
def groupBy (b : SQLQueryBuilder) (columns : List Text) : SQLQueryBuilder :=
  { b with groupByColumns := columns }

/-- `Limit`. -/
def setLimit (b : SQLQueryBuilder) (value : Int) : SQLQueryBuilder :=
  { b with limit := (" LIMIT " : Text) ++ intText value }

/-- `Offset`. -/
def setOffset (b : SQLQueryBuilder) (value : Int) : SQLQueryBuilder :=
  { b with offset := (" OFFSET " : Text) ++ intText value }

/-- `Join`: the clause replaces an earlier one of the same table. -/
def join (b : SQLQueryBuilder) (table onCondition joinType : Text) : SQLQueryBuilder :=
  { b with
    joins := b.joins.insert table
      (joinType ++ (" JOIN " : Text) ++ table ++ (" ON " : Text) ++ onCondition) }

/-- `Insert`. -/
def insert (b : SQLQueryBuilder) (values : TextMap) : SQLQueryBuilder :=
  { b with insertValues := values }

/-- `Update`. -/
def update (b : SQLQueryBuilder) (values : TextMap) : SQLQueryBuilder :=
  { b with updateValues := values }

/-- The `WHERE` clause, the same in all queries. -/
def whereText (b : SQLQueryBuilder) : Text :=
  if b.whereConditions = [] then [] else (" WHERE " : Text) ++ joinWith " " b.whereConditions

/-- The `GROUP BY` clause. -/
def groupByText (b : SQLQueryBuilder) : Text :=
  if b.groupByColumns = [] then [] else (" GROUP BY " : Text) ++ joinWith ", " b.groupByColumns

/-- The `ORDER BY` clause. -/
def orderByText (b : SQLQueryBuilder) : Text :=
  if b.orderByColumns.isEmpty then []
  else (" ORDER BY " : Text) ++
    joinWith ", " (b.orderByColumns.toList.map (fun col => col.1 ++ (" " : Text) ++ col.2))

/-- The `INSERT` text of `get`. -/
def insertText (b : SQLQueryBuilder) : Text :=
  ("INSERT INTO " : Text) ++ b.table ++ (" (" : Text) ++
    joinWith ", " (b.insertValues.toList.map Prod.fst) ++ (") VALUES (" : Text) ++
    joinWith ", " (b.insertValues.toList.map Prod.snd) ++ (")" : Text)

/-- The `UPDATE` text of `get`. -/
def updateText (b : SQLQueryBuilder) : Text :=
  ("UPDATE " : Text) ++ b.table ++ (" SET " : Text) ++
    joinWith ", " (b.updateValues.toList.map (fun col => col.1 ++ (" = " : Text) ++ col.2)) ++
    b.whereText

/-- The `DELETE` text of `get`. -/
def deleteText (b : SQLQueryBuilder) : Text :=
  ("DELETE FROM " : Text) ++ b.table ++ b.whereText ++ b.orderByText ++ b.limit

/-- The `SELECT` text of `get`. -/
def selectText (b : SQLQueryBuilder) : Text :=
  ("SELECT " : Text) ++
    (if b.selectColumns = [] then ("*" : Text) else joinWith ", " b.selectColumns) ++
    (" FROM " : Text) ++ b.table ++
    (b.joins.toList.map (fun clause => (" " : Text) ++ clause.2)).flatten ++
    b.whereText ++ b.groupByText ++ b.orderByText ++ b.limit ++ b.offset

/-- `get`. -/
def get (b : SQLQueryBuilder) : Text :=
  if b.insertValues.isEmpty = false then b.insertText
  else if b.updateValues.isEmpty = false then b.updateText
  else if b.isDeleteQuery then b.deleteText
  else b.selectText

/-! ## The text of a query with one condition -/

/-- The first condition of a query carries no operator. -/
theorem where_of_first {b : SQLQueryBuilder} (h : b.whereConditions = [])
    (condition logicalOperator : Text) :
    b.where condition logicalOperator =
      { b with whereConditions := [condition], isFirstConditionInGroup := false } := by
  unfold SQLQueryBuilder.where
  rw [if_neg (fun hc => hc.1 h), h]
  simp only [List.nil_append]

/-- The `WHERE` clause of one condition. -/
theorem whereText_single {b : SQLQueryBuilder} {condition : Text}
    (h : b.whereConditions = [condition]) : b.whereText = (" WHERE " : Text) ++ condition := by
  unfold whereText
  rw [h, if_neg (List.cons_ne_nil _ _), joinWith]

/-- A query with update values and nothing to insert. -/
theorem get_of_update {b : SQLQueryBuilder} (hinsert : b.insertValues = ∅)
    (hupdate : b.updateValues.isEmpty = false) : b.get = b.updateText := by
  simp [get, hinsert, hupdate]

/-- A deletion with nothing to insert or update. -/
theorem get_of_delete {b : SQLQueryBuilder} (hinsert : b.insertValues = ∅)
    (hupdate : b.updateValues = ∅) (hdelete : b.isDeleteQuery = true) : b.get = b.deleteText := by
  simp [get, hinsert, hupdate, hdelete]

/-- A query with nothing to insert, update or delete. -/
theorem get_of_select {b : SQLQueryBuilder} (hinsert : b.insertValues = ∅)
    (hupdate : b.updateValues = ∅) (hdelete : b.isDeleteQuery = false) :
    b.get = b.selectText := by
  simp [get, hinsert, hupdate, hdelete]

/-- An `UPDATE` with one condition ends with it. -/
theorem get_update_where (table : Text) {values : TextMap} (hvalues : values.isEmpty = false)
    (condition logicalOperator : Text) :
    (((ofTable table).update values).where condition logicalOperator).get =
      ("UPDATE " : Text) ++ table ++ (" SET " : Text) ++
        joinWith ", " (values.toList.map (fun col => col.1 ++ (" = " : Text) ++ col.2)) ++
        ((" WHERE " : Text) ++ condition) := by
  have hwhere := where_of_first (b := (ofTable table).update values) rfl condition logicalOperator
  rw [hwhere, get_of_update rfl hvalues]
  unfold updateText
  rw [whereText_single rfl]
  simp only [update, ofTable]

/-- A `DELETE` with one condition ends with it. -/
theorem get_delete_where (table condition logicalOperator : Text) :
    (((ofTable table).delete).where condition logicalOperator).get =
      ("DELETE FROM " : Text) ++ table ++ ((" WHERE " : Text) ++ condition) := by
  have hwhere := where_of_first (b := (ofTable table).delete) rfl condition logicalOperator
  rw [hwhere, get_of_delete rfl rfl rfl]
  unfold deleteText orderByText
  rw [whereText_single rfl]
  simp [delete, ofTable]

/-- A `SELECT` with one condition ends with it. -/
theorem get_select_where (table condition logicalOperator : Text) :
    ((ofTable table).where condition logicalOperator).get =
      ("SELECT " : Text) ++ ("*" : Text) ++ (" FROM " : Text) ++ table ++
        ((" WHERE " : Text) ++ condition) := by
  have hwhere := where_of_first (b := ofTable table) rfl condition logicalOperator
  rw [hwhere, get_of_select rfl rfl rfl]
  unfold selectText groupByText orderByText
  rw [whereText_single rfl]
  simp [ofTable]

end SQLQueryBuilder

end Brazier
