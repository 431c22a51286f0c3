import Brazier.Database.Models.ModelObject

/-!
# The rows behind the models

What the statements of a model mean to the database. A table has rows under positive keys; the key
column is the primary key of the class, and a row gives values to other columns. `RowRequest` is a
statement before its values are escaped and it is written out, and `save_eq` and `delete_eq_request`
say that the operations send the text of such a request. Escaped literals stand for their values.
-/

namespace Brazier

namespace Model

/-- The columns of a row but the key column. -/
abbrev Row := Text → Option Text

/-- The rows of a table under their keys. -/
abbrev Rows := Nat → Option Row

/-- A statement about the rows of a table. -/
inductive RowRequest where
  | insert (values : TextMap)
  | update (values : TextMap) (id : Text)
  | delete (column id : Text)

/-- The call that sends a request of a model class. -/
def RowRequest.call (pqEscapeLiteral : Text → Option Text) (cls : ModelClass) :
    RowRequest → Database.Call
  | .insert values =>
      .queryMap (((SQLQueryBuilder.ofTable cls.tableName).insert
        (escapeValues pqEscapeLiteral values)).get ++ (" RETURNING " : Text) ++ cls.primaryKey) []
  | .update values id =>
      .execute (((SQLQueryBuilder.ofTable cls.tableName).update
        (escapeValues pqEscapeLiteral values)).where (cls.primaryKey ++ (" = " : Text) ++ id)
          "AND").get
  | .delete column id =>
      .execute (((SQLQueryBuilder.ofTable cls.tableName).delete).where
        (column ++ (" = " : Text) ++ SQLString.escapeString pqEscapeLiteral id) "AND").get

/-- The request of `save`. -/
def saveRequest (cls : ModelClass) (attributes : TextMap) : Option RowRequest :=
  if (savedValues cls attributes).isEmpty then none
  else if isPresent attributes cls.primaryKey then
    some (.update (savedValues cls attributes) (attributes.getD cls.primaryKey []))
  else some (.insert (savedValues cls attributes))

/-- The request of `delete_`. -/
def deleteRequest (attributes : TextMap) : Option RowRequest :=
  if isPresent attributes "id" then some (.delete "id" (attributes.getD "id" [])) else none

/-- What `save` sends is its request. -/
theorem save_eq (pqEscapeLiteral : Text → Option Text) (cls : ModelClass) (attributes : TextMap) :
    save pqEscapeLiteral cls attributes =
      ((saveRequest cls attributes).map (RowRequest.call pqEscapeLiteral cls)).toList := by
  unfold save saveRequest
  dsimp only
  rw [saveValues_eq, isEmpty_escapeValues]
  split
  · rfl
  · split
    · rfl
    · rfl

/-- What `delete_` sends is its request. -/
theorem delete_eq_request (pqEscapeLiteral : Text → Option Text) (cls : ModelClass)
    (attributes : TextMap) :
    delete_ pqEscapeLiteral cls attributes =
      ((deleteRequest attributes).map (RowRequest.call pqEscapeLiteral cls)).toList := by
  rw [delete_eq]
  unfold deleteRequest
  rw [Std.ExtTreeMap.getD_eq_getD_getElem?]
  split
  · rfl
  · rfl

/-! ## What a request does -/

/-- The value of a column in the row under a key. -/
def cell (cls : ModelClass) (key : Nat) (row : Row) (column : Text) : Option Text :=
  if column = cls.primaryKey then some (natText key) else row column

/-- The values written over a row. -/
def overwrite (values : TextMap) (row : Row) : Row := fun column => values[column]?.or (row column)

/-- The rows after a request that is accepted, with the first row of the answer. An inserted row is
put under the key; it has to be a new one. -/
def RowRequest.perform (cls : ModelClass) (key : Nat) (rows : Rows) :
    RowRequest → Except Text TextMap × Rows
  | .insert values =>
      if key = 0 ∨ (rows key).isSome then
        (.error ("duplicate key value violates unique constraint" : Text), rows)
      else
        (.ok ((∅ : TextMap).insert cls.primaryKey (natText key)),
          Function.update rows key (some (overwrite values fun _ => none)))
  | .update values id =>
      (.ok ∅, fun k => if natText k = id then (rows k).map (overwrite values) else rows k)
  | .delete column id =>
      (.ok ∅, fun k => (rows k).filter fun row => cell cls k row column ≠ some id)

/-- A statement that the database accepts, with the key for a new row, or refuses. -/
def RowRequest.answer (cls : ModelClass) (key : Option Nat) (rows : Rows) (request : RowRequest) :
    Except Text TextMap × Rows :=
  match key with
  | some key => request.perform cls key rows
  | none => (.error ("SQL error: refused" : Text), rows)

/-- The row under a key holds the attributes. -/
def Holds (cls : ModelClass) (attributes : TextMap) (rows : Rows) (key : Nat) : Prop :=
  ∃ row, rows key = some row ∧
    ∀ column value : Text, attributes[column]? = some value →
      cell cls key row column = some value

end Model

end Brazier
