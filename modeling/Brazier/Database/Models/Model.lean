import Brazier.Database.Database
import Brazier.Database.SQLQueryBuilder

/-!
# The statements of the models

`Model` of `include/brazier/Database/Models/Model.hpp`. For each operation: the calls it makes on
its connection, in order, with the text of the statement of each. An operation that sends several
statements stops at the first call that throws. `save` is taken after `validate` and `beforeSave`,
and the connection pointer is there.
-/

namespace Brazier

/-- The static members of a model class `Derived`. -/
structure ModelClass where
  tableName : Text
  primaryKey : Text
  fields : List Text

namespace Model

/-- `getAttribute`. -/
def getAttribute (attributes : TextMap) (key : Text) : Except Text Text :=
  match attributes[key]? with
  | some value => .ok value
  | none => .error (("Attribute '" : Text) ++ key ++ ("' not found." : Text))

/-- `isField`. -/
def isField (cls : ModelClass) (field : Text) : Bool :=
  cls.fields.contains field

/-- The attribute is there and not empty. -/
def isPresent (attributes : TextMap) (key : Text) : Bool :=
  match getAttribute attributes key with
  | .ok value => value ≠ []
  | .error _ => false

/-- The values of a map, escaped. -/
def escapeValues (pqEscapeLiteral : Text → Option Text) (values : TextMap) : TextMap :=
  values.map (fun _ value => SQLString.escapeString pqEscapeLiteral value)

/-- The insert values of `save`: every attribute but the primary key, escaped. -/
def saveValues (pqEscapeLiteral : Text → Option Text) (cls : ModelClass) (attributes : TextMap) :
    TextMap :=
  escapeValues pqEscapeLiteral (attributes.filter (fun key _ => key ≠ cls.primaryKey))

/-- `save`: with an id, the id stands in the condition as it is. -/
def save (pqEscapeLiteral : Text → Option Text) (cls : ModelClass) (attributes : TextMap) :
    List Database.Call :=
  let insertValues := saveValues pqEscapeLiteral cls attributes
  if insertValues.isEmpty then []
  else if isPresent attributes cls.primaryKey then
    -- `insertValues` are the update values here
    [.execute (((SQLQueryBuilder.ofTable cls.tableName).update insertValues).where
      (cls.primaryKey ++ (" = " : Text) ++ attributes.getD cls.primaryKey []) "AND").get]
  else
    [.queryMap (((SQLQueryBuilder.ofTable cls.tableName).insert insertValues).get ++
      (" RETURNING " : Text) ++ cls.primaryKey) []]

/-- `update`. -/
def update (pqEscapeLiteral : Text → Option Text) (cls : ModelClass) (id : Int)
    (data : TextMap) : List Database.Call :=
  let updateValues :=
    escapeValues pqEscapeLiteral (data.filter (fun key _ => isField cls key))
  if updateValues.isEmpty then []
  else
    [.execute (((SQLQueryBuilder.ofTable cls.tableName).update updateValues).where
      (("id = " : Text) ++ SQLString.escapeString pqEscapeLiteral (intText id)) "AND").get]

/-- `delete_`. -/
def delete_ (pqEscapeLiteral : Text → Option Text) (cls : ModelClass) (attributes : TextMap) :
    List Database.Call :=
  match getAttribute attributes "id" with
  | .error _ => []
  | .ok [] => []
  | .ok id =>
      [.execute (((SQLQueryBuilder.ofTable cls.tableName).delete).where
        (("id = " : Text) ++ SQLString.escapeString pqEscapeLiteral id) "AND").get]

/-- One field of a model on its way into the batch update: the primary key, missing and empty
attributes stay out. -/
def addField (cls : ModelClass) (attributes data : TextMap) (key : Text) : TextMap :=
  if key = cls.primaryKey then data
  else
    match getAttribute attributes key with
    | .ok [] => data
    | .ok value => data.insert key value
    | .error _ => data

/-- The update data of a model in `saveMany`. -/
def updateData (cls : ModelClass) (attributes : TextMap) : TextMap :=
  cls.fields.foldl (addField cls attributes) ∅

/-- The statement of one model in the batch update of `saveMany`. -/
def batchUpdateOne (pqEscapeLiteral : Text → Option Text) (cls : ModelClass)
    (attributes : TextMap) : Text :=
  let data := updateData cls attributes
  match getAttribute attributes cls.primaryKey with
  | .error _ => []
  | .ok id =>
      if data.isEmpty then []
      else
        (((SQLQueryBuilder.ofTable cls.tableName).update (escapeValues pqEscapeLiteral data)).where
          (cls.primaryKey ++ (" = " : Text) ++ SQLString.escapeString pqEscapeLiteral id)
          "AND").get ++ ("; " : Text)

/-- The columns of the batch insert of `saveMany`: the non-empty fields of the first model. -/
def insertColumns (cls : ModelClass) (first : TextMap) : List Text :=
  cls.fields.filter (fun key => key ≠ cls.primaryKey && isPresent first key)

/-- A row of the batch insert. A missing attribute throws. -/
def insertRow (pqEscapeLiteral : Text → Option Text) (columns : List Text)
    (attributes : TextMap) : Except Text Text := do
  let cells ← columns.mapM (fun col => do
    let value ← getAttribute attributes col
    return SQLString.escapeString pqEscapeLiteral value)
  return ("(" : Text) ++ joinWith ", " cells ++ (")" : Text)

/-- The batch insert. -/
def batchInsert (pqEscapeLiteral : Text → Option Text) (cls : ModelClass) (columns : List Text)
    (toInsert : List TextMap) : List Database.Call :=
  match toInsert.mapM (insertRow pqEscapeLiteral columns) with
  | .error _ => []
  | .ok rows =>
      [.execute (("INSERT INTO " : Text) ++ cls.tableName ++ (" (" : Text) ++
        joinWith ", " columns ++ (") VALUES " : Text) ++ joinWith ", " rows ++ (";" : Text))]

/-- `saveMany`: models with an id are updated in one batch, the others inserted in one. -/
def saveMany (pqEscapeLiteral : Text → Option Text) (cls : ModelClass) :
    List TextMap → List Database.Call
  | [] => []
  | first :: rest =>
      let models := first :: rest
      let toUpdate := models.filter (fun m => isPresent m cls.primaryKey)
      let toInsert := models.filter (fun m => !isPresent m cls.primaryKey)
      let finalQuery := (toUpdate.map (batchUpdateOne pqEscapeLiteral cls)).flatten
      let columns := insertColumns cls first
      (if finalQuery = [] then [] else [.execute finalQuery]) ++
        (if toInsert = [] ∨ columns = [] then []
        else batchInsert pqEscapeLiteral cls columns toInsert)

/-- `where`. -/
def «where» (cls : ModelClass) (condition : Text) : List Database.Call :=
  [.queryToVector ((SQLQueryBuilder.ofTable cls.tableName).where condition "AND").get []]

/-- One attribute in the condition of `firstOrCreate`: the value stands between quotes as it is. -/
def addCondition (condition key value : Text) : Text :=
  (if condition = [] then [] else condition ++ (" AND " : Text)) ++
    key ++ (" = '" : Text) ++ value ++ ("'" : Text)

/-- The condition of `firstOrCreate`. -/
def firstOrCreateCondition (attributes : TextMap) : Text :=
  attributes.foldl addCondition []

/-- The statement that the body of the template `firstOrCreate` builds; the values of a new model
are not in one. No program sends it: the body hands an argument to `front`, so that it does not
compile where it is instantiated. -/
def firstOrCreate (cls : ModelClass) (attributes _values : TextMap) : List Database.Call :=
  «where» cls (firstOrCreateCondition attributes)

/-- `belongsTo`: the value of the foreign key stands in the condition as it is. -/
def belongsTo (related : ModelClass) (attributes : TextMap) (foreignKey ownerKey : Text) :
    List Database.Call :=
  match getAttribute attributes foreignKey with
  | .error _ => []
  | .ok [] => []
  | .ok foreignValue => «where» related (ownerKey ++ (" = " : Text) ++ foreignValue)

/-- `hasMany`: the value of the local key stands in the condition as it is. -/
def hasMany (related : ModelClass) (attributes : TextMap) (foreignKey localKey : Text) :
    List Database.Call :=
  match getAttribute attributes localKey with
  | .error _ => []
  | .ok [] => []
  | .ok localValue => «where» related (foreignKey ++ (" = " : Text) ++ localValue)

end Model

end Brazier
