import Brazier.Database.Models.Escaping

/-!
# The attributes of a model

What the operations of `include/brazier/Database/Models/Model.hpp` do to `attributes`, next to the
statements that they send. The hooks `validate`, `beforeSave` and `afterSave` are those of the base
class: they return `true` and do nothing.
-/

namespace Brazier

/-- The static members of a model class, with `fillable`. -/
structure FillableClass extends ModelClass where
  fillable : List Text

namespace Model

/-- `setAttribute`. -/
def setAttribute (cls : ModelClass) (attributes : TextMap) (key value : Text) : TextMap :=
  if isField cls key then attributes.insert key value else attributes

/-- `isFillable`. -/
def isFillable (cls : FillableClass) (field : Text) : Bool :=
  cls.fillable.contains field

/-- One entry of the data in `create`. -/
def createField (cls : FillableClass) (withFields : Bool) (attributes : TextMap)
    (key value : Text) : TextMap :=
  if isField cls.toModelClass key then
    if withFields || isFillable cls key then setAttribute cls.toModelClass attributes key value
    else attributes
  else attributes

/-- `create`. -/
def create (cls : FillableClass) (data : TextMap) (withFields : Bool) : TextMap :=
  data.foldl (createField cls withFields) ∅

/-- One entry of the data in `fill`. -/
def fillField (cls : FillableClass) (attributes : TextMap) (key value : Text) : TextMap :=
  if isFillable cls key then setAttribute cls.toModelClass attributes key value else attributes

/-- `fill`. -/
def fill (cls : FillableClass) (attributes data : TextMap) : TextMap :=
  data.foldl (fillField cls) attributes

/-- The attributes after the row of an `INSERT`. -/
def writeBack (cls : ModelClass) (attributes row : TextMap) : TextMap :=
  match row[cls.primaryKey]? with
  | some key => attributes.insert cls.primaryKey key
  | none => attributes

/-- The attributes that `save` sends. -/
def savedValues (cls : ModelClass) (attributes : TextMap) : TextMap :=
  attributes.filter fun key _ => key ≠ cls.primaryKey

/-- What `save` returns, with the attributes afterwards. The reply is the first row of the answer to
the statement that it sends, or what the call has thrown. -/
def saved (cls : ModelClass) (attributes : TextMap) (reply : Except Text TextMap) :
    Bool × TextMap :=
  if (savedValues cls attributes).isEmpty then (false, attributes)
  else
    match reply with
    | .error _ => (false, attributes)
    | .ok row =>
        if isPresent attributes cls.primaryKey then (true, attributes)
        else (true, writeBack cls attributes row)

/-- `find`. -/
def find (cls : ModelClass) (id : Int) : List Database.Call :=
  [.queryToVector (((SQLQueryBuilder.ofTable cls.tableName).where
    (cls.primaryKey ++ (" = " : Text) ++ intText id) "AND").setLimit 1).get []]

/-- `deleteById`. -/
def deleteById (pqEscapeLiteral : Text → Option Text) (cls : ModelClass) (id : Int) :
    List Database.Call :=
  [.execute (((SQLQueryBuilder.ofTable cls.tableName).delete).where
    (("id = " : Text) ++ SQLString.escapeString pqEscapeLiteral (intText id)) "AND").get]

/-! ## The values that are sent -/

/-- `save` sends the attributes but the primary key, escaped. -/
theorem saveValues_eq (pqEscapeLiteral : Text → Option Text) (cls : ModelClass)
    (attributes : TextMap) :
    saveValues pqEscapeLiteral cls attributes =
      escapeValues pqEscapeLiteral (savedValues cls attributes) := rfl

theorem getElem?_savedValues (cls : ModelClass) (attributes : TextMap) (key : Text) :
    (savedValues cls attributes)[key]? =
      if key = cls.primaryKey then none else attributes[key]? := by
  unfold savedValues
  rw [Std.ExtTreeMap.getElem?_filter']
  by_cases hkey : key = cls.primaryKey
  · simp [hkey]
  · cases attributes[key]? <;> simp [hkey, Option.filter]

/-- Escaping leaves no value out. -/
theorem isEmpty_escapeValues (pqEscapeLiteral : Text → Option Text) (values : TextMap) :
    (escapeValues pqEscapeLiteral values).isEmpty = values.isEmpty := by
  rw [Bool.eq_iff_iff, isEmpty_iff_no_key, isEmpty_iff_no_key]
  unfold escapeValues
  simp only [Std.ExtTreeMap.getElem?_map, Option.isSome_map]

/-! ## What is found after a change -/

theorem getElem?_setAttribute (cls : ModelClass) (attributes : TextMap) (key value k : Text) :
    (setAttribute cls attributes key value)[k]? =
      if key ∈ cls.fields ∧ key = k then some value else attributes[k]? := by
  unfold setAttribute isField
  by_cases hfield : key ∈ cls.fields
  · rw [if_pos (List.contains_iff_mem.mpr hfield), getElem?_insert]
    simp [hfield]
  · rw [if_neg (fun h => hfield (List.contains_iff_mem.mp h))]
    simp [hfield]

theorem getElem?_writeBack (cls : ModelClass) (attributes row : TextMap) (k : Text) :
    (writeBack cls attributes row)[k]? =
      if cls.primaryKey = k ∧ row[k]? ≠ none then row[k]? else attributes[k]? := by
  unfold writeBack
  cases hrow : row[cls.primaryKey]? with
  | none =>
      rw [if_neg]
      intro h
      rw [h.1] at hrow
      exact h.2 hrow
  | some key =>
      dsimp only
      rw [getElem?_insert]
      by_cases hk : cls.primaryKey = k
      · rw [if_pos hk, ← hk, hrow]
        simp
      · rw [if_neg hk, if_neg fun h => hk h.1]

end Model

end Brazier
