import Brazier.Database.Models.Aggregates
import Brazier.Database.Models.ObjectServer

/-!
# Objects that are saved and found

The objects of a process and the table of their class. `saved_is_found` follows an object from
`save` to `find`, through any other operations.
-/

namespace Brazier

open ProofLib SQLQueryBuilder

namespace Model

/-! ## The objects -/

/-- The objects of a class in a process, by references, and the rows of its table. -/
structure ObjectStore (ι : Type) where
  objects : ι → TextMap
  rows : Rows

/-- An operation. The server takes its statement, with the key for a new row, or refuses it. -/
inductive ObjectCall (ι : Type) where
  | create (i : ι) (data : TextMap) (withFields : Bool)
  | setAttribute (i : ι) (key value : Text)
  | fill (i : ι) (data : TextMap)
  | save (accepted : Option Nat) (i : ι)
  | find (accepted : Option Nat) (i : ι) (id : Int)
  | update (accepted : Option Nat) (id : Int) (data : TextMap)
  | delete_ (accepted : Option Nat) (i : ι)
  | deleteById (accepted : Option Nat) (id : Int)

namespace ObjectCall

variable {ι : Type}

/-- An id that the operation is given, or that its data has, is one of a key. -/
def Plain (cls : FillableClass) : ObjectCall ι → Prop
  | .create _ data _ | .fill _ data | .update _ _ data =>
      ∀ id : Text, data[cls.primaryKey]? = some id → IsId id
  | .setAttribute _ key value => key = cls.primaryKey → IsId value
  | _ => True

/-- The operation is a deletion that the server takes. -/
def Deletes : ObjectCall ι → Prop
  | .delete_ (some _) _ | .deleteById (some _) _ => True
  | _ => False

/-- The operation is a `save` whose new row is to have the key, or an `update` that assigns it. -/
def Gives (cls : FillableClass) (key : Nat) : ObjectCall ι → Prop
  | .save accepted _ => accepted = some key
  | .update accepted _ data =>
      accepted.isSome ∧ cls.primaryKey ∈ cls.fields ∧ data[cls.primaryKey]? = some (natText key)
  | _ => False

/-- The id of the row that an operation may change. -/
def target (cls : FillableClass) (s : ObjectStore ι) : ObjectCall ι → Option Text
  | .save _ i | .delete_ _ i => (s.objects i)[cls.primaryKey]?
  | .update _ id _ | .deleteById _ id => some (intText id)
  | _ => none

end ObjectCall

namespace ObjectStore

variable {ι : Type} [DecidableEq ι] (pqEscapeLiteral : Text → Option Text) (cls : FillableClass)
  (columns : List Text)

/-- `save` of an object: what it returns, and what is stored afterwards. -/
def save (accepted : Option Nat) (s : ObjectStore ι) (i : ι) : Bool × ObjectStore ι :=
  let (answer, rows) := served pqEscapeLiteral cls.toModelClass columns accepted s.rows
    (Model.save pqEscapeLiteral cls.toModelClass (s.objects i))
  let (result, _) :=
    saveOn pqEscapeLiteral cls.toModelClass (Database.connect [] [answer]) (s.objects i)
  (result.1, ⟨Function.update s.objects i result.2, rows⟩)

/-- What `find` returns: the only model of the query, or none when there are others or the query
throws. -/
def find (accepted : Option Nat) (s : ObjectStore ι) (id : Int) : Option TextMap :=
  let (answer, _) := served pqEscapeLiteral cls.toModelClass columns accepted s.rows
    (Model.find cls.toModelClass id)
  let query := ((ofTable cls.tableName).where
    (cls.primaryKey ++ (" = " : Text) ++ intText id) "AND").setLimit 1
  match (ModelQueryBuilder.get pqEscapeLiteral cls (Database.connect [] [answer]) query).1 with
  | .ok [object] => some object
  | _ => none

/-- One operation. -/
def step (s : ObjectStore ι) : ObjectCall ι → ObjectStore ι
  | .create i data withFields =>
      { s with objects := Function.update s.objects i (Model.create cls data withFields) }
  | .setAttribute i key value =>
      { s with
        objects := Function.update s.objects i
          (Model.setAttribute cls.toModelClass (s.objects i) key value) }
  | .fill i data =>
      { s with objects := Function.update s.objects i (Model.fill cls (s.objects i) data) }
  | .save accepted i => (s.save pqEscapeLiteral cls columns accepted i).2
  | .find accepted i id =>
      match s.find pqEscapeLiteral cls columns accepted id with
      | some object => { s with objects := Function.update s.objects i object }
      | none => s
  | .update accepted id data =>
      { s with
        rows := (served pqEscapeLiteral cls.toModelClass columns accepted s.rows
          (Model.update pqEscapeLiteral cls.toModelClass id data)).2 }
  | .delete_ accepted i =>
      { s with
        rows := (served pqEscapeLiteral cls.toModelClass columns accepted s.rows
          (Model.delete_ pqEscapeLiteral cls.toModelClass (s.objects i))).2 }
  | .deleteById accepted id =>
      { s with
        rows := (served pqEscapeLiteral cls.toModelClass columns accepted s.rows
          (Model.deleteById pqEscapeLiteral cls.toModelClass id)).2 }

/-- The row under a key holds the attributes that can be escaped. -/
def Keeps (columns : List Text) (attributes : TextMap) (rows : Rows) (key : Nat) : Prop :=
  ∃ row, rows key = some row ∧
    ∀ column value : Text, attributes[column]? = some value → pqEscapeLiteral value ≠ none →
      column ∈ columns ∧ cell cls.toModelClass key row column = some value

end ObjectStore

namespace ObjectStore

variable {ι : Type} {pqEscapeLiteral : Text → Option Text} {cls : FillableClass}
  {columns : List Text} {s : ObjectStore ι}

/-! ## What `find` returns -/

/-- The model that `find` makes of a row. -/
def foundObject (cls : FillableClass) (columns : List Text) (key : Nat) (row : Row) : TextMap :=
  Model.create cls (Database.rowMap columns (rowTexts cls.toModelClass columns key row)) true

theorem getElem?_rowMap (columns : List Text) (value : Text → Text) (column : Text) :
    (Database.rowMap columns (columns.map value))[column]? =
      if column ∈ columns then some (value column) else none := by
  rw [Database.rowMap, ← List.map_prod_left_eq_zip]
  exact getElem?_ofEntries_map value columns column

/-- A model that was found has the fields that are columns. -/
theorem getElem?_foundObject (key : Nat) (row : Row) (field : Text) :
    (foundObject cls columns key row)[field]? =
      if field ∈ cls.fields ∧ field ∈ columns then
        some ((cell cls.toModelClass key row field).getD [])
      else none := by
  unfold foundObject rowTexts
  rw [getElem?_create, getElem?_rowMap]
  by_cases hfield : field ∈ cls.fields
  · simp [isField, hfield]
  · simp [isField, hfield]

theorem keyWithText_natText (key : Nat) : keyWithText (natText key) = some key := by
  have hkey : Nat.ofDigitChars 10 (natText key) 0 = key := by
    rw [natText_eq_toDigits, Nat.ofDigitChars_ten_toDigits]
  rw [keyWithText, hkey, if_pos rfl]

/-- The query of `find` has no question mark. -/
theorem mark_not_mem_find (hcls : Readable cls.toModelClass) (id : Int) :
    '?' ∉ (((ofTable cls.tableName).where
      (cls.primaryKey ++ (" = " : Text) ++ intText id) "AND").setLimit 1).get := by
  have hname : ∀ name, IsColumnName name → '?' ∉ name := by
    intro name h hmem
    exact absurd (h '?' hmem) (by decide)
  have hnumber : ∀ z, '?' ∉ intText z := by
    intro z hmem
    exact absurd (Statement.isNumberChar_of_mem_intText hmem) (by decide)
  rw [Statement.get_select_limit]
  simp [hname _ hcls.table.chars, hname _ hcls.primaryKey.chars, hnumber]

/-- The models of a query on a new connection. -/
theorem get_connect (pqEscapeLiteral : Text → Option Text) (answer : Answer) {b : SQLQueryBuilder}
    (hmark : '?' ∉ b.get) :
    (ModelQueryBuilder.get pqEscapeLiteral cls (Database.connect [] [answer]) b).1 =
      match answer with
      | .tuplesOk rows => .ok (rows.values.map fun row =>
          Model.create cls (Database.rowMap rows.columns row) true)
      | .commandOk => .error []
      | .error message => .error message := by
  unfold ModelQueryBuilder.get Database.queryToVector
  rw [Database.fetchTemplate_finished pqEscapeLiteral _ hmark]
  cases answer with
  | tuplesOk rows => exact congrArg Except.ok List.map_map
  | commandOk => rfl
  | error message => rfl

/-- `find` returns the model of the row under the key, if the server takes the query. -/
theorem find_eq (hcls : Readable cls.toModelClass) (accepted : Option Nat) (id : Int) :
    s.find pqEscapeLiteral cls columns accepted id =
      if accepted.isSome ∧ cls.primaryKey ∈ columns then
        (keyWithText (intText id)).bind fun key => (s.rows key).map (foundObject cls columns key)
      else none := by
  have hmark := mark_not_mem_find hcls id
  have hserved : served pqEscapeLiteral cls.toModelClass columns accepted s.rows
      (Model.find cls.toModelClass id) = serve cls.toModelClass columns accepted s.rows
        (((ofTable cls.tableName).where
          (cls.primaryKey ++ (" = " : Text) ++ intText id) "AND").setLimit 1).get := by
    unfold served Model.find
    rw [List.head?_cons, Option.bind_some,
      (Database.Call.sentText_finished pqEscapeLiteral _).2, if_neg hmark]
  unfold find
  rw [hserved]
  unfold serve
  rw [Statement.taken_select hcls.table hcls.primaryKey id]
  cases accepted with
  | none =>
      dsimp only
      rw [get_connect _ _ hmark, if_neg (by simp)]
  | some newKey =>
      have hknown : isKnown cls.toModelClass columns
          (.select cls.tableName cls.primaryKey (intText id) 1) =
            decide (cls.primaryKey ∈ columns) := by
        simp [isKnown]
      dsimp only
      rw [hknown]
      by_cases hcolumn : cls.primaryKey ∈ columns
      · rw [if_pos (decide_eq_true hcolumn), if_pos ⟨rfl, hcolumn⟩, perform, if_pos rfl]
        dsimp only
        rw [get_connect _ _ hmark]
        dsimp only
        cases keyWithText (intText id) with
        | none => rfl
        | some key =>
            rw [Option.bind_some, Option.bind_some]
            cases s.rows key <;> rfl
      · rw [if_neg (fun h => hcolumn (of_decide_eq_true h)), if_neg fun h => hcolumn h.2]
        dsimp only
        rw [get_connect _ _ hmark]

variable [DecidableEq ι]

/-! ## What `save` does -/

/-- The object has been inserted under a key. -/
def insertedAs (pqEscapeLiteral : Text → Option Text) (cls : ModelClass) (s : ObjectStore ι)
    (i : ι) (key : Nat) : ObjectStore ι where
  objects := Function.update s.objects i ((s.objects i).insert cls.primaryKey (natText key))
  rows := Function.update s.rows key (some (overwrite
    (Statement.storedValues pqEscapeLiteral (savedValues cls (s.objects i))) fun _ => none))

/-- The object has been written over the row under its key. -/
def updatedAs (pqEscapeLiteral : Text → Option Text) (cls : ModelClass) (s : ObjectStore ι)
    (i : ι) (key : Nat) : ObjectStore ι where
  objects := s.objects
  rows := fun k => (s.rows k).map fun row =>
    if cell cls k row cls.primaryKey = some (natText key) then
      overwrite (Statement.storedValues pqEscapeLiteral (savedValues cls (s.objects i))) row
    else row

/-- The answer to an `UPDATE`, on a new connection. -/
theorem replyTo_execute (pqEscapeLiteral : Text → Option Text) (answer : Answer) (sql : Text) :
    (replyTo pqEscapeLiteral (Database.connect [] [answer]) (.execute sql)).1 =
      match answer with
      | .error message => .error message
      | _ => .ok ∅ := by
  cases answer <;> rfl

/-- The answer to an `INSERT`, on a new connection. -/
theorem replyTo_queryMap (pqEscapeLiteral : Text → Option Text) (answer : Answer) (sql : Text) :
    (replyTo pqEscapeLiteral (Database.connect [] [answer]) (.queryMap sql [])).1 =
      if '?' ∈ sql then .error (Database.mismatchMessage (sql.count '?') 0)
      else
        match answer with
        | .tuplesOk ⟨columns, row :: _⟩ => .ok (Database.rowMap columns row)
        | .tuplesOk ⟨_, []⟩ => .ok ∅
        | .commandOk => .error []
        | .error message => .error message := by
  show (Database.fetchTemplate pqEscapeLiteral (Database.connect [] [answer]) sql []).1.map _ = _
  by_cases hmark : '?' ∈ sql
  · rw [Database.fetchTemplate_marked pqEscapeLiteral _ hmark, if_pos hmark]
    rfl
  · rw [Database.fetchTemplate_finished pqEscapeLiteral _ hmark, if_neg hmark]
    cases answer with
    | tuplesOk rows =>
        obtain ⟨columns, values⟩ := rows
        cases values <;> rfl
    | commandOk => rfl
    | error message => rfl

/-- An object that `save` makes a call for, by the answer to it. -/
theorem save_of_call {i : ι} {accepted : Option Nat} {call : Database.Call} {answer : Answer}
    {rows : Rows} (hcall : Model.save pqEscapeLiteral cls.toModelClass (s.objects i) = [call])
    (hserved : served pqEscapeLiteral cls.toModelClass columns accepted s.rows [call] =
      (answer, rows)) :
    s.save pqEscapeLiteral cls columns accepted i =
      ((saved cls.toModelClass (s.objects i)
          (replyTo pqEscapeLiteral (Database.connect [] [answer]) call).1).1,
        ⟨Function.update s.objects i (saved cls.toModelClass (s.objects i)
          (replyTo pqEscapeLiteral (Database.connect [] [answer]) call).1).2, rows⟩) := by
  unfold save saveOn
  rw [hcall, hserved]

/-- What is not answered is not saved. -/
theorem save_of_error {i : ι} {accepted : Option Nat} {call : Database.Call} {answer : Answer}
    (hcall : Model.save pqEscapeLiteral cls.toModelClass (s.objects i) = [call])
    (hserved : served pqEscapeLiteral cls.toModelClass columns accepted s.rows [call] =
      (answer, s.rows))
    (hreply : ∃ message,
      (replyTo pqEscapeLiteral (Database.connect [] [answer]) call).1 = .error message) :
    s.save pqEscapeLiteral cls columns accepted i = (false, s) := by
  obtain ⟨message, hreply⟩ := hreply
  have hsaved : saved cls.toModelClass (s.objects i) (.error message) = (false, s.objects i) := by
    unfold saved
    split
    · rfl
    · rfl
  rw [save_of_call hcall hserved, hreply, hsaved, Function.update_eq_self]

/-- The row of an `INSERT`. -/
theorem rowMap_key (column value : Text) :
    Database.rowMap [column] [value] = (∅ : TextMap).insert column value := rfl

/-- The key of the row is written back. -/
theorem saved_inserted {cls : ModelClass} {attributes : TextMap} {id : Text}
    (hvalues : (savedValues cls attributes).isEmpty = false)
    (hkey : isPresent attributes cls.primaryKey = false) :
    saved cls attributes (.ok ((∅ : TextMap).insert cls.primaryKey id)) =
      (true, attributes.insert cls.primaryKey id) := by
  have hrow : ((∅ : TextMap).insert cls.primaryKey id)[cls.primaryKey]? = some id := by
    rw [getElem?_insert, if_pos rfl]
  unfold saved writeBack
  rw [hvalues, if_neg Bool.false_ne_true]
  dsimp only
  rw [hkey, if_neg Bool.false_ne_true, hrow]

/-- An object without an id is inserted, or nothing happens. -/
theorem save_absent (hread : Statement.ReadsLiterals pqEscapeLiteral)
    (hcls : Readable cls.toModelClass) {i : ι}
    (h : PlainObject cls.toModelClass (s.objects i)) (accepted : Option Nat)
    (hvalues : (savedValues cls.toModelClass (s.objects i)).isEmpty = false)
    (hkey : isPresent (s.objects i) cls.primaryKey = false) :
    s.save pqEscapeLiteral cls columns accepted i = (false, s) ∨ ∃ key,
      isKnown cls.toModelClass columns
        (insertOf pqEscapeLiteral cls.toModelClass (s.objects i)) = true ∧
      s.save pqEscapeLiteral cls columns accepted i =
        (true, s.insertedAs pqEscapeLiteral cls.toModelClass i key) := by
  have hcall : Model.save pqEscapeLiteral cls.toModelClass (s.objects i) =
      [.queryMap (insertSql pqEscapeLiteral cls.toModelClass (s.objects i)) []] :=
    save_insert hkey hvalues
  have hsends := sends_insert hread hcls h hkey hvalues
  rw [hcall] at hsends
  have hsent : ([.queryMap (insertSql pqEscapeLiteral cls.toModelClass (s.objects i)) []] :
      List Database.Call).head?.bind (Database.Call.sentText pqEscapeLiteral) =
        if '?' ∈ insertSql pqEscapeLiteral cls.toModelClass (s.objects i) then none
        else some (insertSql pqEscapeLiteral cls.toModelClass (s.objects i)) :=
    (Database.Call.sentText_finished pqEscapeLiteral _).1
  rcases served_cases cls.toModelClass columns accepted s.rows hsends with
    ⟨hnone, hserved⟩ | ⟨sql, hsome, hserved⟩
  · rw [hsent] at hnone
    split at hnone
    · next hmark =>
        have hreply := replyTo_queryMap pqEscapeLiteral .commandOk
          (insertSql pqEscapeLiteral cls.toModelClass (s.objects i))
        rw [if_pos hmark] at hreply
        exact Or.inl (save_of_error hcall hserved ⟨_, hreply⟩)
    · cases hnone
  · have hmark : '?' ∉ insertSql pqEscapeLiteral cls.toModelClass (s.objects i) := by
      intro hmark
      rw [hsent, if_pos hmark] at hsome
      cases hsome
    rcases hserved with ⟨message, hserved⟩ | ⟨key, -, hknown, hserved⟩
    · refine Or.inl (save_of_error hcall hserved ⟨message, ?_⟩)
      rw [replyTo_queryMap, if_neg hmark]
    · unfold insertOf perform at hserved
      dsimp only at hserved
      split at hserved
      · refine Or.inl (save_of_error hcall hserved
          ⟨"duplicate key value violates unique constraint", ?_⟩)
        rw [replyTo_queryMap, if_neg hmark]
      · refine Or.inr ⟨key, hknown, ?_⟩
        rw [cell, if_pos rfl, Option.getD_some] at hserved
        rw [save_of_call hcall hserved, replyTo_queryMap, if_neg hmark]
        dsimp only
        rw [rowMap_key, saved_inserted hvalues hkey]
        rfl

/-- One with an id is written over its row, or nothing happens. -/
theorem save_present (hread : Statement.ReadsLiterals pqEscapeLiteral)
    (hcls : Readable cls.toModelClass) {i : ι}
    (h : PlainObject cls.toModelClass (s.objects i)) (accepted : Option Nat)
    (hvalues : (savedValues cls.toModelClass (s.objects i)).isEmpty = false) {key : Nat}
    (hkey : (s.objects i)[cls.primaryKey]? = some (natText key)) :
    s.save pqEscapeLiteral cls columns accepted i = (false, s) ∨
      isKnown cls.toModelClass columns
          (updateOf pqEscapeLiteral cls.toModelClass (s.objects i) key) = true ∧
        s.save pqEscapeLiteral cls columns accepted i =
          (true, s.updatedAs pqEscapeLiteral cls.toModelClass i key) := by
  have hcall : Model.save pqEscapeLiteral cls.toModelClass (s.objects i) = [.execute _] :=
    save_update hkey hvalues
  have hsends := sends_update hread hcls h hkey hvalues
  rw [hcall] at hsends
  rcases served_cases cls.toModelClass columns accepted s.rows hsends with
    ⟨hnone, -⟩ | ⟨-, -, ⟨message, hserved⟩ | ⟨newKey, -, hknown, hserved⟩⟩
  · cases hnone
  · refine Or.inl (save_of_error hcall hserved ⟨message, ?_⟩)
    rw [replyTo_execute]
  · refine Or.inr ⟨hknown, ?_⟩
    rw [perform_updateOf] at hserved
    have hsaved : saved cls.toModelClass (s.objects i) (.ok ∅) = (true, s.objects i) := by
      unfold saved
      rw [hvalues, if_neg Bool.false_ne_true]
      dsimp only
      rw [if_pos (Stored.isPresent_of_key hkey)]
    rw [save_of_call hcall hserved, replyTo_execute]
    dsimp only
    rw [hsaved, Function.update_eq_self]
    rfl

/-- `save` does nothing, or it inserts an object without an id, or it updates the row of one. -/
theorem save_cases (hread : Statement.ReadsLiterals pqEscapeLiteral)
    (hcls : Readable cls.toModelClass) (i : ι)
    (h : PlainObject cls.toModelClass (s.objects i)) (accepted : Option Nat) :
    s.save pqEscapeLiteral cls columns accepted i = (false, s) ∨
      (isPresent (s.objects i) cls.primaryKey = false ∧ ∃ key,
        isKnown cls.toModelClass columns
          (insertOf pqEscapeLiteral cls.toModelClass (s.objects i)) = true ∧
        s.save pqEscapeLiteral cls columns accepted i =
          (true, s.insertedAs pqEscapeLiteral cls.toModelClass i key)) ∨
      ∃ key, (s.objects i)[cls.primaryKey]? = some (natText key) ∧
        isKnown cls.toModelClass columns
          (updateOf pqEscapeLiteral cls.toModelClass (s.objects i) key) = true ∧
        s.save pqEscapeLiteral cls columns accepted i =
          (true, s.updatedAs pqEscapeLiteral cls.toModelClass i key) := by
  cases hvalues : (savedValues cls.toModelClass (s.objects i)).isEmpty with
  | true =>
      have hcalls : Model.save pqEscapeLiteral cls.toModelClass (s.objects i) = [] := by
        rw [save_eq, saveRequest, if_pos hvalues]
        rfl
      have hsaved : saved cls.toModelClass (s.objects i) (.ok ∅) = (false, s.objects i) :=
        if_pos hvalues
      refine Or.inl ?_
      unfold save saveOn
      rw [hcalls]
      dsimp only
      rw [hsaved, Function.update_eq_self]
      rfl
  | false =>
      cases hpresent : isPresent (s.objects i) cls.primaryKey with
      | false =>
          exact (save_absent hread hcls h accepted hvalues hpresent).imp_right fun hinserted =>
            Or.inl ⟨rfl, hinserted⟩
      | true =>
          obtain ⟨id, hid, hne⟩ := (isPresent_iff _ _).mp hpresent
          obtain ⟨key, rfl⟩ := (h.id id hid).resolve_left hne
          exact (save_present hread hcls h accepted hvalues hid).imp_right fun hupdated =>
            Or.inr ⟨key, hid, hupdated⟩

/-- The columns of a statement that writes an object are there. -/
theorem columns_of_known {cls : ModelClass} {attributes : TextMap} {statement : Statement}
    (hwrites : statement = insertOf pqEscapeLiteral cls attributes ∨
      ∃ key, statement = updateOf pqEscapeLiteral cls attributes key)
    (hknown : isKnown cls columns statement = true) :
    cls.primaryKey ∈ columns ∧ ∀ column value : Text,
      (savedValues cls attributes)[column]? = some value → column ∈ columns := by
  have hboth : (Statement.storedValues pqEscapeLiteral (savedValues cls attributes)).keys.all
      columns.contains = true ∧ columns.contains cls.primaryKey = true := by
    rcases hwrites with rfl | ⟨key, rfl⟩
    · rw [insertOf, isKnown, Bool.and_eq_true, Bool.and_eq_true] at hknown
      exact ⟨hknown.1.2, hknown.2⟩
    · rw [updateOf, isKnown, Bool.and_eq_true, Bool.and_eq_true] at hknown
      exact ⟨hknown.1.2, hknown.2⟩
  refine ⟨List.contains_iff_mem.mp hboth.2, fun column value hvalue => ?_⟩
  refine List.contains_iff_mem.mp (List.all_eq_true.mp hboth.1 column ?_)
  rw [Std.ExtTreeMap.mem_keys, Std.ExtTreeMap.mem_iff_isSome_getElem?, Statement.storedValues,
    Std.ExtTreeMap.getElem?_map, hvalue]
  rfl

/-- A row that an object was written over keeps its attributes. -/
theorem keeps_overwrite {attributes object : TextMap} {rows : Rows} {key : Nat} {row : Row}
    (hrow : rows key = some (overwrite
      (Statement.storedValues pqEscapeLiteral (savedValues cls.toModelClass object)) row))
    (hkey : attributes[cls.primaryKey]? = some (natText key))
    (hother : ∀ column : Text, column ≠ cls.primaryKey → attributes[column]? = object[column]?)
    (hcolumns : cls.primaryKey ∈ columns ∧ ∀ column value : Text,
      (savedValues cls.toModelClass object)[column]? = some value → column ∈ columns) :
    Keeps pqEscapeLiteral cls columns attributes rows key := by
  refine ⟨_, hrow, fun column value hvalue hescaped => ?_⟩
  by_cases hcolumn : column = cls.primaryKey
  · subst hcolumn
    rw [hkey] at hvalue
    refine ⟨hcolumns.1, ?_⟩
    rw [cell, if_pos rfl, hvalue]
  · have hsaved : (savedValues cls.toModelClass object)[column]? = some value := by
      rw [getElem?_savedValues, if_neg hcolumn, ← hother column hcolumn, hvalue]
    refine ⟨hcolumns.2 column value hsaved, ?_⟩
    have hstored : Statement.storedText pqEscapeLiteral value = value := by
      obtain ⟨escaped, hescaped⟩ := Option.ne_none_iff_exists'.mp hescaped
      rw [Statement.storedText, hescaped]
    rw [cell, if_neg hcolumn, overwrite, Statement.storedValues, Std.ExtTreeMap.getElem?_map,
      hsaved, Option.map_some, Option.some_or, hstored]

/-- When `save` has returned true, the object has a key, and its row keeps the attributes, unless
the object had a key before and there was no such row. -/
theorem save_keeps (hread : Statement.ReadsLiterals pqEscapeLiteral)
    (hcls : Readable cls.toModelClass) {i : ι}
    (h : PlainObject cls.toModelClass (s.objects i)) {accepted : Option Nat}
    (hsaved : (s.save pqEscapeLiteral cls columns accepted i).1 = true) :
    ∃ key, ((s.save pqEscapeLiteral cls columns accepted i).2.objects i)[cls.primaryKey]? =
        some (natText key) ∧ cls.primaryKey ∈ columns ∧
      ((isPresent (s.objects i) cls.primaryKey = true → (s.rows key).isSome) →
        Keeps pqEscapeLiteral cls columns
          ((s.save pqEscapeLiteral cls columns accepted i).2.objects i)
          (s.save pqEscapeLiteral cls columns accepted i).2.rows key) := by
  rcases save_cases hread hcls i h accepted with
    hsave | ⟨-, key, hknown, hsave⟩ | ⟨key, hkey, hknown, hsave⟩
  · rw [hsave] at hsaved
    cases hsaved
  · have hcolumns := columns_of_known (Or.inl rfl) hknown
    rw [hsave]
    have hobject : (s.insertedAs pqEscapeLiteral cls.toModelClass i key).objects i =
        (s.objects i).insert cls.primaryKey (natText key) := Function.update_self i _ s.objects
    have hid : ((s.objects i).insert cls.primaryKey (natText key))[cls.primaryKey]? =
        some (natText key) := by
      rw [getElem?_insert, if_pos rfl]
    refine ⟨key, by rw [hobject, hid], hcolumns.1, fun _ => ?_⟩
    rw [hobject]
    refine keeps_overwrite (Function.update_self key _ s.rows) hid (fun column hcolumn => ?_)
      hcolumns
    rw [getElem?_insert, if_neg (Ne.symm hcolumn)]
  · have hcolumns := columns_of_known (Or.inr ⟨key, rfl⟩) hknown
    rw [hsave]
    refine ⟨key, hkey, hcolumns.1, fun hrow => ?_⟩
    obtain ⟨row, hrow⟩ := Option.isSome_iff_exists.mp (hrow (Stored.isPresent_of_key hkey))
    have hwritten : (s.updatedAs pqEscapeLiteral cls.toModelClass i key).rows key =
        some (overwrite (Statement.storedValues pqEscapeLiteral
          (savedValues cls.toModelClass (s.objects i))) row) := by
      show (s.rows key).map _ = _
      rw [hrow, Option.map_some, cell, if_pos rfl, if_pos rfl]
    exact keeps_overwrite hwritten hkey (fun column _ => rfl) hcolumns

/-! ## Runs -/

/-- Every object is plain. -/
def IsPlain (cls : FillableClass) (s : ObjectStore ι) : Prop :=
  ∀ i, PlainObject cls.toModelClass (s.objects i)

/-- So is one that was found. -/
theorem foundObject_plain (key : Nat) (row : Row) :
    PlainObject cls.toModelClass (foundObject cls columns key row) := by
  constructor
  · intro field value hvalue
    rw [getElem?_foundObject] at hvalue
    split at hvalue
    · next hfield => exact Or.inl hfield.1
    · cases hvalue
  · intro value hvalue
    rw [getElem?_foundObject] at hvalue
    split at hvalue
    · refine Or.inr ⟨key, ?_⟩
      rw [cell, if_pos rfl, Option.getD_some] at hvalue
      exact (Option.some.inj hvalue).symm
    · cases hvalue

/-- An object may be replaced by a plain one. -/
theorem IsPlain.update (h : s.IsPlain cls) (i : ι) {object : TextMap}
    (hobject : PlainObject cls.toModelClass object) (rows : Rows) :
    IsPlain cls ⟨Function.update s.objects i object, rows⟩ :=
  (Function.forall_update_iff s.objects fun _ object => PlainObject cls.toModelClass object).mpr
    ⟨hobject, fun j _ => h j⟩

variable (columns)

/-- Every operation keeps the objects plain. -/
theorem IsPlain.step (hread : Statement.ReadsLiterals pqEscapeLiteral)
    (hcls : Readable cls.toModelClass) (h : s.IsPlain cls) {call : ObjectCall ι}
    (hcall : call.Plain cls) : IsPlain cls (s.step pqEscapeLiteral cls columns call) := by
  cases call with
  | create i data withFields =>
      refine h.update i (PlainObject.empty.setAll (fun attributes key value => ?_) hcall) s.rows
      unfold createField
      split
      · split
        · exact Or.inr rfl
        · exact Or.inl rfl
      · exact Or.inl rfl
  | setAttribute i key value => exact h.update i ((h i).set hcall) s.rows
  | fill i data =>
      refine h.update i ((h i).setAll (fun attributes key value => ?_) hcall) s.rows
      unfold fillField
      split
      · exact Or.inr rfl
      · exact Or.inl rfl
  | save accepted i =>
      show IsPlain cls (s.save pqEscapeLiteral cls columns accepted i).2
      rcases save_cases hread hcls i (h i) accepted with
        hsave | ⟨-, key, -, hsave⟩ | ⟨key, -, -, hsave⟩
      · rwa [hsave]
      · rw [hsave]
        exact h.update i ((h i).keyed key) _
      · rw [hsave]
        exact h
  | find accepted i id =>
      unfold ObjectStore.step
      dsimp only
      rw [find_eq hcls]
      split
      · next object hobject =>
          split at hobject
          · obtain ⟨key, -, hobject⟩ := Option.bind_eq_some_iff.mp hobject
            obtain ⟨row, -, rfl⟩ := Option.map_eq_some_iff.mp hobject
            exact h.update i (foundObject_plain key row) s.rows
          · cases hobject
      · exact h
  | update accepted id data => exact h
  | delete_ accepted i => exact h
  | deleteById accepted id => exact h

/-- An operation that does not name the row under a key leaves it as it is. -/
theorem step_spares (hread : Statement.ReadsLiterals pqEscapeLiteral)
    (hcls : Readable cls.toModelClass) (h : s.IsPlain cls) {key : Nat} {row : Row}
    (hrow : s.rows key = some row) {call : ObjectCall ι}
    (htarget : call.target cls s ≠ some (natText key)) :
    (s.step pqEscapeLiteral cls columns call).rows key = some row := by
  cases call with
  | create i data withFields => exact hrow
  | setAttribute i name value => exact hrow
  | fill i data => exact hrow
  | save accepted i =>
      obtain ⟨statement, hsends, hspares, -⟩ := sends_save hread hcls (h i)
      exact served_spares hsends hrow (hspares key htarget)
  | find accepted i id =>
      unfold ObjectStore.step
      dsimp only
      split
      · exact hrow
      · exact hrow
  | update accepted id data =>
      refine served_spares (sends_updateById hread hcls id data) hrow ⟨rfl, ?_⟩
      exact storedText_ne fun heq => htarget (congrArg some heq)
  | delete_ accepted i =>
      cases hid : (s.objects i)[cls.primaryKey]? with
      | none =>
          have hcalls := delete_nil pqEscapeLiteral hcls hid
          show (served pqEscapeLiteral cls.toModelClass columns accepted s.rows
            (Model.delete_ pqEscapeLiteral cls.toModelClass (s.objects i))).2 key = some row
          rw [hcalls]
          exact hrow
      | some id =>
          refine served_spares (sends_delete hread hcls hid) hrow ⟨rfl, ?_⟩
          exact storedText_ne fun heq => htarget (hid.trans (congrArg some heq))
  | deleteById accepted id =>
      refine served_spares (sends_deleteById hread hcls id) hrow ⟨rfl, ?_⟩
      exact storedText_ne fun heq => htarget (congrArg some heq)

/-- The objects of a process that begins without any are plain. -/
theorem isPlain_run (hread : Statement.ReadsLiterals pqEscapeLiteral)
    (hcls : Readable cls.toModelClass) (rows : Rows) {calls : List (ObjectCall ι)}
    (hcalls : ∀ call ∈ calls, call.Plain cls) :
    IsPlain cls (runFrom (step pqEscapeLiteral cls columns) ⟨fun _ => ∅, rows⟩ calls) :=
  runFrom_invariant (IsPlain cls) (fun _ => PlainObject.empty) fun call hcall _ h =>
    h.step columns hread hcls (hcalls call hcall)

/-- A row is as it was after any operations that do not name it. -/
theorem run_spares (hread : Statement.ReadsLiterals pqEscapeLiteral)
    (hcls : Readable cls.toModelClass) (h : s.IsPlain cls) {key : Nat} {row : Row}
    (hrow : s.rows key = some row) {calls : List (ObjectCall ι)}
    (hcalls : Throughout (step pqEscapeLiteral cls columns)
      (fun s call => call.Plain cls ∧ call.target cls s ≠ some (natText key)) s calls) :
    (runFrom (step pqEscapeLiteral cls columns) s calls).rows key = some row := by
  have hkept : IsPlain cls (runFrom (step pqEscapeLiteral cls columns) s calls) ∧
      (runFrom (step pqEscapeLiteral cls columns) s calls).rows key = some row :=
    @Throughout.invariant _ _ _ (fun s => IsPlain cls s ∧ s.rows key = some row) _ s calls hcalls
      ⟨h, hrow⟩ fun s call hs hcall =>
        ⟨hs.1.step columns hread hcls hcall.1, step_spares columns hread hcls hs.1 hs.2 hcall.2⟩
  exact hkept.2

/-- People with names. -/
def people : FillableClass := ⟨⟨"people", "id", ["id", "name"]⟩, ["name"]⟩

theorem readable_people : Readable people.toModelClass where
  table := by decide
  key := rfl
  fields := by decide

/-- Someone is made and saved. -/
def someone : ObjectStore Bool :=
  runFrom (step Statement.libpqLiteral people people.fields) ⟨fun _ => ∅, fun _ => none⟩
    [.create false (ofEntries compare [("name", "O'Hara \\ Sons")]) false]

/-- Someone else is made, saved under another key, moved and deleted. -/
def someoneElse : List (ObjectCall Bool) :=
  [.create true (ofEntries compare [("name", "Bob")]) false, .save (some 8) true,
    .update (some 0) 8 (ofEntries compare [("id", "9")]), .deleteById (some 0) 9]

theorem plain_create (i : Bool) (name : Text) :
    (ObjectCall.create i (ofEntries compare [("name", name)]) false).Plain people := by
  have hname : ("name" : Text) ≠ people.primaryKey := by
    decide
  intro id hid
  have hnone : (ofEntries compare [(("name" : Text), name)])[people.primaryKey]? = none :=
    (getElem?_insert _ _ _ _).trans (if_neg hname)
  rw [hnone] at hid
  cases hid

theorem plain_update (key : Nat) :
    (.update (some 0) 8 (ofEntries compare [("id", natText key)]) : ObjectCall Bool).Plain
      people := by
  intro id hid
  have hnew : (ofEntries compare [(("id" : Text), natText key)])[people.primaryKey]? =
      some (natText key) := (getElem?_insert _ _ _ _).trans (if_pos rfl)
  exact Or.inr ⟨key, Option.some.inj (hid.symm.trans hnew)⟩

/-- An `update` gives a key that its data has. -/
theorem given_of_updateById {cls : FillableClass} {data : TextMap} {column value : Text}
    {newKey key : Nat}
    (h : Gives cls.toModelClass newKey key (.update cls.tableName (Statement.storedValues
      pqEscapeLiteral (data.filter fun key _ => isField cls.toModelClass key)) column value)) :
    cls.primaryKey ∈ cls.fields ∧ data[cls.primaryKey]? = some (natText key) := by
  rw [Gives, Statement.storedValues, Std.ExtTreeMap.getElem?_map,
    Std.ExtTreeMap.getElem?_filter'] at h
  obtain ⟨id, hfield, hstored⟩ := Option.map_eq_some_iff.mp h
  obtain ⟨hdata, hfield⟩ := Option.filter_eq_some_iff.mp hfield
  have hid : id = natText key := by
    by_contra hne
    exact storedText_ne hne hstored
  exact ⟨List.contains_iff_mem.mp hfield, hdata.trans (congrArg some hid)⟩

/-- No operation makes a row under a key that it does not give. -/
theorem step_absent (hread : Statement.ReadsLiterals pqEscapeLiteral)
    (hcls : Readable cls.toModelClass) (h : s.IsPlain cls) {key : Nat} (hnone : s.rows key = none)
    {call : ObjectCall ι} (hkey : ¬ call.Gives cls key) :
    (s.step pqEscapeLiteral cls columns call).rows key = none := by
  cases call with
  | create i data withFields => exact hnone
  | setAttribute i name value => exact hnone
  | fill i data => exact hnone
  | save accepted i =>
      obtain ⟨statement, hsends, -, hgives⟩ := sends_save hread hcls (h i)
      refine served_absent hsends hnone fun newKey haccepted hgiven => hkey ?_
      exact haccepted.trans (congrArg some (hgives newKey key hgiven))
  | find accepted i id =>
      unfold ObjectStore.step
      dsimp only
      split
      · exact hnone
      · exact hnone
  | update accepted id data =>
      refine served_absent (sends_updateById hread hcls id data) hnone
        fun newKey haccepted hgiven => hkey ?_
      exact ⟨by rw [haccepted]; rfl, given_of_updateById hgiven⟩
  | delete_ accepted i =>
      cases hid : (s.objects i)[cls.primaryKey]? with
      | none =>
          have hcalls := delete_nil pqEscapeLiteral hcls hid
          show (served pqEscapeLiteral cls.toModelClass columns accepted s.rows
            (Model.delete_ pqEscapeLiteral cls.toModelClass (s.objects i))).2 key = none
          rw [hcalls]
          exact hnone
      | some id => exact served_absent (sends_delete hread hcls hid) hnone fun _ _ hgiven => hgiven
  | deleteById accepted id =>
      exact served_absent (sends_deleteById hread hcls id) hnone fun _ _ hgiven => hgiven

/-- A deletion of the row under a key removes it. -/
theorem row_deleted {cls : ModelClass} {rows : Rows} {calls : List Database.Call} {key : Nat}
    (hsends : Sends pqEscapeLiteral calls (.delete cls.tableName cls.primaryKey
      (Statement.storedText pqEscapeLiteral (natText key))))
    (hsent : ∃ sql, calls = [.execute sql]) (hcolumn : cls.primaryKey ∈ columns)
    (hescaped : pqEscapeLiteral (natText key) ≠ none) (newKey : Nat) :
    (served pqEscapeLiteral cls columns (some newKey) rows calls).2 key = none := by
  have hknown : isKnown cls columns (.delete cls.tableName cls.primaryKey
      (Statement.storedText pqEscapeLiteral (natText key))) = true := by
    simp [isKnown, hcolumn]
  have hstored : Statement.storedText pqEscapeLiteral (natText key) = natText key := by
    obtain ⟨escaped, hescaped⟩ := Option.ne_none_iff_exists'.mp hescaped
    rw [Statement.storedText, hescaped]
  obtain ⟨sql, hsent⟩ := hsent
  have hhead : calls.head?.bind (Database.Call.sentText pqEscapeLiteral) = some sql := by
    rw [hsent]
    rfl
  rw [served_done cls columns rows hsends hhead hknown, hstored]
  show (rows key).filter _ = none
  refine Option.filter_eq_none_iff.mpr fun row _ => ?_
  rw [cell, if_pos rfl]
  simp

/-- `delete_` and `deleteById` remove the row that they name. -/
theorem step_deletes (hread : Statement.ReadsLiterals pqEscapeLiteral)
    (hcls : Readable cls.toModelClass) {key : Nat} {call : ObjectCall ι} (hcall : call.Deletes)
    (htarget : call.target cls s = some (natText key)) (hcolumn : cls.primaryKey ∈ columns)
    (hescaped : pqEscapeLiteral (natText key) ≠ none) :
    (s.step pqEscapeLiteral cls columns call).rows key = none := by
  cases call with
  | delete_ accepted i =>
      cases accepted with
      | none => exact False.elim hcall
      | some newKey =>
          have hid : (s.objects i)[cls.primaryKey]? = some (natText key) := htarget
          have hpresent := Stored.isPresent_of_key hid
          rw [hcls.key] at hpresent
          exact row_deleted columns (sends_delete hread hcls hid)
            ⟨_, (delete_eq _ _ _).trans (if_pos hpresent)⟩ hcolumn hescaped newKey
  | deleteById accepted id =>
      cases accepted with
      | none => exact False.elim hcall
      | some newKey =>
          have hid : intText id = natText key := Option.some.inj htarget
          have hsends := sends_deleteById hread hcls id
          rw [hid] at hsends
          exact row_deleted columns hsends ⟨_, deleteById_eq pqEscapeLiteral cls.toModelClass id⟩
            hcolumn hescaped newKey
  | create i data withFields => exact False.elim hcall
  | setAttribute i name value => exact False.elim hcall
  | fill i data => exact False.elim hcall
  | save accepted i => exact False.elim hcall
  | find accepted i id => exact False.elim hcall
  | update accepted id data => exact False.elim hcall

/-- There is no row under a key until an operation gives it. -/
theorem run_absent (hread : Statement.ReadsLiterals pqEscapeLiteral)
    (hcls : Readable cls.toModelClass) (h : s.IsPlain cls) {key : Nat} (hnone : s.rows key = none)
    {calls : List (ObjectCall ι)} (hcalls : ∀ call ∈ calls, call.Plain cls ∧ ¬ call.Gives cls key) :
    (runFrom (step pqEscapeLiteral cls columns) s calls).rows key = none := by
  have hkept : IsPlain cls (runFrom (step pqEscapeLiteral cls columns) s calls) ∧
      (runFrom (step pqEscapeLiteral cls columns) s calls).rows key = none :=
    runFrom_invariant (fun s => IsPlain cls s ∧ s.rows key = none) ⟨h, hnone⟩ fun call hcall s hs =>
      ⟨hs.1.step columns hread hcls (hcalls call hcall).1,
        step_absent columns hread hcls hs.1 hs.2 (hcalls call hcall).2⟩
  exact hkept.2

end ObjectStore

end Model

end Brazier
