import Brazier.Database.Models.Addressing
import Brazier.Database.Models.QuestionMarks
import Brazier.Database.StatementServer

/-!
# The server behind the models

A server that reads the text of every statement and does it on the rows of a table, or refuses it.
The columns of the table but the key column hold texts, and a column without a value is sent as an
empty text. The names of the class are those of the table, and the server compares them with what it
takes for the names of a statement. An operation of the models sends the statement that is meant
(`Sends`), whose names the server has to take as they are and whose literals it has to find again.
-/

namespace Brazier

open ProofLib SQLQueryBuilder

/-- The text of the statement that a call sends. -/
def Database.Call.sentText (pqEscapeLiteral : Text → Option Text) : Database.Call → Option Text
  | .execute sql => some sql
  | .query sql => some sql
  | .queryMap sqlTemplate params =>
      if sqlTemplate.count '?' = params.length then
        some (Database.substitute pqEscapeLiteral sqlTemplate params)
      else none
  | .queryToVector sqlTemplate params =>
      if sqlTemplate.count '?' = params.length then
        some (Database.substitute pqEscapeLiteral sqlTemplate params)
      else none
  | _ => none

/-- A finished text is sent as it is, unless it has a question mark. -/
theorem Database.Call.sentText_finished (pqEscapeLiteral : Text → Option Text) (sql : Text) :
    sentText pqEscapeLiteral (.queryMap sql []) = (if '?' ∈ sql then none else some sql) ∧
      sentText pqEscapeLiteral (.queryToVector sql []) =
        if '?' ∈ sql then none else some sql := by
  have hcount : sql.count '?' = ([] : List Text).length ↔ '?' ∉ sql := List.count_eq_zero
  by_cases hmark : '?' ∈ sql
  · rw [if_pos hmark]
    exact ⟨if_neg fun h => hcount.mp h hmark, if_neg fun h => hcount.mp h hmark⟩
  · rw [if_neg hmark]
    exact ⟨if_pos (hcount.mpr hmark), if_pos (hcount.mpr hmark)⟩

namespace Model

/-! ## The server -/

/-- The key with a text. -/
def keyWithText (id : Text) : Option Nat :=
  if natText (Nat.ofDigitChars 10 id 0) = id then some (Nat.ofDigitChars 10 id 0) else none

theorem natText_of_keyWithText {id : Text} {key : Nat} (h : keyWithText id = some key) :
    id = natText key := by
  rw [keyWithText, Option.ite_none_right_eq_some] at h
  rw [← Option.some.inj h.2, h.1]

/-- A row as it is sent. -/
def rowTexts (cls : ModelClass) (columns : List Text) (key : Nat) (row : Row) : List Text :=
  columns.map fun column => (cell cls key row column).getD []

/-- The table and the columns of a statement are there. -/
def isKnown (cls : ModelClass) (columns : List Text) : Statement → Bool
  | .insert table values returning =>
      table = cls.tableName && values.keys.all columns.contains && columns.contains returning
  | .update table values column _ =>
      table = cls.tableName && values.keys.all columns.contains && columns.contains column
  | .delete table column _ => table = cls.tableName && columns.contains column
  | .select table column _ _ => table = cls.tableName && columns.contains column

/-- The row under a key gets another key, which is a number that no other row has, and values. -/
def moveRow (rows : Rows) (values : TextMap) (key newKey : Option Nat) : Answer × Rows :=
  match newKey, key.bind fun k => (rows k).map fun row => (k, row) with
  | none, _ => (.error "invalid input syntax for type integer", rows)
  | some _, none => (.commandOk, rows)
  | some newKey, some (k, row) =>
      if newKey ≠ k ∧ (rows newKey).isSome then
        (.error "duplicate key value violates unique constraint", rows)
      else
        (.commandOk, Function.update (Function.update rows k none) newKey
          (some (overwrite values row)))

/-- A statement that is done, with the key for a new row. `SELECT` and an `UPDATE` of the key go by
the key column. No `INSERT` of the models has it. -/
def perform (cls : ModelClass) (columns : List Text) (key : Nat) (rows : Rows) :
    Statement → Answer × Rows
  | .insert _ values returning =>
      if key = 0 ∨ (rows key).isSome then
        (.error "duplicate key value violates unique constraint", rows)
      else
        (.tuplesOk ⟨[returning],
            [[(cell cls key (overwrite values fun _ => none) returning).getD []]]⟩,
          Function.update rows key (some (overwrite values fun _ => none)))
  | .update _ values column value =>
      match values[cls.primaryKey]? with
      | none =>
          (.commandOk, fun k => (rows k).map fun row =>
            if cell cls k row column = some value then overwrite values row else row)
      | some id =>
          if column = cls.primaryKey then
            moveRow rows values (keyWithText value) (keyWithText id)
          else (.error "not a key column", rows)
  | .delete _ column value =>
      (.commandOk, fun k => (rows k).filter fun row => cell cls k row column ≠ some value)
  | .select _ column value limit =>
      if column = cls.primaryKey then
        (.tuplesOk ⟨columns, ((keyWithText value).bind fun k =>
          (rows k).map (rowTexts cls columns k)).toList.take limit⟩, rows)
      else (.error "not a key column", rows)

/-- The answer to the text of a statement. The server takes it, with the key for a new row, or
refuses it. -/
def serve (cls : ModelClass) (columns : List Text) (accepted : Option Nat) (rows : Rows)
    (sql : Text) : Answer × Rows :=
  match accepted, Statement.taken sql with
  | none, _ => (.error "refused", rows)
  | some _, none => (.error "syntax error", rows)
  | some key, some statement =>
      if isKnown cls columns statement then perform cls columns key rows statement
      else (.error "does not exist", rows)

/-- The answer to the first of some calls, and the rows afterwards. -/
def served (pqEscapeLiteral : Text → Option Text) (cls : ModelClass) (columns : List Text)
    (accepted : Option Nat) (rows : Rows) (calls : List Database.Call) : Answer × Rows :=
  match calls.head?.bind (Database.Call.sentText pqEscapeLiteral) with
  | some sql => serve cls columns accepted rows sql
  | none => (.commandOk, rows)

/-! ## The texts of the operations -/

/-- Names that the server takes as they are, and the column that the operations name. -/
structure Readable (cls : ModelClass) : Prop where
  table : Statement.PlainName cls.tableName
  key : cls.primaryKey = "id"
  fields : ∀ field ∈ cls.fields, Statement.PlainName field

theorem Readable.primaryKey {cls : ModelClass} (h : Readable cls) :
    Statement.PlainName cls.primaryKey := by
  rw [h.key]
  decide

/-- The server takes what the first call sends for the statement. -/
def Sends (pqEscapeLiteral : Text → Option Text) (calls : List Database.Call)
    (statement : Statement) : Prop :=
  ∀ sql, calls.head?.bind (Database.Call.sentText pqEscapeLiteral) = some sql →
    Statement.taken sql = some statement

/-- The `INSERT` of an object. -/
def insertOf (pqEscapeLiteral : Text → Option Text) (cls : ModelClass) (attributes : TextMap) :
    Statement :=
  .insert cls.tableName (Statement.storedValues pqEscapeLiteral (savedValues cls attributes))
    cls.primaryKey

/-- Its `UPDATE` under a key. -/
def updateOf (pqEscapeLiteral : Text → Option Text) (cls : ModelClass) (attributes : TextMap)
    (key : Nat) : Statement :=
  .update cls.tableName (Statement.storedValues pqEscapeLiteral (savedValues cls attributes))
    cls.primaryKey (natText key)

/-- No text, or that of a key. -/
def IsId (id : Text) : Prop := id = [] ∨ ∃ key, id = natText key

/-- The attributes are fields, and their id is one. -/
structure PlainObject (cls : ModelClass) (attributes : TextMap) : Prop where
  known : ∀ key value : Text, attributes[key]? = some value →
    key ∈ cls.fields ∨ key = cls.primaryKey
  id : ∀ value : Text, attributes[cls.primaryKey]? = some value → IsId value

section

variable {pqEscapeLiteral : Text → Option Text} {cls : ModelClass} {attributes : TextMap}

/-- The saved values of an object have names. -/
theorem PlainObject.named (h : PlainObject cls attributes) (hcls : Readable cls) :
    Statement.PlainNames (savedValues cls attributes) := by
  intro column hcolumn
  rw [getElem?_savedValues] at hcolumn
  split at hcolumn
  · exact absurd rfl hcolumn
  · obtain ⟨value, hvalue⟩ := Option.ne_none_iff_exists'.mp hcolumn
    rcases h.known column value hvalue with hfield | rfl
    · exact hcls.fields column hfield
    · exact hcls.primaryKey

/-- What is executed is sent. -/
theorem sends_execute {sql : Text} {statement : Statement}
    (h : Statement.taken sql = some statement) :
    Sends pqEscapeLiteral [.execute sql] statement := by
  intro sql' hsql
  obtain rfl : sql = sql' := Option.some.inj hsql
  exact h

theorem sends_nil (statement : Statement) : Sends pqEscapeLiteral [] statement := nofun

/-- An object without an id sends its `INSERT`. -/
theorem sends_insert (hread : Statement.ReadsLiterals pqEscapeLiteral) (hcls : Readable cls)
    (h : PlainObject cls attributes) (hkey : isPresent attributes cls.primaryKey = false)
    (hvalues : (savedValues cls attributes).isEmpty = false) :
    Sends pqEscapeLiteral (save pqEscapeLiteral cls attributes)
      (insertOf pqEscapeLiteral cls attributes) := by
  intro sql hsql
  rw [save_insert hkey hvalues, List.head?_cons, Option.bind_some,
    (Database.Call.sentText_finished pqEscapeLiteral _).1] at hsql
  split at hsql
  · cases hsql
  obtain rfl := Option.some.inj hsql
  exact Statement.taken_insert hread hvalues (h.named hcls) hcls.table hcls.primaryKey

/-- With an id `save` makes one call, for its `UPDATE`. -/
theorem save_update {key : Nat} (hkey : attributes[cls.primaryKey]? = some (natText key))
    (hvalues : (savedValues cls attributes).isEmpty = false) :
    save pqEscapeLiteral cls attributes =
      [.execute (whereId cls.primaryKey (natText key) ((ofTable cls.tableName).update
        (saveValues pqEscapeLiteral cls attributes))).get] := by
  have hsave := save_addresses pqEscapeLiteral cls attributes (Stored.isPresent_of_key hkey) hvalues
  rwa [Std.ExtTreeMap.getD_eq_getD_getElem?, hkey] at hsave

/-- One with an id sends its `UPDATE`. -/
theorem sends_update (hread : Statement.ReadsLiterals pqEscapeLiteral) (hcls : Readable cls)
    (h : PlainObject cls attributes) {key : Nat}
    (hkey : attributes[cls.primaryKey]? = some (natText key))
    (hvalues : (savedValues cls attributes).isEmpty = false) :
    Sends pqEscapeLiteral (save pqEscapeLiteral cls attributes)
      (updateOf pqEscapeLiteral cls attributes key) := by
  rw [save_update hkey hvalues]
  exact sends_execute (Statement.taken_update hread hvalues (h.named hcls) hcls.table
    hcls.primaryKey (.number (key : Int)))

/-- `update` over the primary key. -/
theorem update_eq (hcls : Readable cls) (id : Int) (data : TextMap) :
    update pqEscapeLiteral cls id data =
      if (updateValues pqEscapeLiteral cls data).isEmpty then []
      else
        [.execute (whereId cls.primaryKey (SQLString.escapeString pqEscapeLiteral (intText id))
          ((ofTable cls.tableName).update (updateValues pqEscapeLiteral cls data))).get] := by
  rw [hcls.key]
  rfl

/-- `update` sends its fields. -/
theorem sends_updateById (hread : Statement.ReadsLiterals pqEscapeLiteral) (hcls : Readable cls)
    (id : Int) (data : TextMap) :
    Sends pqEscapeLiteral (update pqEscapeLiteral cls id data)
      (.update cls.tableName (Statement.storedValues pqEscapeLiteral
        (data.filter fun key _ => isField cls key)) cls.primaryKey
          (Statement.storedText pqEscapeLiteral (intText id))) := by
  rw [update_eq hcls]
  split
  · exact sends_nil _
  · next hvalues =>
      rw [updateValues, Bool.not_eq_true, isEmpty_escapeValues] at hvalues
      have hnamed : Statement.PlainNames (data.filter fun key _ => isField cls key) := by
        intro column hcolumn
        rw [Std.ExtTreeMap.getElem?_filter'] at hcolumn
        obtain ⟨value, hvalue⟩ := Option.ne_none_iff_exists'.mp hcolumn
        exact hcls.fields column
          (List.contains_iff_mem.mp (Option.filter_eq_some_iff.mp hvalue).2)
      exact sends_execute (Statement.taken_update hread hvalues hnamed hcls.table hcls.primaryKey
        (.literal (intText id)))

/-- `delete_` sends the id of the object. -/
theorem sends_delete (hread : Statement.ReadsLiterals pqEscapeLiteral) (hcls : Readable cls)
    {id : Text} (hid : attributes[cls.primaryKey]? = some id) :
    Sends pqEscapeLiteral (delete_ pqEscapeLiteral cls attributes)
      (.delete cls.tableName cls.primaryKey (Statement.storedText pqEscapeLiteral id)) := by
  rw [delete_eq_request, deleteRequest, Std.ExtTreeMap.getD_eq_getD_getElem?, ← hcls.key, hid]
  split
  · exact sends_execute (Statement.taken_delete hread hcls.table hcls.primaryKey (.literal id))
  · exact sends_nil _

/-- Without an id it sends nothing. -/
theorem delete_nil (pqEscapeLiteral : Text → Option Text) (hcls : Readable cls)
    (hid : attributes[cls.primaryKey]? = none) :
    delete_ pqEscapeLiteral cls attributes = [] := by
  have habsent : isPresent attributes "id" = false := by
    rw [hcls.key] at hid
    rw [isPresent, getAttribute, hid]
  rw [delete_eq_request, deleteRequest, habsent, if_neg Bool.false_ne_true]
  rfl

/-- `deleteById` sends its id. -/
theorem sends_deleteById (hread : Statement.ReadsLiterals pqEscapeLiteral) (hcls : Readable cls)
    (id : Int) :
    Sends pqEscapeLiteral (deleteById pqEscapeLiteral cls id)
      (.delete cls.tableName cls.primaryKey
        (Statement.storedText pqEscapeLiteral (intText id))) := by
  rw [deleteById_eq, ← hcls.key]
  exact sends_execute
    (Statement.taken_delete hread hcls.table hcls.primaryKey (.literal (intText id)))

/-! ## What the server does -/

section

variable (cls : ModelClass) (columns : List Text) (accepted : Option Nat) (rows : Rows)

/-- Nothing is sent, or the server refuses the statement, or it does the statement. -/
theorem served_cases {calls : List Database.Call} {statement : Statement}
    (h : Sends pqEscapeLiteral calls statement) :
    (calls.head?.bind (Database.Call.sentText pqEscapeLiteral) = none ∧
        served pqEscapeLiteral cls columns accepted rows calls = (.commandOk, rows)) ∨
      (∃ sql, calls.head?.bind (Database.Call.sentText pqEscapeLiteral) = some sql ∧
        ((∃ message, served pqEscapeLiteral cls columns accepted rows calls =
            (.error message, rows)) ∨
          ∃ key, accepted = some key ∧ isKnown cls columns statement = true ∧
            served pqEscapeLiteral cls columns accepted rows calls =
              perform cls columns key rows statement)) := by
  unfold served
  cases hsent : calls.head?.bind (Database.Call.sentText pqEscapeLiteral) with
  | none => exact Or.inl ⟨rfl, rfl⟩
  | some sql =>
      refine Or.inr ⟨sql, rfl, ?_⟩
      dsimp only
      unfold serve
      rw [h sql hsent]
      cases accepted with
      | none => exact Or.inl ⟨_, rfl⟩
      | some key =>
          dsimp only
          cases hknown : isKnown cls columns statement with
          | false => exact Or.inl ⟨_, rfl⟩
          | true => exact Or.inr ⟨key, rfl, rfl, rfl⟩

/-- A statement about what is there, that is sent and taken, is done. -/
theorem served_done {calls : List Database.Call} {statement : Statement}
    (h : Sends pqEscapeLiteral calls statement) {sql : Text}
    (hsent : calls.head?.bind (Database.Call.sentText pqEscapeLiteral) = some sql)
    (hknown : isKnown cls columns statement = true) (key : Nat) :
    served pqEscapeLiteral cls columns (some key) rows calls =
      perform cls columns key rows statement := by
  unfold served
  rw [hsent]
  dsimp only
  unfold serve
  rw [h sql hsent]
  exact if_pos hknown

/-- The rows are as before, or as the statement leaves them. -/
theorem rows_served {calls : List Database.Call} {statement : Statement}
    (h : Sends pqEscapeLiteral calls statement) :
    (served pqEscapeLiteral cls columns accepted rows calls).2 = rows ∨
      ∃ key, accepted = some key ∧ (served pqEscapeLiteral cls columns accepted rows calls).2 =
        (perform cls columns key rows statement).2 := by
  rcases served_cases cls columns accepted rows h with
    ⟨-, hserved⟩ | ⟨sql, -, ⟨message, hserved⟩ | ⟨key, haccepted, -, hserved⟩⟩
  · exact Or.inl (congrArg Prod.snd hserved)
  · exact Or.inl (congrArg Prod.snd hserved)
  · exact Or.inr ⟨key, haccepted, congrArg Prod.snd hserved⟩

end

variable {columns : List Text} {accepted : Option Nat} {rows : Rows}

/-- The row under a number is not touched when another one is moved. -/
theorem moveRow_spares {values : TextMap} {moved newKey : Option Nat} {key : Nat} {row : Row}
    (hrow : rows key = some row) (hmoved : moved ≠ some key) :
    (moveRow rows values moved newKey).2 key = some row := by
  unfold moveRow
  split
  · exact hrow
  · exact hrow
  · next newKey k old hold =>
      obtain ⟨k', hk', hpair⟩ := Option.bind_eq_some_iff.mp hold
      obtain ⟨old', -, heq⟩ := Option.map_eq_some_iff.mp hpair
      obtain rfl : k' = k := congrArg Prod.fst heq
      have hk : key ≠ k' := fun heq => hmoved (hk'.trans (congrArg some heq.symm))
      split
      · exact hrow
      · next hfree =>
          have hnew : key ≠ newKey := by
            rintro rfl
            exact hfree ⟨hk, by rw [hrow]; rfl⟩
          dsimp only
          rw [Function.update_of_ne hnew, Function.update_of_ne hk, hrow]

/-- No row is moved to another number than the new one. -/
theorem moveRow_absent {values : TextMap} {moved newKey : Option Nat} {key : Nat}
    (hnone : rows key = none) (hkey : newKey ≠ some key) :
    (moveRow rows values moved newKey).2 key = none := by
  unfold moveRow
  split
  · exact hnone
  · exact hnone
  · next newKey k old hold =>
      split
      · exact hnone
      · have hnew : key ≠ newKey := fun heq => hkey (congrArg some heq.symm)
        dsimp only
        rw [Function.update_of_ne hnew, Function.update_apply]
        split
        · rfl
        · exact hnone

/-- A statement does not name the row under a key. -/
def Spares (cls : ModelClass) (key : Nat) : Statement → Prop
  | .update _ _ column value | .delete _ column value =>
      column = cls.primaryKey ∧ value ≠ natText key
  | _ => True

/-- Then it leaves the row as it is. -/
theorem perform_spares {statement : Statement} {key : Nat} {row : Row} (newKey : Nat)
    (hrow : rows key = some row) (h : Spares cls key statement) :
    (perform cls columns newKey rows statement).2 key = some row := by
  have hcell : ∀ value, value ≠ natText key → cell cls key row cls.primaryKey ≠ some value := by
    intro value hvalue hcell
    rw [cell, if_pos rfl] at hcell
    exact hvalue (Option.some.inj hcell).symm
  cases statement with
  | insert table values returning =>
      unfold perform
      dsimp only
      split
      · exact hrow
      · next hnew =>
          rw [not_or] at hnew
          have hother : key ≠ newKey := by
            rintro rfl
            exact hnew.2 (by rw [hrow]; rfl)
          exact (Function.update_of_ne hother _ rows).trans hrow
  | update table values column value =>
      obtain ⟨rfl, hvalue⟩ := h
      unfold perform
      dsimp only
      split
      · show (rows key).map _ = some row
        rw [hrow, Option.map_some, if_neg (hcell value hvalue)]
      · rw [if_pos rfl]
        exact moveRow_spares hrow fun hnumber => hvalue (natText_of_keyWithText hnumber)
  | delete table column value =>
      obtain ⟨rfl, hvalue⟩ := h
      show (rows key).filter _ = some row
      rw [hrow]
      exact Option.filter_eq_some_iff.mpr ⟨rfl, decide_eq_true (hcell value hvalue)⟩
  | select table column value limit =>
      unfold perform
      dsimp only
      split
      · exact hrow
      · exact hrow

/-- A statement gives a key to a row: an `INSERT` the new one, an `UPDATE` one that it assigns. -/
def Gives (cls : ModelClass) (newKey key : Nat) : Statement → Prop
  | .insert _ _ _ => newKey = key
  | .update _ values _ _ => values[cls.primaryKey]? = some (natText key)
  | _ => False

/-- No other statement makes a row where there was none. -/
theorem perform_absent {statement : Statement} {key newKey : Nat} (hnone : rows key = none)
    (hkey : ¬ Gives cls newKey key statement) :
    (perform cls columns newKey rows statement).2 key = none := by
  cases statement with
  | insert table values returning =>
      unfold perform
      dsimp only
      split
      · exact hnone
      · exact (Function.update_of_ne (Ne.symm hkey) _ rows).trans hnone
  | update table values column value =>
      unfold perform
      dsimp only
      split
      · show (rows key).map _ = none
        rw [hnone, Option.map_none]
      · next id hid =>
          split
          · refine moveRow_absent hnone fun hnumber => hkey ?_
            rw [Gives, hid, natText_of_keyWithText hnumber]
          · exact hnone
  | delete table column value =>
      show (rows key).filter _ = none
      rw [hnone, Option.filter_none]
  | select table column value limit =>
      unfold perform
      dsimp only
      split
      · exact hnone
      · exact hnone

/-- A statement that spares a row leaves it as it is, whatever the server answers. -/
theorem served_spares {calls : List Database.Call} {statement : Statement} {key : Nat} {row : Row}
    (h : Sends pqEscapeLiteral calls statement) (hrow : rows key = some row)
    (hspares : Spares cls key statement) :
    (served pqEscapeLiteral cls columns accepted rows calls).2 key = some row := by
  rcases rows_served cls columns accepted rows h with hserved | ⟨newKey, -, hserved⟩
  · rw [hserved, hrow]
  · rw [hserved]
    exact perform_spares newKey hrow hspares

/-- No row is made under a key that the statement does not give. -/
theorem served_absent {calls : List Database.Call} {statement : Statement} {key : Nat}
    (h : Sends pqEscapeLiteral calls statement) (hnone : rows key = none)
    (hkey : ∀ newKey, accepted = some newKey → ¬ Gives cls newKey key statement) :
    (served pqEscapeLiteral cls columns accepted rows calls).2 key = none := by
  rcases rows_served cls columns accepted rows h with hserved | ⟨newKey, haccepted, hserved⟩
  · rw [hserved, hnone]
  · rw [hserved]
    exact perform_absent hnone (hkey newKey haccepted)

/-- The saved values do not assign a key. -/
theorem storedValues_savedValues_key (pqEscapeLiteral : Text → Option Text) (cls : ModelClass)
    (attributes : TextMap) :
    (Statement.storedValues pqEscapeLiteral (savedValues cls attributes))[cls.primaryKey]? =
      none := by
  rw [Statement.storedValues, Std.ExtTreeMap.getElem?_map, getElem?_savedValues, if_pos rfl,
    Option.map_none]

/-- The `UPDATE` of an object is written over its row. -/
theorem perform_updateOf (newKey key : Nat) :
    perform cls columns newKey rows (updateOf pqEscapeLiteral cls attributes key) =
      (.commandOk, fun k => (rows k).map fun row =>
        if cell cls k row cls.primaryKey = some (natText key) then
          overwrite (Statement.storedValues pqEscapeLiteral (savedValues cls attributes)) row
        else row) := by
  unfold updateOf perform
  dsimp only
  rw [storedValues_savedValues_key]

/-- `save` sends a statement that spares every row but that of the object, and that gives no key
but the new one. -/
theorem sends_save (hread : Statement.ReadsLiterals pqEscapeLiteral) (hcls : Readable cls)
    (h : PlainObject cls attributes) :
    ∃ statement, Sends pqEscapeLiteral (save pqEscapeLiteral cls attributes) statement ∧
      (∀ key, attributes[cls.primaryKey]? ≠ some (natText key) → Spares cls key statement) ∧
      ∀ newKey key, Gives cls newKey key statement → newKey = key := by
  cases hvalues : (savedValues cls attributes).isEmpty with
  | true =>
      have hcalls : save pqEscapeLiteral cls attributes = [] := by
        rw [save_eq, saveRequest, if_pos hvalues]
        rfl
      rw [hcalls]
      exact ⟨insertOf pqEscapeLiteral cls attributes, sends_nil _, fun _ _ => trivial,
        fun _ _ => id⟩
  | false =>
      cases hpresent : isPresent attributes cls.primaryKey with
      | false =>
          exact ⟨_, sends_insert hread hcls h hpresent hvalues, fun _ _ => trivial, fun _ _ => id⟩
      | true =>
          obtain ⟨id, hid, hne⟩ := (isPresent_iff _ _).mp hpresent
          obtain ⟨key, rfl⟩ := (h.id id hid).resolve_left hne
          refine ⟨_, sends_update hread hcls h hid hvalues, fun other hother => ⟨rfl, ?_⟩,
            fun _ _ hgives => ?_⟩
          · rw [hid] at hother
            exact fun heq => hother (congrArg some heq)
          · rw [updateOf, Gives, storedValues_savedValues_key] at hgives
            cases hgives

/-- A text that the server finds is no key, unless the escaped text is it. -/
theorem storedText_ne {id : Text} {key : Nat} (h : id ≠ natText key) :
    Statement.storedText pqEscapeLiteral id ≠ natText key := by
  unfold Statement.storedText
  split
  · intro heq
    have hmem : 'E' ∈ natText key := by
      rw [← heq]
      exact List.mem_cons_self
    exact absurd (isDigit_of_mem_natText hmem) (by decide)
  · exact h

/-! ## Plain objects -/

/-- An attribute may be set to anything, the id to one of a key. -/
theorem PlainObject.set (h : PlainObject cls attributes) {key value : Text}
    (hid : key = cls.primaryKey → IsId value) :
    PlainObject cls (setAttribute cls attributes key value) := by
  constructor
  · intro k v hk
    rw [getElem?_setAttribute] at hk
    split at hk
    · next hset => exact Or.inl (hset.2 ▸ hset.1)
    · exact h.known k v hk
  · intro v hk
    rw [getElem?_setAttribute] at hk
    split at hk
    · next hset => exact Option.some.inj hk ▸ hid hset.2
    · exact h.id v hk

/-- So may the entries of some data, one by one. -/
theorem PlainObject.setAll (h : PlainObject cls attributes) {data : TextMap}
    {setField : TextMap → Text → Text → TextMap}
    (hset : ∀ attributes key value, setField attributes key value = attributes ∨
      setField attributes key value = setAttribute cls attributes key value)
    (hid : ∀ id : Text, data[cls.primaryKey]? = some id → IsId id) :
    PlainObject cls (data.foldl setField attributes) := by
  rw [Std.ExtTreeMap.foldl_eq_foldl_toList]
  have hentries : ∀ entry ∈ data.toList, entry.1 = cls.primaryKey →
      IsId entry.2 := by
    intro entry hentry hkey
    refine hid entry.2 ?_
    rw [← hkey]
    exact mem_toList_iff.mp hentry
  revert hentries
  generalize data.toList = entries
  intro hentries
  induction entries generalizing attributes with
  | nil => exact h
  | cons entry entries ih =>
      rw [List.forall_mem_cons] at hentries
      refine ih ?_ hentries.2
      show PlainObject cls (setField attributes entry.1 entry.2)
      rcases hset attributes entry.1 entry.2 with heq | heq
      · rwa [heq]
      · rw [heq]
        exact h.set hentries.1

/-- The key of a new row may be written back. -/
theorem PlainObject.keyed (h : PlainObject cls attributes) (key : Nat) :
    PlainObject cls (attributes.insert cls.primaryKey (natText key)) := by
  constructor
  · intro k v hk
    rw [getElem?_insert] at hk
    split at hk
    · next hkey => exact Or.inr hkey.symm
    · exact h.known k v hk
  · intro v hk
    rw [getElem?_insert, if_pos rfl] at hk
    exact Or.inr ⟨key, (Option.some.inj hk).symm⟩

theorem PlainObject.empty : PlainObject cls ∅ := by
  constructor
  · intro key value h
    simp at h
  · intro value h
    simp at h

end

end Model

end Brazier
