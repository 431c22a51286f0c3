import Brazier.Database.Models.ModelQueryBuilder
import Brazier.Database.Models.SaveMany

/-!
# Question marks in values

`save` hands the finished text of its `INSERT` to `queryMap`, and `ModelQueryBuilder::get` its query
to `queryToVector`. Both count the question marks of the text as placeholders, those in the literals
too, and throw if there are any.
-/

namespace Brazier

namespace Model

/-- The first row of the answer to a call, or what the call has thrown. -/
def replyTo (pqEscapeLiteral : Text → Option Text) (db : Database) :
    Database.Call → Except Text TextMap × Database
  | .queryMap sqlTemplate params => Database.queryMap pqEscapeLiteral db sqlTemplate params
  | call =>
      let (result, db) := Database.perform pqEscapeLiteral db call
      (result.map fun _ => ∅, db)

/-- `save` on a connection: what it returns, the attributes and the connection afterwards. -/
def saveOn (pqEscapeLiteral : Text → Option Text) (cls : ModelClass) (db : Database)
    (attributes : TextMap) : (Bool × TextMap) × Database :=
  match save pqEscapeLiteral cls attributes with
  | [] => (saved cls attributes (.ok ∅), db)
  | call :: _ =>
      let (reply, db) := replyTo pqEscapeLiteral db call
      (saved cls attributes reply, db)

/-- The `INSERT` of `save`. -/
def insertSql (pqEscapeLiteral : Text → Option Text) (cls : ModelClass) (attributes : TextMap) :
    Text :=
  ((SQLQueryBuilder.ofTable cls.tableName).insert
    (saveValues pqEscapeLiteral cls attributes)).get ++ (" RETURNING " : Text) ++ cls.primaryKey

/-- `save` returns `true` and its row is inserted. -/
def Inserts (pqEscapeLiteral : Text → Option Text) (cls : ModelClass) (db : Database)
    (attributes : TextMap) : Prop :=
  (saveOn pqEscapeLiteral cls db attributes).1.1 = true ∧
    (saveOn pqEscapeLiteral cls db attributes).2.contents =
      db.contents ++ [insertSql pqEscapeLiteral cls attributes]

/-- No name and no value that `save` writes has a question mark. -/
structure Unmarked (cls : ModelClass) (attributes : TextMap) : Prop where
  table : '?' ∉ cls.tableName
  primaryKey : '?' ∉ cls.primaryKey
  values : ∀ key value : Text, attributes[key]? = some value → key ≠ cls.primaryKey →
    '?' ∉ key ∧ '?' ∉ value

variable {pqEscapeLiteral : Text → Option Text} {cls : ModelClass} {attributes : TextMap}

/-- Without a primary key `save` makes one call, for its `INSERT`. -/
theorem save_insert (hkey : isPresent attributes cls.primaryKey = false)
    (hvalues : (savedValues cls attributes).isEmpty = false) :
    save pqEscapeLiteral cls attributes =
      [.queryMap (insertSql pqEscapeLiteral cls attributes) []] := by
  unfold save
  dsimp only
  rw [saveValues_eq, isEmpty_escapeValues, hvalues, if_neg Bool.false_ne_true, hkey,
    if_neg Bool.false_ne_true]
  rfl

/-- The question marks of the values that are written. -/
theorem marked_saveValues (hesc : QuotesLiterals pqEscapeLiteral)
    (hall : ∀ value, pqEscapeLiteral value ≠ none) :
    Marked (SQLQueryBuilder.entryTexts (saveValues pqEscapeLiteral cls attributes)) ↔
      ∃ key value : Text, attributes[key]? = some value ∧ key ≠ cls.primaryKey ∧
        ('?' ∈ key ∨ '?' ∈ value) := by
  rw [SQLQueryBuilder.marked_entryTexts_iff]
  have hmark : ∀ value,
      '?' ∈ SQLString.escapeString pqEscapeLiteral value ↔ '?' ∈ value := by
    intro value
    rw [mark_mem_escape_string hesc, and_iff_left (hall value)]
  have hentry : ∀ key value : Text,
      (saveValues pqEscapeLiteral cls attributes)[key]? = some value ↔
        key ≠ cls.primaryKey ∧ ∃ raw : Text, attributes[key]? = some raw ∧
          SQLString.escapeString pqEscapeLiteral raw = value := by
    intro key value
    rw [saveValues_eq, escapeValues, Std.ExtTreeMap.getElem?_map, getElem?_savedValues]
    by_cases hkey : key = cls.primaryKey
    · simp [hkey]
    · simp [hkey]
  constructor
  · intro h
    obtain ⟨key, value, hvalue, hor⟩ := h
    obtain ⟨hkey, raw, hraw, rfl⟩ := (hentry key value).mp hvalue
    exact ⟨key, raw, hraw, hkey, hor.imp_right (hmark raw).mp⟩
  · intro h
    obtain ⟨key, raw, hraw, hkey, hor⟩ := h
    exact ⟨key, _, (hentry key _).mpr ⟨hkey, raw, hraw, rfl⟩, hor.imp_right (hmark raw).mpr⟩

/-- The question marks of the `INSERT` are those of its names and literals. -/
theorem mem_insertSql_iff (hvalues : (savedValues cls attributes).isEmpty = false) :
    '?' ∈ insertSql pqEscapeLiteral cls attributes ↔
      ('?' ∈ cls.tableName ∨
        Marked (SQLQueryBuilder.entryTexts (saveValues pqEscapeLiteral cls attributes))) ∨
        '?' ∈ cls.primaryKey := by
  have hempty : (saveValues pqEscapeLiteral cls attributes).isEmpty = false := by
    rw [saveValues_eq, isEmpty_escapeValues, hvalues]
  have hget : ((SQLQueryBuilder.ofTable cls.tableName).insert
      (saveValues pqEscapeLiteral cls attributes)).get =
        ((SQLQueryBuilder.ofTable cls.tableName).insert
          (saveValues pqEscapeLiteral cls attributes)).insertText := if_pos hempty
  have hreturning : '?' ∉ (" RETURNING " : Text) := by simp
  rw [insertSql, List.mem_append, List.mem_append, or_iff_left hreturning, hget,
    SQLQueryBuilder.mem_insertText]
  rfl

/-- The text of the `INSERT` has a question mark where a name or a value has one. -/
theorem mem_insertSql (hesc : QuotesLiterals pqEscapeLiteral)
    (hall : ∀ value, pqEscapeLiteral value ≠ none)
    (hvalues : (savedValues cls attributes).isEmpty = false) :
    '?' ∈ insertSql pqEscapeLiteral cls attributes ↔ ¬ Unmarked cls attributes := by
  rw [mem_insertSql_iff hvalues, marked_saveValues hesc hall]
  constructor
  · intro h hunmarked
    rcases h with (htable | ⟨key, value, hvalue, hkey, hor⟩) | hprimary
    · exact hunmarked.table htable
    · obtain ⟨hname, htext⟩ := hunmarked.values key value hvalue hkey
      exact hor.elim hname htext
    · exact hunmarked.primaryKey hprimary
  · intro h
    by_contra hno
    rw [not_or, not_or] at hno
    refine h ⟨hno.1.1, hno.2, fun key value hvalue hkey => ?_⟩
    rw [← not_or]
    exact fun hor => hno.1.2 ⟨key, value, hvalue, hkey, hor⟩

end Model

namespace Database

/-- A statement that is done and returns rows is fetched. -/
theorem fetch_of_rows {db : Database} {rows : Rows} (hnext : db.doesNext = true)
    (hrows : db.nextAnswer = .tuplesOk rows) (sql : Text) :
    (db.fetch sql).1 = .ok rows ∧ (db.fetch sql).2.contents = db.contents ++ [sql] := by
  have hstatus : (db.pqExec (.statement sql)).1 = .tuplesOk rows := by
    show (db.server.session.exec (.statement sql) db.nextAnswer).2.2 = _
    rw [doesNext] at hnext
    rw [hrows]
    cases hsession : db.server.session with
    | idle => rfl
    | inTransaction block => rfl
    | aborted block =>
        rw [hsession] at hnext
        cases hnext
  refine ⟨?_, ?_⟩
  · unfold fetch
    cases hexec : db.pqExec (.statement sql) with
    | mk status db' =>
        rw [hexec] at hstatus
        subst hstatus
        rfl
  · have hexecute : (db.execute sql).2 = (db.pqExec (.statement sql)).2 := by
      rw [(db.execute_spec sql).2, accepts_statement, hnext, if_neg (by simp)]
    rw [(db.fetch_spec sql).2, ← hexecute, contents_of_done hnext]

end Database

namespace Model

variable {pqEscapeLiteral : Text → Option Text} {cls : ModelClass} {attributes : TextMap}

/-- `save` of a model without a primary key inserts its row exactly when no name and no value has a
question mark. -/
theorem inserts_iff (hesc : QuotesLiterals pqEscapeLiteral)
    (hall : ∀ value, pqEscapeLiteral value ≠ none)
    (hkey : isPresent attributes cls.primaryKey = false)
    (hvalues : (savedValues cls attributes).isEmpty = false) {db : Database}
    {rows : Brazier.Rows} (hnext : db.doesNext = true) (hrows : db.nextAnswer = .tuplesOk rows) :
    Inserts pqEscapeLiteral cls db attributes ↔ Unmarked cls attributes := by
  have hmem := mem_insertSql hesc hall hvalues
  have hsave : saveOn pqEscapeLiteral cls db attributes =
      (saved cls attributes (Database.queryMap pqEscapeLiteral db
        (insertSql pqEscapeLiteral cls attributes) []).1,
        (Database.queryMap pqEscapeLiteral db
          (insertSql pqEscapeLiteral cls attributes) []).2) := by
    rw [saveOn, save_insert hkey hvalues]
    rfl
  unfold Inserts
  rw [hsave]
  by_cases hmark : '?' ∈ insertSql pqEscapeLiteral cls attributes
  · refine iff_of_false ?_ (hmem.mp hmark)
    rw [Database.queryMap, Database.fetchTemplate_marked pqEscapeLiteral db hmark]
    intro h
    have hfalse : (saved cls attributes (.error (Database.mismatchMessage
        ((insertSql pqEscapeLiteral cls attributes).count '?') 0))).1 = false := by
      unfold saved
      rw [hvalues, if_neg Bool.false_ne_true]
    exact absurd (hfalse.symm.trans h.1) Bool.false_ne_true
  · refine iff_of_true ?_ (by rwa [hmem, not_not] at hmark)
    obtain ⟨hresult, hcontents⟩ :=
      Database.fetch_of_rows hnext hrows (insertSql pqEscapeLiteral cls attributes)
    rw [Database.queryMap, Database.fetchTemplate_finished pqEscapeLiteral db hmark]
    refine ⟨?_, hcontents⟩
    show (saved cls attributes ((db.fetch _).1.map _)).1 = true
    unfold saved
    rw [hresult, hvalues, if_neg Bool.false_ne_true, Except.map, hkey]
    rfl

theorem quoteLiteral_ne_none (value : Text) : quoteLiteral value ≠ none := by
  intro h
  cases h

/-- The class of users, whose login may be filled. -/
def fillableUsers : FillableClass := { users with fillable := ["login"] }

/-- A user with a login. -/
def withLogin (login : Text) : TextMap := (∅ : TextMap).insert "login" login

/-- A database that gives the next row the key 1. -/
def returningOne : Database := Database.connect [] [.tuplesOk ⟨["id"], [["1"]]⟩]

end Model

end Brazier
