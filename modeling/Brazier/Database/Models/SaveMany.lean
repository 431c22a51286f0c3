import Brazier.Database.Methods
import Brazier.Database.Models.Escaping

/-!
# Saving many models

`saveMany` sends its updates in one batch and its inserts in another, and makes up the second after
the server has done the first. `allOrNothing_iff` says when it returns, and leaves the database as
it was unless it returns true: for every list of models, every state of the connection and every
answer of the server, for a list and for a `Collection`.
-/

namespace Brazier

/-- What a session has done and not yet committed. The work of an aborted block is gone. -/
def Session.pending : Session → List Text
  | .inTransaction block => block.pending
  | _ => []

/-- A statement that is done is committed at once or stays pending. -/
theorem Session.exec_statement_done {s : Session} {answer : Answer}
    (h : (!s.isAborted && answer.accepts) = true) (sql : Text) :
    (s.exec (.statement sql) answer).2.1.flatten ++ (s.exec (.statement sql) answer).1.pending =
      s.pending ++ [sql] := by
  cases s with
  | aborted block => cases h
  | idle => cases answer <;> first | rfl | cases h
  | inTransaction block => cases answer <;> first | rfl | cases h

/-- It is committed at once in an idle session only, and does not abort a block. -/
theorem Session.exec_statement_committed {s : Session} {answer : Answer}
    (h : (!s.isAborted && answer.accepts) = true) (sql : Text) :
    (s.exec (.statement sql) answer).2.1 = (if s = .idle then [[sql]] else []) ∧
      (s.exec (.statement sql) answer).1.isAborted = false := by
  cases s with
  | aborted block => cases h
  | idle => cases answer <;> first | exact ⟨rfl, rfl⟩ | cases h
  | inTransaction block => cases answer <;> first | exact ⟨rfl, rfl⟩ | cases h

/-- A statement that fails commits nothing and leaves nothing pending. -/
theorem Session.exec_statement_failed {s : Session} {answer : Answer}
    (h : (!s.isAborted && answer.accepts) = false) (sql : Text) :
    (s.exec (.statement sql) answer).2.1 = [] ∧
      (s.exec (.statement sql) answer).1.pending = [] := by
  cases s with
  | aborted block => exact ⟨rfl, rfl⟩
  | idle => cases answer <;> first | exact ⟨rfl, rfl⟩ | cases h
  | inTransaction block => cases answer <;> first | exact ⟨rfl, rfl⟩ | cases h

namespace Database

/-- The statements whose effects the connection sees in the database. -/
def contents (db : Database) : List Text :=
  db.server.committed.flatten ++ db.server.session.pending

/-- The server does the next statement. -/
def doesNext (db : Database) : Bool := !db.server.session.isAborted && db.nextAnswer.accepts

/-- The server does the statement behind the next one. -/
def doesSecond (db : Database) : Bool := (db.answers.tail.headD .commandOk).accepts

/-- Calls up to the first that throws. -/
def performAll (pqEscapeLiteral : Text → Option Text) (db : Database) : List Call → Database
  | [] => db
  | call :: calls =>
      match perform pqEscapeLiteral db call with
      | (.error _, db) => db
      | (.ok (), db) => performAll pqEscapeLiteral db calls

end Database

namespace Model

variable (pqEscapeLiteral : Text → Option Text) (cls : ModelClass)

/-- The `try` blocks around the two batches: a failure is logged. -/
def caught (result : Except Text Unit × Database) : Except Text Bool × Database :=
  (.ok result.1.isOk, result.2)

/-- The text of the batch insert. -/
def insertText (columns rows : List Text) : Text :=
  ("INSERT INTO " : Text) ++ cls.tableName ++ (" (" : Text) ++ joinWith ", " columns ++
    (") VALUES " : Text) ++ joinWith ", " rows ++ (";" : Text)

/-- The insert half of `saveMany`. The rows are built outside of its `try` block. -/
def insertMany (db : Database) (columns : List Text) (toInsert : List TextMap) :
    Except Text Bool × Database :=
  if toInsert = [] then (.ok true, db)
  else if columns = [] then (.ok false, db)
  else
    match toInsert.mapM (insertRow pqEscapeLiteral columns) with
    | .error e => (.error e, db)
    | .ok rows => caught (db.execute (insertText cls columns rows))

/-- The text of the batch update. -/
def updateText (toUpdate : List TextMap) : Text :=
  (toUpdate.map (batchUpdateOne pqEscapeLiteral cls)).flatten

/-- `saveMany` on a connection. -/
def saveManyOn (db : Database) : List TextMap → Except Text Bool × Database
  | [] => (.ok false, db)
  | first :: rest =>
      let models := first :: rest
      let toUpdate := models.filter (fun m => isPresent m cls.primaryKey)
      let toInsert := models.filter (fun m => !isPresent m cls.primaryKey)
      let finalQuery := updateText pqEscapeLiteral cls toUpdate
      if finalQuery = [] then insertMany pqEscapeLiteral cls db (insertColumns cls first) toInsert
      else
        match db.execute finalQuery with
        | (.error _, db) => (.ok false, db)
        | (.ok (), db) => insertMany pqEscapeLiteral cls db (insertColumns cls first) toInsert

/-- `Collection::save`. -/
def saveCollection (db : Database) (items : List TextMap) : Except Text Bool × Database :=
  if items = [] then (.ok false, db) else saveManyOn pqEscapeLiteral cls db items

/-- An empty list is not passed on, but `saveMany` returns false for it too. -/
theorem saveCollection_eq (db : Database) (items : List TextMap) :
    saveCollection pqEscapeLiteral cls db items = saveManyOn pqEscapeLiteral cls db items := by
  cases items with
  | nil => rfl
  | cons first rest => exact if_neg (List.cons_ne_nil first rest)

/-! ## The calls -/

/-- The insert half makes the call of the batch insert. -/
theorem performAll_insertMany (db : Database) (columns : List Text) (toInsert : List TextMap) :
    (insertMany pqEscapeLiteral cls db columns toInsert).2 =
      db.performAll pqEscapeLiteral
        (if toInsert = [] ∨ columns = [] then []
        else batchInsert pqEscapeLiteral cls columns toInsert) := by
  rw [insertMany]
  by_cases hinsert : toInsert = []
  · rw [if_pos hinsert, if_pos (Or.inl hinsert)]
    rfl
  · by_cases hcolumns : columns = []
    · rw [if_neg hinsert, if_pos hcolumns, if_pos (Or.inr hcolumns)]
      rfl
    · rw [if_neg hinsert, if_neg hcolumns, if_neg (not_or.mpr ⟨hinsert, hcolumns⟩), batchInsert]
      cases toInsert.mapM (insertRow pqEscapeLiteral columns) with
      | error e => rfl
      | ok rows =>
          show (db.execute (insertText cls columns rows)).2 =
            (match db.execute (insertText cls columns rows) with
            | (.error _, db) => db
            | (.ok (), db) => db)
          split
          · next heq => rw [heq]
          · next heq => rw [heq]

/-- `saveMany` makes the calls that are listed for it, up to the first that throws. -/
theorem performAll_saveMany (db : Database) (models : List TextMap) :
    (saveManyOn pqEscapeLiteral cls db models).2 =
      db.performAll pqEscapeLiteral (saveMany pqEscapeLiteral cls models) := by
  cases models with
  | nil => rfl
  | cons first rest =>
      show (if _ then _ else _ : Except Text Bool × Database).2 = _
      rw [saveMany]
      show _ = db.performAll pqEscapeLiteral
        ((if updateText pqEscapeLiteral cls _ = [] then [] else [.execute _]) ++ _)
      split
      · rw [List.nil_append]
        exact performAll_insertMany pqEscapeLiteral cls db _ _
      · show _ = (match db.execute (updateText pqEscapeLiteral cls _) with
          | (.error _, db) => db
          | (.ok (), db) => db.performAll pqEscapeLiteral _)
        split
        · rfl
        · exact performAll_insertMany pqEscapeLiteral cls _ _ _

end Model

namespace Database

/-! ## What a statement does to the contents -/

theorem accepts_statement (db : Database) (sql : Text) :
    db.accepts (.statement sql) = db.doesNext := by
  unfold accepts doesNext
  cases db.server.session <;> rfl

/-- `execute` returns exactly when the server does the statement. -/
theorem isOk_execute (db : Database) (sql : Text) : (db.execute sql).1.isOk = db.doesNext := by
  rw [(db.execute_spec sql).1, accepts_statement]

variable {db : Database}

/-- A statement that is done is added. -/
theorem contents_of_done (h : db.doesNext = true) (sql : Text) :
    (db.execute sql).2.contents = db.contents ++ [sql] := by
  rw [(db.execute_spec sql).2, accepts_statement, h, if_neg (by simp), contents, session_pq_exec,
    committed_pq_exec, contents, List.flatten_append, List.append_assoc,
    Session.exec_statement_done h, List.append_assoc]

/-- A statement that fails leaves what is committed. -/
theorem contents_of_failed (h : db.doesNext = false) (sql : Text) :
    (db.execute sql).2.contents = db.server.committed.flatten := by
  obtain ⟨hdone, hpending⟩ := Session.exec_statement_failed h sql
  have hcommitted : (db.pqExec (.statement sql)).2.server.committed = db.server.committed := by
    rw [committed_pq_exec, hdone, List.append_nil]
  rw [(db.execute_spec sql).2, accepts_statement, h]
  cases db.inTransaction with
  | false =>
      rw [if_neg (by simp), contents, hcommitted, session_pq_exec, hpending, List.append_nil]
  | true =>
      -- `ROLLBACK` leaves the session idle
      have hidle := Session.exec_ends (db.pqExec (.statement sql)).2.server.session .rollback rfl
        (db.pqExec (.statement sql)).2.nextAnswer
      show (((db.pqExec (.statement sql)).2.pqExec .rollback).2.server.committed).flatten ++
        Session.pending (Session.exec _ _ _).1 = _
      rw [committed_rollback, hcommitted, hidle]
      exact List.append_nil _

/-- A failure changes the contents exactly when something is pending. -/
theorem contents_failed_iff (h : db.doesNext = false) (sql : Text) :
    (db.execute sql).2.contents = db.contents ↔ db.server.session.pending = [] := by
  rw [contents_of_failed h, contents, List.self_eq_append_right]

/-- After a statement that is done, the next one depends on the second answer. -/
theorem doesNext_of_done (h : db.doesNext = true) (sql : Text) :
    (db.execute sql).2.doesNext = db.doesSecond := by
  rw [(db.execute_spec sql).2, accepts_statement, h, if_neg (by simp)]
  show (!(db.server.session.exec (.statement sql) db.nextAnswer).1.isAborted && _) = _
  rw [(Session.exec_statement_committed h sql).2]
  rfl

/-- A failure behind a statement that is done leaves the contents from before it only in a block
with nothing pending. -/
theorem contents_second_failed_iff (h : db.doesNext = true) (hsecond : db.doesSecond = false)
    (sql sql' : Text) :
    ((db.execute sql).2.execute sql').2.contents = db.contents ↔
      db.server.session ≠ .idle ∧ db.server.session.pending = [] := by
  have hcommitted : (db.execute sql).2.server.committed =
      db.server.committed ++ if db.server.session = .idle then [[sql]] else [] := by
    rw [(db.execute_spec sql).2, accepts_statement, h, if_neg (by simp), committed_pq_exec,
      (Session.exec_statement_committed h sql).1]
  rw [contents_of_failed ((doesNext_of_done h sql).trans hsecond), hcommitted, contents,
    List.flatten_append, List.append_cancel_left_eq]
  by_cases hidle : db.server.session = .idle
  · rw [if_pos hidle, hidle]
    exact iff_of_false (List.cons_ne_nil sql []) fun h => h.1 rfl
  · rw [if_neg hidle]
    exact ⟨fun h => ⟨hidle, h.symm⟩, fun h => h.2.symm⟩

end Database

namespace Model

variable {pqEscapeLiteral : Text → Option Text} {cls : ModelClass}

/-! ## What is sent -/

/-- The model has something to update. -/
def hasData (cls : ModelClass) (attributes : TextMap) : Bool :=
  cls.fields.any (fun key => key ≠ cls.primaryKey && isPresent attributes key)

/-- A field is in the update data if it is not the primary key and has a value. -/
theorem mem_updateData (attributes : TextMap) (key : Text) :
    (updateData cls attributes)[key]?.isSome =
      cls.fields.any (fun field =>
        field ≠ cls.primaryKey && isPresent attributes field && decide (field = key)) := by
  have hfold : ∀ (fields : List Text) (data : TextMap),
      (fields.foldl (addField cls attributes) data)[key]?.isSome =
        (data[key]?.isSome || fields.any (fun field =>
          field ≠ cls.primaryKey && isPresent attributes field && decide (field = key))) := by
    intro fields
    induction fields with
    | nil => exact fun data => (Bool.or_false _).symm
    | cons field rest ih =>
        intro data
        rw [List.foldl_cons, ih, mem_add_field, List.any_cons, Bool.or_assoc]
  have hempty : (∅ : TextMap)[key]?.isSome = false := by simp
  rw [updateData, hfold, hempty, Bool.false_or]

theorem updateData_isEmpty (cls : ModelClass) (attributes : TextMap) :
    (updateData cls attributes).isEmpty = !hasData cls attributes := by
  rw [Bool.eq_iff_iff, isEmpty_iff_no_key]
  simp only [mem_updateData, hasData, Bool.not_eq_true', List.any_eq_false]
  constructor
  · intro h field hfield
    have hno := h field field hfield
    rwa [decide_eq_true rfl, Bool.and_true] at hno
  · intro h key field hfield
    rw [Bool.and_eq_true]
    exact fun hboth => h field hfield hboth.1

/-- A model with an id adds to the batch update unless it has nothing to update. -/
theorem batchUpdateOne_eq_nil_iff {attributes : TextMap}
    (hid : isPresent attributes cls.primaryKey = true) :
    batchUpdateOne pqEscapeLiteral cls attributes = [] ↔ hasData cls attributes = false := by
  rw [batchUpdateOne, updateData_isEmpty]
  rw [isPresent] at hid
  cases hget : getAttribute attributes cls.primaryKey with
  | error e =>
      rw [hget] at hid
      cases hid
  | ok id => cases hasData cls attributes <;> simp

/-! ## When nothing is half done -/

/-- Some model with an id has something to update. -/
def hasUpdates (cls : ModelClass) (models : List TextMap) : Bool :=
  models.any (fun m => isPresent m cls.primaryKey && hasData cls m)

/-- Some model has no id. -/
def hasInserts (cls : ModelClass) (models : List TextMap) : Bool :=
  models.any (fun m => !isPresent m cls.primaryKey)

/-- The columns of the batch insert, by the first model. -/
def columnsOf (cls : ModelClass) : List TextMap → List Text
  | [] => []
  | first :: _ => insertColumns cls first

/-- Every model without an id has an attribute for every column. -/
def RowsComplete (cls : ModelClass) (models : List TextMap) : Prop :=
  ∀ m ∈ models, isPresent m cls.primaryKey = false →
    ∀ key ∈ columnsOf cls models, (m[key]?).isSome = true

/-- The server does the batch insert. -/
def insertDone (db : Database) (cls : ModelClass) (models : List TextMap) : Bool :=
  if hasUpdates cls models then db.doesSecond else db.doesNext

/-- The insert half is reached and has models to insert. -/
def ReachesInsert (db : Database) (cls : ModelClass) (models : List TextMap) : Prop :=
  (hasUpdates cls models = true → db.doesNext = true) ∧ hasInserts cls models = true

/-- Nothing is lost or left half done. -/
structure SavesWhole (db : Database) (cls : ModelClass) (models : List TextMap) : Prop where
  /-- A batch update that fails ends a transaction only if nothing is pending in it. -/
  update : hasUpdates cls models = true → db.doesNext = false → db.server.session.pending = []
  /-- Where the first model gives no columns, no update was sent. -/
  columns : ReachesInsert db cls models → columnsOf cls models = [] → hasUpdates cls models = false
  rows : ReachesInsert db cls models → RowsComplete cls models
  /-- A batch insert that fails comes behind no update, unless that is lost with the block. -/
  insert : ReachesInsert db cls models → columnsOf cls models ≠ [] →
    insertDone db cls models = false →
      db.server.session.pending = [] ∧
        (hasUpdates cls models = true → db.server.session ≠ .idle)

/-- A boolean is returned, and unless it is true the database is as it was. -/
def AllOrNothing (db : Database) (outcome : Except Text Bool × Database) : Prop :=
  ∃ saved, outcome.1 = .ok saved ∧ (saved = false → outcome.2.contents = db.contents)

theorem updateText_eq_nil_iff (pqEscapeLiteral : Text → Option Text) (cls : ModelClass)
    (models : List TextMap) :
    updateText pqEscapeLiteral cls (models.filter (fun m => isPresent m cls.primaryKey)) = [] ↔
      hasUpdates cls models = false := by
  rw [updateText, List.flatten_eq_nil_iff, List.forall_mem_map, hasUpdates, List.any_eq_false]
  constructor
  · intro h m hm
    rw [Bool.and_eq_true]
    intro ⟨hid, hdata⟩
    have hnil := h m (List.mem_filter.mpr ⟨hm, hid⟩)
    rw [batchUpdateOne_eq_nil_iff hid, hdata] at hnil
    cases hnil
  · intro h m hm
    obtain ⟨hm, hid⟩ := List.mem_filter.mp hm
    rw [batchUpdateOne_eq_nil_iff hid]
    simpa [hid] using h m hm

theorem toInsert_eq_nil_iff (cls : ModelClass) (models : List TextMap) :
    models.filter (fun m => !isPresent m cls.primaryKey) = [] ↔ hasInserts cls models = false := by
  rw [List.filter_eq_nil_iff, hasInserts, List.any_eq_false]

theorem toInsert_ne_nil_iff (cls : ModelClass) (models : List TextMap) :
    models.filter (fun m => !isPresent m cls.primaryKey) ≠ [] ↔ hasInserts cls models = true := by
  rw [ne_eq, toInsert_eq_nil_iff, Bool.not_eq_false]

/-- A list of computations returns when all of them do. -/
theorem isOk_mapM {α β : Type} (f : α → Except Text β) (items : List α) :
    (items.mapM f).isOk = items.all (fun item => (f item).isOk) := by
  induction items with
  | nil => rfl
  | cons item rest ih =>
      rw [List.mapM_cons, List.all_cons, ← ih]
      cases f item with
      | error e => rfl
      | ok value => cases rest.mapM f <;> rfl

/-- A row is built when every column has an attribute. -/
theorem insertRow_isOk (columns : List Text) (attributes : TextMap) :
    (insertRow pqEscapeLiteral columns attributes).isOk =
      columns.all (fun key => (attributes[key]?).isSome) := by
  have hcell : ∀ key : Text, (do
      let value ← getAttribute attributes key
      return SQLString.escapeString pqEscapeLiteral value : Except Text Text).isOk =
        (attributes[key]?).isSome := by
    intro key
    rw [getAttribute]
    cases attributes[key]? <;> rfl
  rw [insertRow]
  have hrow : ∀ cells : Except Text (List Text), (do
      let cells ← cells
      return ("(" : Text) ++ joinWith ", " cells ++ (")" : Text) : Except Text Text).isOk =
        cells.isOk := by
    intro cells
    cases cells <;> rfl
  rw [hrow, isOk_mapM]
  simp only [hcell]

/-- The rows are built when every model without an id has an attribute for every column. -/
theorem rows_isOk_iff (pqEscapeLiteral : Text → Option Text) (cls : ModelClass)
    (models : List TextMap) :
    ((models.filter (fun m => !isPresent m cls.primaryKey)).mapM
      (insertRow pqEscapeLiteral (columnsOf cls models))).isOk = true ↔
        RowsComplete cls models := by
  rw [isOk_mapM, List.all_eq_true]
  simp only [List.mem_filter, Bool.not_eq_true', insertRow_isOk, List.all_eq_true, RowsComplete,
    and_imp]

/-! ## The two halves -/

variable {db : Database} (models : List TextMap)

/-- The outcome of a statement in a `try` block. -/
theorem allOrNothing_caught (before db : Database) (sql : Text) :
    AllOrNothing before (caught (db.execute sql)) ↔
      (db.doesNext = false → (db.execute sql).2.contents = before.contents) := by
  have hok := db.isOk_execute sql
  constructor
  · intro ⟨saved, hsaved, hsame⟩ hfails
    refine hsame ?_
    rw [← Except.ok.inj hsaved, hok, hfails]
  · intro h
    exact ⟨db.doesNext, congrArg Except.ok hok, h⟩

/-- The insert half, behind a connection `before` with the contents that are to be kept. -/
theorem allOrNothing_insertMany (pqEscapeLiteral : Text → Option Text) (before db : Database) :
    AllOrNothing before (insertMany pqEscapeLiteral cls db (columnsOf cls models)
        (models.filter (fun m => !isPresent m cls.primaryKey))) ↔
      (hasInserts cls models = true →
        (columnsOf cls models = [] → db.contents = before.contents) ∧ RowsComplete cls models ∧
          (columnsOf cls models ≠ [] → db.doesNext = false →
            ∀ sql, (db.execute sql).2.contents = before.contents)) := by
  rw [insertMany]
  by_cases hinsert : models.filter (fun m => !isPresent m cls.primaryKey) = []
  · rw [if_pos hinsert]
    rw [toInsert_eq_nil_iff] at hinsert
    refine iff_of_true ⟨true, rfl, fun h => by cases h⟩ fun h => ?_
    rw [hinsert] at h
    cases h
  · rw [if_neg hinsert]
    rw [← ne_eq, toInsert_ne_nil_iff] at hinsert
    by_cases hcolumns : columnsOf cls models = []
    · rw [if_pos hcolumns]
      constructor
      · intro ⟨saved, hsaved, hsame⟩ _
        cases hsaved
        refine ⟨fun _ => hsame rfl, fun m _ _ key hkey => ?_, fun hne => absurd hcolumns hne⟩
        rw [hcolumns] at hkey
        cases hkey
      · intro h
        exact ⟨false, rfl, fun _ => (h hinsert).1 hcolumns⟩
    · rw [if_neg hcolumns]
      have hrows := rows_isOk_iff pqEscapeLiteral cls models
      cases hrow : (models.filter (fun m => !isPresent m cls.primaryKey)).mapM
          (insertRow pqEscapeLiteral (columnsOf cls models)) with
      | error e =>
          rw [hrow] at hrows
          refine iff_of_false ?_ fun h => absurd (hrows.mpr (h hinsert).2.1) Bool.false_ne_true
          intro ⟨saved, hsaved, _⟩
          cases hsaved
      | ok rows =>
          rw [hrow] at hrows
          show AllOrNothing before (caught (db.execute _)) ↔ _
          rw [allOrNothing_caught]
          constructor
          · intro h _
            refine ⟨fun hnil => absurd hnil hcolumns, hrows.mp rfl, fun _ hfails sql => ?_⟩
            rw [Database.contents_of_failed hfails]
            have hsame := h hfails
            rwa [Database.contents_of_failed hfails] at hsame
          · intro h hfails
            exact (h hinsert).2.2 hcolumns hfails _

/-- Without an update batch. -/
theorem allOrNothing_of_no_updates (pqEscapeLiteral : Text → Option Text)
    (h : hasUpdates cls models = false) :
    AllOrNothing db (insertMany pqEscapeLiteral cls db (columnsOf cls models)
        (models.filter (fun m => !isPresent m cls.primaryKey))) ↔ SavesWhole db cls models := by
  have hdone : insertDone db cls models = db.doesNext := by rw [insertDone, h]; rfl
  have hno : ∀ p : Prop, hasUpdates cls models = true → p := fun p hyes =>
    absurd (h.symm.trans hyes) Bool.false_ne_true
  rw [allOrNothing_insertMany models]
  constructor
  · intro hinsert
    refine ⟨hno _, fun _ _ => h, fun hreach => (hinsert hreach.2).2.1, ?_⟩
    intro hreach hcolumns hfails
    rw [hdone] at hfails
    have hsame := (hinsert hreach.2).2.2 hcolumns hfails []
    exact ⟨(Database.contents_failed_iff hfails []).mp hsame, hno _⟩
  · intro hwhole hinserts
    have hreach : ReachesInsert db cls models := ⟨hno _, hinserts⟩
    refine ⟨fun _ => rfl, hwhole.rows hreach, fun hcolumns hfails sql => ?_⟩
    rw [Database.contents_failed_iff hfails]
    exact (hwhole.insert hreach hcolumns (hdone.trans hfails)).1

/-- Behind an update batch that is done. -/
theorem allOrNothing_of_updates (pqEscapeLiteral : Text → Option Text)
    (h : hasUpdates cls models = true) (hnext : db.doesNext = true) (finalQuery : Text) :
    AllOrNothing db (insertMany pqEscapeLiteral cls (db.execute finalQuery).2 (columnsOf cls models)
        (models.filter (fun m => !isPresent m cls.primaryKey))) ↔ SavesWhole db cls models := by
  have hdone : insertDone db cls models = db.doesSecond := by rw [insertDone, h]; rfl
  rw [allOrNothing_insertMany models, Database.contents_of_done hnext,
    Database.doesNext_of_done hnext]
  constructor
  · intro hinsert
    refine ⟨fun _ hfails => ?_, fun hreach hcolumns => ?_, fun hreach => (hinsert hreach.2).2.1, ?_⟩
    · rw [hnext] at hfails
      cases hfails
    · have hsame := (hinsert hreach.2).1 hcolumns
      -- the update is in the contents, and false was returned
      simp at hsame
    · intro hreach hcolumns hfails
      rw [hdone] at hfails
      have hsame := (hinsert hreach.2).2.2 hcolumns hfails []
      rw [Database.contents_second_failed_iff hnext hfails] at hsame
      exact ⟨hsame.2, fun _ => hsame.1⟩
  · intro hwhole hinserts
    have hreach : ReachesInsert db cls models := ⟨fun _ => hnext, hinserts⟩
    refine ⟨fun hcolumns => ?_, hwhole.rows hreach, fun hcolumns hfails sql => ?_⟩
    · rw [hwhole.columns hreach hcolumns] at h
      cases h
    · rw [Database.contents_second_failed_iff hnext hfails]
      have hlost := hwhole.insert hreach hcolumns (hdone.trans hfails)
      exact ⟨hlost.2 h, hlost.1⟩

/-- Where the update batch fails. -/
theorem allOrNothing_of_failed_updates (h : hasUpdates cls models = true)
    (hnext : db.doesNext = false) (finalQuery : Text) :
    AllOrNothing db (.ok false, (db.execute finalQuery).2) ↔ SavesWhole db cls models := by
  have hreach : ¬ ReachesInsert db cls models := fun hreach =>
    absurd (hnext.symm.trans (hreach.1 h)) Bool.false_ne_true
  constructor
  · intro ⟨saved, hsaved, hsame⟩
    cases hsaved
    -- `execute` has rolled the block back, which is seen only if something was pending
    have hlost := (Database.contents_failed_iff hnext finalQuery).mp (hsame rfl)
    exact ⟨fun _ _ => hlost, fun h => absurd h hreach, fun h => absurd h hreach,
      fun h => absurd h hreach⟩
  · intro hwhole
    refine ⟨false, rfl, fun _ => ?_⟩
    exact (Database.contents_failed_iff hnext finalQuery).mpr (hwhole.update h hnext)

/-- `saveMany` returns, and leaves the database as it was unless it returns true, exactly when no
batch that fails and no row that cannot be built comes behind work that is then lost or stays. -/
theorem allOrNothing_saveManyOn_iff (pqEscapeLiteral : Text → Option Text) (cls : ModelClass)
    (db : Database) (models : List TextMap) :
    AllOrNothing db (saveManyOn pqEscapeLiteral cls db models) ↔ SavesWhole db cls models := by
  cases models with
  | nil =>
      refine iff_of_true ⟨false, rfl, fun _ => rfl⟩
        ⟨fun h => ?_, fun h => ?_, fun h => ?_, fun h => ?_⟩
      · cases h
      · cases h.2
      · cases h.2
      · cases h.2
  | cons first rest =>
      have hnil := updateText_eq_nil_iff pqEscapeLiteral cls (first :: rest)
      rw [saveManyOn]
      -- which of the three lemmas applies depends on the update batch only by its being empty
      generalize updateText pqEscapeLiteral cls
        ((first :: rest).filter (fun m => isPresent m cls.primaryKey)) = finalQuery at hnil ⊢
      cases hupdates : hasUpdates cls (first :: rest) with
      | false =>
          rw [if_pos (hnil.mpr hupdates)]
          exact allOrNothing_of_no_updates (first :: rest) pqEscapeLiteral hupdates
      | true =>
          rw [if_neg (by simp [hnil, hupdates])]
          have hok := db.isOk_execute finalQuery
          cases hnext : db.doesNext with
          | true =>
              have hwhole := allOrNothing_of_updates (first :: rest) pqEscapeLiteral
                hupdates hnext finalQuery
              split
              · next hexec =>
                  rw [hexec, hnext] at hok
                  cases hok
              · next hexec =>
                  rw [hexec] at hwhole
                  exact hwhole
          | false =>
              have hwhole := allOrNothing_of_failed_updates (first :: rest) hupdates hnext
                finalQuery
              split
              · next hexec =>
                  rw [hexec] at hwhole
                  exact hwhole
              · next hexec =>
                  rw [hexec, hnext] at hok
                  cases hok

/-- So does the `save` of a collection, which is a call of `saveMany`. -/
theorem allOrNothing_iff (pqEscapeLiteral : Text → Option Text) (cls : ModelClass) (db : Database)
    (models : List TextMap) :
    (AllOrNothing db (saveManyOn pqEscapeLiteral cls db models) ↔ SavesWhole db cls models) ∧
      (AllOrNothing db (saveCollection pqEscapeLiteral cls db models) ↔
        SavesWhole db cls models) := by
  have hmany := allOrNothing_saveManyOn_iff pqEscapeLiteral cls db models
  refine ⟨hmany, ?_⟩
  rw [saveCollection_eq]
  exact hmany

/-- A new model without a login throws, behind a batch update that is done. -/
theorem missing_login_escapes :
    ¬ AllOrNothing (Database.connect [] []) (saveManyOn quoteLiteral users (Database.connect [] [])
      [((∅ : TextMap).insert "id" "7").insert "login" "ann", ∅]) := by
  have hthrows : (saveManyOn quoteLiteral users (Database.connect [] [])
      [((∅ : TextMap).insert "id" "7").insert "login" "ann", ∅]) =
        (.error "Attribute 'login' not found.",
          (Database.connect [] []).performAll quoteLiteral
            [.execute "UPDATE users SET login = 'ann' WHERE id = '7'; "]) := by
    decide +kernel
  intro ⟨saved, hsaved, _⟩
  rw [hthrows] at hsaved
  cases hsaved

end Model

end Brazier
