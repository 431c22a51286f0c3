import Brazier.Database.Models.BatchInsert
import Brazier.Database.Models.BatchUpdate

/-!
# Values that cannot be escaped

`EscapeString` turns a failure of `PQescapeLiteral` into a literal like any other. `refuses_iff`
says for which attributes `save`, `update` and `saveMany` write no such literal, and report the
failure.
-/

namespace Brazier

namespace Model

variable (pqEscapeLiteral : Text → Option Text) (cls : ModelClass)

/-- Some value cannot be escaped. -/
def HasFailure (attributes : TextMap) : Prop :=
  ∃ key value : Text, attributes[key]? = some value ∧ pqEscapeLiteral value = none

/-! ## What is assigned -/

/-- `save` sends a statement that assigns the literal to the column. -/
def saveAssigns (attributes : TextMap) (column literal : Text) : Prop :=
  (sentRequest pqEscapeLiteral cls attributes).isSome ∧
    (saveValues pqEscapeLiteral cls attributes)[column]? = some literal

/-- `update` does. -/
def updateAssigns (data : TextMap) (column literal : Text) : Prop :=
  (updateValues pqEscapeLiteral cls data)[column]? = some literal

/-- The batch insert is among the statements of `saveMany`. -/
structure Inserting (models : List TextMap) : Prop where
  inserts : hasInserts cls models = true
  columns : columnsOf cls models ≠ []
  rows : RowsComplete cls models

/-- `saveMany` has a statement that assigns the literal to the column for the model. -/
def saveManyAssigns (models : List TextMap) (m : TextMap) (column literal : Text) : Prop :=
  if isPresent m cls.primaryKey then
    (escapeValues pqEscapeLiteral (updateData cls m))[column]? = some literal
  else
    Inserting cls models ∧ StandsUnder (columnsOf cls models)
      (rowCells pqEscapeLiteral (columnsOf cls models) m) column literal

/-- No attribute that cannot be escaped is assigned. -/
def KeepsOut (attributes : TextMap) (assigns : Text → Text → Prop) : Prop :=
  ∀ column value : Text, attributes[column]? = some value → pqEscapeLiteral value = none →
    ∀ literal, ¬ assigns column literal

/-- `save` writes no attribute that cannot be escaped, and returns false if there is one. -/
structure SaveRefuses (attributes : TextMap) : Prop where
  keepsOut : KeepsOut pqEscapeLiteral attributes (saveAssigns pqEscapeLiteral cls attributes)
  reports : HasFailure pqEscapeLiteral attributes →
    ∀ db, (saveOn pqEscapeLiteral cls db attributes).1.1 = false

/-- `saveMany` does. -/
structure SaveManyRefuses (models : List TextMap) : Prop where
  keepsOut : ∀ m ∈ models,
    KeepsOut pqEscapeLiteral m (saveManyAssigns pqEscapeLiteral cls models m)
  reports : (∃ m ∈ models, HasFailure pqEscapeLiteral m) →
    ∀ db, (saveManyOn pqEscapeLiteral cls db models).1 = .ok false

/-- `save` sends nothing: it has no value, or makes an `INSERT` with a question mark. -/
def Unsent (attributes : TextMap) : Prop :=
  (savedValues cls attributes).isEmpty = true ∨
    isPresent attributes cls.primaryKey = false ∧
      ('?' ∈ cls.tableName ∨
        Marked (SQLQueryBuilder.entryTexts (saveValues pqEscapeLiteral cls attributes)) ∨
        '?' ∈ cls.primaryKey)

/-- `saveMany` has models to insert and no columns for them, and can escape what it updates. -/
structure LacksColumns (models : List TextMap) : Prop where
  inserts : hasInserts cls models = true
  columns : columnsOf cls models = []
  updates : ∀ m ∈ models, isPresent m cls.primaryKey = true →
    ¬ HasFailure pqEscapeLiteral (updateData cls m)

variable {pqEscapeLiteral cls}

/-- The calls of the insert half of `saveMany`. -/
def insertCalls (pqEscapeLiteral : Text → Option Text) (cls : ModelClass)
    (models : List TextMap) : List Database.Call :=
  if (models.filter fun m => !isPresent m cls.primaryKey) = [] ∨ columnsOf cls models = [] then []
  else
    batchInsert pqEscapeLiteral cls (columnsOf cls models)
      (models.filter fun m => !isPresent m cls.primaryKey)

theorem insertCalls_of_inserting {models : List TextMap} (h : Inserting cls models) :
    insertCalls pqEscapeLiteral cls models =
      [.execute ((batchOf pqEscapeLiteral cls models).text cls)] := by
  have hsome := (toInsert_ne_nil_iff cls models).mpr h.inserts
  have hrows := (rows_isOk_iff pqEscapeLiteral cls models).mpr h.rows
  rw [insertCalls, if_neg (not_or.mpr ⟨hsome, h.columns⟩), batchInsert]
  cases hmap : (models.filter fun m => !isPresent m cls.primaryKey).mapM
      (insertRow pqEscapeLiteral (columnsOf cls models)) with
  | error e =>
      rw [hmap] at hrows
      cases hrows
  | ok rows =>
      have htexts := mapM_eq_ok (fun _ _ => insertRow_eq_ok) hmap
      rw [InsertBatch.text, batchOf, List.map_map, htexts]
      rfl

theorem insertCalls_of_not_inserting {models : List TextMap} (h : ¬ Inserting cls models) :
    insertCalls pqEscapeLiteral cls models = [] := by
  rw [insertCalls]
  split
  · rfl
  · next hboth =>
    rw [not_or, ← ne_eq, toInsert_ne_nil_iff] at hboth
    have hrows := rows_isOk_iff pqEscapeLiteral cls models
    rw [batchInsert]
    cases hmap : (models.filter fun m => !isPresent m cls.primaryKey).mapM
        (insertRow pqEscapeLiteral (columnsOf cls models)) with
    | error e => rfl
    | ok rows =>
        rw [hmap] at hrows
        exact absurd ⟨hboth.1, hboth.2, hrows.mp rfl⟩ h

/-- The statements of `saveMany` are the batch update, and the batch insert if it is among them. -/
theorem saveMany_calls (models : List TextMap) :
    (Inserting cls models → saveMany pqEscapeLiteral cls models =
      batchCalls pqEscapeLiteral cls
          ((models.filter fun m => isPresent m cls.primaryKey).filterMap
            (batchUpdate pqEscapeLiteral cls)) ++
        [.execute ((batchOf pqEscapeLiteral cls models).text cls)]) ∧
      (¬ Inserting cls models → saveMany pqEscapeLiteral cls models =
        batchCalls pqEscapeLiteral cls
          ((models.filter fun m => isPresent m cls.primaryKey).filterMap
            (batchUpdate pqEscapeLiteral cls))) := by
  cases models with
  | nil =>
      refine ⟨fun h => ?_, fun _ => rfl⟩
      exact absurd rfl h.columns
  | cons first rest =>
      have hkeys : ∀ m ∈ (first :: rest).filter fun m => isPresent m cls.primaryKey,
          isPresent m cls.primaryKey = true := fun m hm => (List.mem_filter.mp hm).2
      have hsave : saveMany pqEscapeLiteral cls (first :: rest) =
          (if updateText pqEscapeLiteral cls
              ((first :: rest).filter fun m => isPresent m cls.primaryKey) = [] then []
            else [.execute (updateText pqEscapeLiteral cls
              ((first :: rest).filter fun m => isPresent m cls.primaryKey))]) ++
            insertCalls pqEscapeLiteral cls (first :: rest) := rfl
      rw [hsave, batchCalls_eq pqEscapeLiteral cls hkeys]
      refine ⟨fun h => ?_, fun h => ?_⟩
      · rw [insertCalls_of_inserting h]
      · rw [insertCalls_of_not_inserting h, List.append_nil]

/-! ## `save` -/

/-- A value that is found escaped. -/
theorem getElem?_escapeValues (values : TextMap) (column : Text) :
    (escapeValues pqEscapeLiteral values)[column]? =
      values[column]?.map (SQLString.escapeString pqEscapeLiteral) := by
  rw [escapeValues, Std.ExtTreeMap.getElem?_map]

theorem sentRequest_eq_none_iff (attributes : TextMap) :
    sentRequest pqEscapeLiteral cls attributes = none ↔
      Unsent pqEscapeLiteral cls attributes := by
  unfold sentRequest saveRequest Unsent
  cases hempty : (savedValues cls attributes).isEmpty with
  | true => simp
  | false =>
      rw [if_neg Bool.false_ne_true, or_iff_right Bool.false_ne_true]
      cases hkey : isPresent attributes cls.primaryKey with
      | true =>
          rw [if_pos rfl]
          exact iff_of_false (by simp [RowRequest.call, Database.Call.isSent]) (by simp)
      | false =>
          have hmem : '?' ∈ insertSql pqEscapeLiteral cls attributes ↔
              '?' ∈ cls.tableName ∨
                Marked (SQLQueryBuilder.entryTexts (saveValues pqEscapeLiteral cls attributes)) ∨
                '?' ∈ cls.primaryKey := by
            rw [mem_insertSql_iff hempty, or_assoc]
          rw [if_neg Bool.false_ne_true, ← hmem]
          have hsent : (RowRequest.call pqEscapeLiteral cls
              (.insert (savedValues cls attributes))).isSent =
                decide ((insertSql pqEscapeLiteral cls attributes).count '?' = 0) := rfl
          rw [Option.filter_some, hsent, ← List.count_pos_iff]
          simp [Nat.pos_iff_ne_zero]

/-- `save` returns true when it has values and its call returns. -/
theorem saved_fst (cls : ModelClass) (attributes : TextMap) (reply : Except Text TextMap) :
    (saved cls attributes reply).1 = (!(savedValues cls attributes).isEmpty && reply.isOk) := by
  unfold saved
  cases (savedValues cls attributes).isEmpty with
  | true => rfl
  | false =>
      cases reply with
      | error e => rfl
      | ok row => cases isPresent attributes cls.primaryKey <;> rfl

/-- The call of a request decides what `save` returns. -/
theorem saveOn_of_request {attributes : TextMap} {request : RowRequest}
    (h : saveRequest cls attributes = some request) (db : Database) :
    (saveOn pqEscapeLiteral cls db attributes).1.1 =
      (!(savedValues cls attributes).isEmpty &&
        (replyTo pqEscapeLiteral db (request.call pqEscapeLiteral cls)).1.isOk) := by
  rw [saveOn, save_eq, h]
  exact saved_fst _ _ _

/-- An `INSERT` returns when it is sent and the server returns rows. -/
theorem isOk_replyTo_queryMap (db : Database) (sql : Text) :
    (replyTo pqEscapeLiteral db (.queryMap sql [])).1.isOk =
      (decide (sql.count '?' = 0) && (db.fetch sql).1.isOk) := by
  show ((Database.fetchTemplate pqEscapeLiteral db sql []).1.map _).isOk = _
  by_cases hmark : '?' ∈ sql
  · rw [Database.fetchTemplate_marked pqEscapeLiteral db hmark,
      decide_eq_false fun hcount => List.count_eq_zero.mp hcount hmark]
    rfl
  · rw [Database.fetchTemplate_finished pqEscapeLiteral db hmark,
      decide_eq_true (List.count_eq_zero.mpr hmark), Bool.true_and]
    cases (db.fetch sql).1 <;> rfl

/-- An `UPDATE` returns when the server does it. -/
theorem isOk_replyTo_execute (db : Database) (sql : Text) :
    (replyTo pqEscapeLiteral db (.execute sql)).1.isOk = db.doesNext := by
  rw [← db.isOk_execute sql]
  show ((db.execute sql).1.map _).isOk = _
  cases (db.execute sql).1 <;> rfl

/-- A model whose statement is not sent is not saved. -/
theorem saveOn_of_unsent {attributes : TextMap}
    (h : sentRequest pqEscapeLiteral cls attributes = none) (db : Database) :
    (saveOn pqEscapeLiteral cls db attributes).1.1 = false := by
  cases hrequest : saveRequest cls attributes with
  | none =>
      have hempty : (savedValues cls attributes).isEmpty = true := by
        unfold saveRequest at hrequest
        split at hrequest
        · assumption
        · split at hrequest
          · cases hrequest
          · cases hrequest
      rw [saveOn, save_eq, hrequest]
      show (saved cls attributes (.ok ∅)).1 = false
      rw [saved_fst, hempty]
      rfl
  | some request =>
      rw [sentRequest, hrequest, Option.filter_eq_none_iff] at h
      have hunsent := h request rfl
      rw [saveOn_of_request hrequest, Bool.and_eq_false_iff]
      refine Or.inr ?_
      cases request with
      | insert values =>
          rw [RowRequest.call, isOk_replyTo_queryMap, Bool.and_eq_false_iff]
          exact Or.inl (Bool.eq_false_iff.mpr hunsent)
      | update values id => exact absurd rfl hunsent
      | delete column id => exact absurd rfl hunsent

/-- A model whose statement is sent, done and answered with rows is saved. -/
theorem saveOn_of_sent {attributes : TextMap} {request : RowRequest}
    (h : sentRequest pqEscapeLiteral cls attributes = some request) {db : Database}
    {rows : Brazier.Rows} (hnext : db.doesNext = true) (hrows : db.nextAnswer = .tuplesOk rows) :
    (saveOn pqEscapeLiteral cls db attributes).1.1 = true := by
  obtain ⟨hrequest, hsent⟩ := Option.filter_eq_some_iff.mp h
  obtain ⟨hvalues, -⟩ := sentRequest_cases h
  rw [saveOn_of_request hrequest, hvalues, Bool.not_false, Bool.true_and]
  cases request with
  | insert values =>
      rw [RowRequest.call, isOk_replyTo_queryMap, (Database.fetch_of_rows hnext hrows _).1,
        Bool.and_eq_true]
      exact ⟨hsent, rfl⟩
  | update values id => rw [RowRequest.call, isOk_replyTo_execute, hnext]
  | delete column id => rw [RowRequest.call, isOk_replyTo_execute, hnext]

/-- The values of `save` are assigned when its statement is sent. -/
theorem saveRefuses_iff (pqEscapeLiteral : Text → Option Text) (cls : ModelClass)
    (attributes : TextMap) :
    SaveRefuses pqEscapeLiteral cls attributes ↔
      ¬ HasFailure pqEscapeLiteral attributes ∨ Unsent pqEscapeLiteral cls attributes := by
  rw [← sentRequest_eq_none_iff]
  constructor
  · intro hrefuses
    by_contra hno
    rw [not_or, not_not] at hno
    obtain ⟨hfailure, hsent⟩ := hno
    obtain ⟨request, hrequest⟩ := Option.ne_none_iff_exists'.mp hsent
    -- the server may do the statement, and `save` then returns true
    have htrue := saveOn_of_sent hrequest (rfl : returningOne.doesNext = true) rfl
    rw [hrefuses.reports hfailure] at htrue
    cases htrue
  · intro h
    rcases h with hall | hunsent
    · refine ⟨fun column value hvalue hfails => ?_, fun hfailure => absurd hfailure hall⟩
      exact absurd ⟨column, value, hvalue, hfails⟩ hall
    · refine ⟨fun column value _ _ literal hassigns => ?_, fun _ db => saveOn_of_unsent hunsent db⟩
      have hsome := hassigns.1
      rw [hunsent] at hsome
      cases hsome

/-! ## `update` and `saveMany` -/

/-- `update` writes the declared fields. -/
theorem updateKeepsOut_iff (pqEscapeLiteral : Text → Option Text) (cls : ModelClass)
    (data : TextMap) :
    KeepsOut pqEscapeLiteral data (updateAssigns pqEscapeLiteral cls data) ↔
      ∀ column value : Text, column ∈ cls.fields → data[column]? = some value →
        pqEscapeLiteral value ≠ none := by
  have hassigned : ∀ column : Text, column ∈ cls.fields →
      (updateValues pqEscapeLiteral cls data)[column]? =
        data[column]?.map (SQLString.escapeString pqEscapeLiteral) := by
    intro column hfield
    have hdeclared : isField cls column = true := List.contains_iff_mem.mpr hfield
    rw [updateValues, getElem?_escapeValues, Std.ExtTreeMap.getElem?_filter']
    cases data[column]? <;> simp [hdeclared]
  constructor
  · intro hkeeps column value hfield hvalue hfails
    refine hkeeps column value hvalue hfails (SQLString.escapeString pqEscapeLiteral value) ?_
    rw [updateAssigns, hassigned column hfield, hvalue]
    rfl
  · intro hall column value hvalue hfails literal hassigns
    rw [updateAssigns, updateValues, getElem?_escapeValues,
      Std.ExtTreeMap.getElem?_filter', hvalue] at hassigns
    have hfield : column ∈ cls.fields := by
      by_contra hno
      have hundeclared : isField cls column = false :=
        Bool.eq_false_iff.mpr fun h => hno (List.contains_iff_mem.mp h)
      simp [hundeclared] at hassigns
    exact hall column value hfield hvalue hfails

/-- Without columns the insert half returns false. -/
theorem saveManyOn_of_no_columns {models : List TextMap} (hinserts : hasInserts cls models = true)
    (hcolumns : columnsOf cls models = []) (db : Database) :
    (saveManyOn pqEscapeLiteral cls db models).1 = .ok false := by
  have hinsert : ∀ before : Database, insertMany pqEscapeLiteral cls before
      (columnsOf cls models) (models.filter fun m => !isPresent m cls.primaryKey) =
        (.ok false, before) := by
    intro before
    have hsome := (toInsert_ne_nil_iff cls models).mpr hinserts
    rw [insertMany, if_neg hsome, if_pos hcolumns]
  cases models with
  | nil => rfl
  | cons first rest =>
      rw [saveManyOn]
      split
      · exact congrArg Prod.fst (hinsert db)
      · split
        · rfl
        · exact congrArg Prod.fst (hinsert _)

/-- Where the server does every statement, false is returned only for the lack of columns. -/
theorem no_columns_of_false {models : List TextMap} (hne : models ≠ [])
    (h : (saveManyOn pqEscapeLiteral cls (Database.connect [] []) models).1 = .ok false) :
    hasInserts cls models = true ∧ columnsOf cls models = [] := by
  have hinsert : ∀ before : Database, before.doesNext = true →
      (insertMany pqEscapeLiteral cls before (columnsOf cls models)
        (models.filter fun m => !isPresent m cls.primaryKey)).1 = .ok false →
          hasInserts cls models = true ∧ columnsOf cls models = [] := by
    intro before hnext hfalse
    rw [insertMany] at hfalse
    split at hfalse
    · cases hfalse
    · next hsome =>
      rw [← ne_eq, toInsert_ne_nil_iff] at hsome
      split at hfalse
      · next hcolumns => exact ⟨hsome, hcolumns⟩
      · split at hfalse
        · cases hfalse
        · next rows _ =>
          have hok : (before.execute (insertText cls (columnsOf cls models) rows)).1.isOk =
              false := Except.ok.inj hfalse
          rw [before.isOk_execute, hnext] at hok
          cases hok
  cases models with
  | nil => exact absurd rfl hne
  | cons first rest =>
      rw [saveManyOn] at h
      split at h
      · exact hinsert _ rfl h
      · next hquery =>
        generalize updateText pqEscapeLiteral cls _ = finalQuery at h hquery
        have hok := (Database.connect [] []).isOk_execute finalQuery
        split at h
        · next hexec =>
          rw [hexec] at hok
          cases hok
        · next db hexec =>
          have hdb : ((Database.connect [] []).execute finalQuery).2 = db := congrArg Prod.snd hexec
          refine hinsert db ?_ h
          rw [← hdb, Database.doesNext_of_done rfl]
          rfl

/-- The update data are attributes of the model. -/
theorem getElem?_of_updateData {m : TextMap} {key value : Text}
    (h : (updateData cls m)[key]? = some value) : m[key]? = some value := by
  rw [getElem?_updateData] at h
  split at h
  · have hsaved := (Option.filter_eq_some_iff.mp h).1
    rw [getElem?_savedValues] at hsaved
    split at hsaved
    · cases hsaved
    · exact hsaved
  · cases h

/-- `saveMany` writes update data and rows, and returns false in any case only without columns. -/
theorem saveManyRefuses_iff (pqEscapeLiteral : Text → Option Text) (cls : ModelClass)
    (models : List TextMap) :
    SaveManyRefuses pqEscapeLiteral cls models ↔
      (∀ m ∈ models, ¬ HasFailure pqEscapeLiteral m) ∨ LacksColumns pqEscapeLiteral cls models := by
  constructor
  · intro hrefuses
    by_cases hfailure : ∃ m ∈ models, HasFailure pqEscapeLiteral m
    · obtain ⟨m, hm, hfails⟩ := hfailure
      have hfalse := hrefuses.reports ⟨m, hm, hfails⟩ (Database.connect [] [])
      obtain ⟨hinserts, hcolumns⟩ := no_columns_of_false (List.ne_nil_of_mem hm) hfalse
      refine Or.inr ⟨hinserts, hcolumns, fun m hm hkey hdata => ?_⟩
      obtain ⟨key, value, hvalue, hfails⟩ := hdata
      refine hrefuses.keepsOut m hm key value (getElem?_of_updateData hvalue) hfails
        (SQLString.escapeString pqEscapeLiteral value) ?_
      rw [saveManyAssigns, if_pos hkey, getElem?_escapeValues, hvalue]
      rfl
    · exact Or.inl fun m hm hfails => hfailure ⟨m, hm, hfails⟩
  · intro h
    rcases h with hall | hlacks
    · refine ⟨fun m hm column value hvalue hfails => ?_, fun hfailure => ?_⟩
      · exact absurd ⟨column, value, hvalue, hfails⟩ (hall m hm)
      · obtain ⟨m, hm, hfails⟩ := hfailure
        exact absurd hfails (hall m hm)
    · refine ⟨fun m hm column value hvalue hfails literal hassigns => ?_, fun _ db => ?_⟩
      · rw [saveManyAssigns] at hassigns
        split at hassigns
        · next hkey =>
          rw [getElem?_escapeValues, Option.map_eq_some_iff] at hassigns
          obtain ⟨data, hdata, -⟩ := hassigns
          have hsame := (getElem?_of_updateData hdata).symm.trans hvalue
          obtain rfl := Option.some.inj hsame
          exact hlacks.updates m hm hkey ⟨column, data, hdata, hfails⟩
        · exact hassigns.1.columns hlacks.columns
      · exact saveManyOn_of_no_columns hlacks.inserts hlacks.columns db

/-- `save`, `update` and `saveMany` write no value that cannot be escaped, and `save` and `saveMany`
report it, exactly when there is none, or nothing is sent that could have one. -/
theorem refuses_iff (pqEscapeLiteral : Text → Option Text) (cls : ModelClass) :
    (∀ attributes, SaveRefuses pqEscapeLiteral cls attributes ↔
      ¬ HasFailure pqEscapeLiteral attributes ∨ Unsent pqEscapeLiteral cls attributes) ∧
    (∀ data, KeepsOut pqEscapeLiteral data (updateAssigns pqEscapeLiteral cls data) ↔
      ∀ column value : Text, column ∈ cls.fields → data[column]? = some value →
        pqEscapeLiteral value ≠ none) ∧
    (∀ models, SaveManyRefuses pqEscapeLiteral cls models ↔
      (∀ m ∈ models, ¬ HasFailure pqEscapeLiteral m) ∨
        LacksColumns pqEscapeLiteral cls models) := by
  refine ⟨?_, ?_, ?_⟩
  · exact saveRefuses_iff pqEscapeLiteral cls
  · exact updateKeepsOut_iff pqEscapeLiteral cls
  · exact saveManyRefuses_iff pqEscapeLiteral cls

/-- An encoding that lacks one text. -/
def quoteAllBut (invalid value : Text) : Option Text :=
  if value = invalid then none else quoteLiteral value

/-- A login that cannot be escaped is saved as the text of the error, and `save` returns true. -/
theorem failed_login_saved :
    save (quoteAllBut "bad") users (withLogin "bad") =
        [.queryMap
          "INSERT INTO users (login) VALUES ('ERROR: FAILED TO ESCAPE STRING') RETURNING id" []] ∧
      (saveOn (quoteAllBut "bad") users returningOne (withLogin "bad")).1.1 = true ∧
      ¬ SaveRefuses (quoteAllBut "bad") users (withLogin "bad") := by
  have htrue : (saveOn (quoteAllBut "bad") users returningOne (withLogin "bad")).1.1 = true := by
    decide +kernel
  refine ⟨by decide +kernel, htrue, fun hrefuses => ?_⟩
  have hfailure : HasFailure (quoteAllBut "bad") (withLogin "bad") :=
    ⟨"login", "bad", by rw [withLogin, getElem?_insert, if_pos rfl], if_pos rfl⟩
  rw [hrefuses.reports hfailure returningOne] at htrue
  cases htrue

end Model

end Brazier
