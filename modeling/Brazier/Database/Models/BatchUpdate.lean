import Brazier.Database.Models.Addressing
import Brazier.Database.Models.QuestionMarks
import Brazier.ProofLib.Overwrites

/-!
# The batch update and `save`

`saveMany` and a `save` of each model in order, on a database that does every statement. A table
has rows under keys with literals in the other columns; what a condition over the key selects is up
to the server. `sameTable_iff` says when both leave the same table.
-/

namespace Brazier

open ProofLib

/-- Whether the statement of a call is sent: one with placeholders needs as many parameters. -/
def Database.Call.isSent : Database.Call → Bool
  | .queryMap sqlTemplate params => sqlTemplate.count '?' = params.length
  | .queryToVector sqlTemplate params => sqlTemplate.count '?' = params.length
  | _ => true

namespace Model

/-- A table: rows under keys, with the literals in their other columns. -/
abbrev Table (K : Type) := List (Record K Text Text)

/-- What a server makes of a condition over the key, and the key of a new row with its text. -/
structure TableServer (K : Type) where
  selects : Text → K → Bool
  newKey : Table K → K
  keyText : K → Text

/-- The hooks of a model, with the attributes as they leave them. A hook reads and writes the
attributes only, and does the same each time. -/
structure Hooks where
  validate : TextMap → Bool × TextMap
  beforeSave : TextMap → Bool × TextMap
  afterSave : TextMap → TextMap

/-- The hooks in front of `save`. -/
def Hooks.before (hooks : Hooks) (attributes : TextMap) : Bool × TextMap :=
  match hooks.validate attributes with
  | (false, attributes) => (false, attributes)
  | (true, attributes) => hooks.beforeSave attributes

/-- The objects of a class, by references, and its table. -/
structure Saving (ι K : Type) where
  objects : ι → TextMap
  table : Table K

section

variable {ι K : Type} [DecidableEq ι] (pqEscapeLiteral : Text → Option Text) (cls : ModelClass)
  (server : TableServer K) (hooks : ι → Hooks)

/-! ## The statements of a table -/

/-- The condition of an `UPDATE`. -/
def keyCondition (id : Text) : Text := cls.primaryKey ++ (" = " : Text) ++ id

/-- An `UPDATE` as a write. -/
def updateWrite (values : TextMap) (id : Text) : Write K Text Text where
  selects := server.selects (keyCondition cls id)
  values := fun column => (escapeValues pqEscapeLiteral values)[column]?

/-- The row of an `INSERT`. -/
def newRow (table : Table K) (values : TextMap) : Record K Text Text where
  key := server.newKey table
  fields := fun column => (escapeValues pqEscapeLiteral values)[column]?

/-- The table after a statement that is done. -/
def RowRequest.effect (table : Table K) : RowRequest → Table K
  | .insert values => table ++ [newRow pqEscapeLiteral server table values]
  | .update values id => table.map (updateWrite pqEscapeLiteral cls server values id).on
  | .delete column id =>
      table.filter fun row => !server.selects
        (column ++ (" = " : Text) ++ SQLString.escapeString pqEscapeLiteral id) row.key

/-- The first row of the answer. -/
def RowRequest.row (table : Table K) : RowRequest → TextMap
  | .insert _ => (∅ : TextMap).insert cls.primaryKey (server.keyText (server.newKey table))
  | _ => ∅

/-! ## `save` of each model -/

/-- The request of `save`, if its statement is sent. -/
def sentRequest (attributes : TextMap) : Option RowRequest :=
  (saveRequest cls attributes).filter fun request => (request.call pqEscapeLiteral cls).isSent

/-- `save` of an object. -/
def saveNext (s : Saving ι K) (i : ι) : Saving ι K :=
  match (hooks i).before (s.objects i) with
  | (false, attributes) => ⟨Function.update s.objects i attributes, s.table⟩
  | (true, attributes) =>
      match sentRequest pqEscapeLiteral cls attributes with
      | none => ⟨Function.update s.objects i attributes, s.table⟩
      | some request =>
          let (_, attributes) := saved cls attributes (.ok (request.row cls server s.table))
          ⟨Function.update s.objects i ((hooks i).afterSave attributes),
            request.effect pqEscapeLiteral cls server s.table⟩

/-- `save` of each object of a list. -/
def saveEach (s : Saving ι K) (models : List ι) : Saving ι K :=
  models.foldl (saveNext pqEscapeLiteral cls server hooks) s

/-! ## `saveMany` -/

/-- The update of a model in the batch. -/
def batchUpdate (attributes : TextMap) : Option (TextMap × Text) :=
  if (updateData cls attributes).isEmpty then none
  else
    some (updateData cls attributes,
      SQLString.escapeString pqEscapeLiteral (attributes.getD cls.primaryKey []))

/-- The text of an `UPDATE`. -/
def updateSql (values : TextMap) (id : Text) : Text :=
  (((SQLQueryBuilder.ofTable cls.tableName).update (escapeValues pqEscapeLiteral values)).where
    (keyCondition cls id) "AND").get

/-- The call of the batch update: a semicolon stands behind every statement. -/
def batchCalls (updates : List (TextMap × Text)) : List Database.Call :=
  if updates = [] then []
  else
    [.execute (updates.flatMap fun update =>
      updateSql pqEscapeLiteral cls update.1 update.2 ++ ("; " : Text))]

/-- The table after the batch update, whose statements are done in order. -/
def saveManyTable (table : Table K) (models : List TextMap) : Table K :=
  Write.run ((models.filterMap (batchUpdate pqEscapeLiteral cls)).map
    fun update => updateWrite pqEscapeLiteral cls server update.1 update.2) table

/-- The batch of models with keys is made of their updates. -/
theorem updateText_eq {models : List TextMap}
    (hkeys : ∀ m ∈ models, isPresent m cls.primaryKey = true) :
    updateText pqEscapeLiteral cls models =
      (models.filterMap (batchUpdate pqEscapeLiteral cls)).flatMap fun update =>
        updateSql pqEscapeLiteral cls update.1 update.2 ++ ("; " : Text) := by
  rw [updateText]
  induction models with
  | nil => rfl
  | cons m rest ih =>
      have hm := hkeys m List.mem_cons_self
      have hrest := ih fun m hm => hkeys m (List.mem_cons_of_mem _ hm)
      rw [List.map_cons, List.flatten_cons, hrest]
      cases hdata : (updateData cls m).isEmpty with
      | true =>
          have hnil : batchUpdateOne pqEscapeLiteral cls m = [] := by
            rw [batchUpdateOne_eq_nil_iff hm, ← Bool.not_eq_true', ← updateData_isEmpty, hdata]
          have hnone : batchUpdate pqEscapeLiteral cls m = none := by
            rw [batchUpdate, hdata, if_pos rfl]
          rw [hnil, List.filterMap_cons_none hnone, List.nil_append]
      | false =>
          have hsome : batchUpdate pqEscapeLiteral cls m = some (updateData cls m,
              SQLString.escapeString pqEscapeLiteral (m.getD cls.primaryKey [])) := by
            rw [batchUpdate, hdata, if_neg Bool.false_ne_true]
          rw [batchUpdateOne_addresses pqEscapeLiteral cls hm hdata,
            List.filterMap_cons_some hsome, List.flatMap_cons]
          rfl

/-- The text of the batch is sent if it has an update. -/
theorem batchCalls_eq {models : List TextMap}
    (hkeys : ∀ m ∈ models, isPresent m cls.primaryKey = true) :
    (if updateText pqEscapeLiteral cls models = [] then []
      else [Database.Call.execute (updateText pqEscapeLiteral cls models)]) =
        batchCalls pqEscapeLiteral cls (models.filterMap (batchUpdate pqEscapeLiteral cls)) := by
  rw [updateText_eq pqEscapeLiteral cls hkeys, batchCalls]
  cases models.filterMap (batchUpdate pqEscapeLiteral cls) with
  | nil => rfl
  | cons update rest =>
      refine (if_neg ?_).trans (if_neg (List.cons_ne_nil update rest)).symm
      intro hnil
      rw [List.flatMap_cons, List.append_assoc] at hnil
      exact absurd hnil (by simp)

/-- What `saveMany` sends for models with keys. -/
theorem saveMany_eq {models : List TextMap}
    (hkeys : ∀ m ∈ models, isPresent m cls.primaryKey = true) :
    saveMany pqEscapeLiteral cls models =
      batchCalls pqEscapeLiteral cls (models.filterMap (batchUpdate pqEscapeLiteral cls)) := by
  have hupdate : models.filter (fun m => isPresent m cls.primaryKey) = models :=
    List.filter_eq_self.mpr hkeys
  have hinsert : models.filter (fun m => !isPresent m cls.primaryKey) = [] :=
    List.filter_eq_nil_iff.mpr fun m hm => by simp [hkeys m hm]
  cases models with
  | nil => rfl
  | cons first rest =>
      rw [← batchCalls_eq pqEscapeLiteral cls hkeys]
      unfold saveMany
      dsimp only
      rw [hupdate, hinsert, if_pos (Or.inl rfl), List.append_nil]
      rfl

/-! ## The last values -/

/-- The attributes that the saves send, in order, as the hooks leave them. -/
def sentAttributes : (ι → TextMap) → List ι → List TextMap
  | _, [] => []
  | objects, i :: rest =>
      match (hooks i).before (objects i) with
      | (false, attributes) => sentAttributes (Function.update objects i attributes) rest
      | (true, attributes) =>
          match sentRequest pqEscapeLiteral cls attributes with
          | none => sentAttributes (Function.update objects i attributes) rest
          | some _ =>
              attributes ::
                sentAttributes (Function.update objects i ((hooks i).afterSave attributes)) rest

/-- The literals that `save` writes to a column of a row: the key stands in the condition as it
is. -/
def savedUnder (sent : List TextMap) (key : K) (column : Text) : List Text :=
  sent.filterMap fun m =>
    if server.selects (keyCondition cls (m.getD cls.primaryKey [])) key then
      (savedValues cls m)[column]?.map (SQLString.escapeString pqEscapeLiteral)
    else none

/-- The literals that `saveMany` writes to a column of a row: those of the non-empty values, under
the escaped keys. -/
def batchedUnder (models : List TextMap) (key : K) (column : Text) : List Text :=
  models.filterMap fun m =>
    if server.selects (keyCondition cls
        (SQLString.escapeString pqEscapeLiteral (m.getD cls.primaryKey []))) key then
      ((savedValues cls m)[column]?.filter (· ≠ [])).map (SQLString.escapeString pqEscapeLiteral)
    else none

/-- No save inserts a row, and what every column of every row ends with is the same. -/
structure WritesAlike (objects : ι → TextMap) (table : Table K) (models : List ι) : Prop where
  updates : ∀ m ∈ sentAttributes pqEscapeLiteral cls hooks objects models,
    isPresent m cls.primaryKey = true
  last : ∀ row ∈ table, ∀ column,
    ((savedUnder pqEscapeLiteral cls server
      (sentAttributes pqEscapeLiteral cls hooks objects models) row.key column).getLast?).or
        (row.fields column) =
      ((batchedUnder pqEscapeLiteral cls server (models.map objects) row.key column).getLast?).or
        (row.fields column)

/-! ## What the saves leave -/

variable {pqEscapeLiteral cls server hooks}

/-- What an `UPDATE` gives to a column. -/
theorem valueFor_updateWrite (values : TextMap) (id : Text) (key : K) (column : Text) :
    (updateWrite pqEscapeLiteral cls server values id).valueFor key column =
      if server.selects (keyCondition cls id) key then
        values[column]?.map (SQLString.escapeString pqEscapeLiteral)
      else none := by
  show (if _ then (escapeValues pqEscapeLiteral values)[column]? else none) = _
  rw [escapeValues, Std.ExtTreeMap.getElem?_map]
  rfl

/-- The write of a `save` with a key. -/
def saveWrite (pqEscapeLiteral : Text → Option Text) (cls : ModelClass) (server : TableServer K)
    (m : TextMap) : Write K Text Text :=
  updateWrite pqEscapeLiteral cls server (savedValues cls m) (m.getD cls.primaryKey [])

/-- A request that is sent updates with a key, and inserts without. -/
theorem sentRequest_cases {m : TextMap} {request : RowRequest}
    (h : sentRequest pqEscapeLiteral cls m = some request) :
    (savedValues cls m).isEmpty = false ∧
      request =
        if isPresent m cls.primaryKey then
          .update (savedValues cls m) (m.getD cls.primaryKey [])
        else .insert (savedValues cls m) := by
  have hsave := (Option.filter_eq_some_iff.mp h).1
  unfold saveRequest at hsave
  cases hempty : (savedValues cls m).isEmpty with
  | true =>
      rw [hempty, if_pos rfl] at hsave
      cases hsave
  | false =>
      rw [hempty, if_neg Bool.false_ne_true] at hsave
      refine ⟨rfl, ?_⟩
      split at hsave
      · next hkey => rw [if_pos hkey, Option.some.inj hsave]
      · next hkey => rw [if_neg hkey, Option.some.inj hsave]

/-- An object that is sent leads the attributes that are. -/
theorem sentAttributes_of_sent {objects : ι → TextMap} {i : ι} {m : TextMap} {request : RowRequest}
    (hbefore : (hooks i).before (objects i) = (true, m))
    (hsent : sentRequest pqEscapeLiteral cls m = some request) (rest : List ι) :
    sentAttributes pqEscapeLiteral cls hooks objects (i :: rest) =
      m :: sentAttributes pqEscapeLiteral cls hooks
        (Function.update objects i ((hooks i).afterSave m)) rest := by
  rw [sentAttributes, hbefore]
  simp only [hsent]

/-- What a save does: nothing to the table, or the write of an object with a key, or a new row. -/
theorem saveNext_cases (s : Saving ι K) (i : ι) :
    (∃ objects, saveNext pqEscapeLiteral cls server hooks s i = ⟨objects, s.table⟩ ∧
      ∀ rest, sentAttributes pqEscapeLiteral cls hooks s.objects (i :: rest) =
        sentAttributes pqEscapeLiteral cls hooks objects rest) ∨
    (∃ objects m, isPresent m cls.primaryKey = true ∧
      saveNext pqEscapeLiteral cls server hooks s i =
        ⟨objects, s.table.map (saveWrite pqEscapeLiteral cls server m).on⟩ ∧
      ∀ rest, sentAttributes pqEscapeLiteral cls hooks s.objects (i :: rest) =
        m :: sentAttributes pqEscapeLiteral cls hooks objects rest) ∨
    (∃ m row, isPresent m cls.primaryKey = false ∧
      (saveNext pqEscapeLiteral cls server hooks s i).table = s.table ++ [row] ∧
      ∀ rest, m ∈ sentAttributes pqEscapeLiteral cls hooks s.objects (i :: rest)) := by
  unfold saveNext
  cases hbefore : (hooks i).before (s.objects i) with
  | mk passed m =>
      cases passed with
      | false =>
          refine Or.inl ⟨_, rfl, fun rest => ?_⟩
          rw [sentAttributes, hbefore]
      | true =>
          cases hsent : sentRequest pqEscapeLiteral cls m with
          | none =>
              refine Or.inl ⟨Function.update s.objects i m, ?_, fun rest => ?_⟩
              · simp only [hsent]
              · rw [sentAttributes, hbefore]
                simp only [hsent]
          | some request =>
              obtain ⟨hvalues, hrequest⟩ := sentRequest_cases hsent
              have hrest := sentAttributes_of_sent hbefore hsent
              cases hkey : isPresent m cls.primaryKey with
              | true =>
                  rw [hkey, if_pos rfl] at hrequest
                  subst hrequest
                  refine Or.inr (Or.inl ⟨_, m, hkey, ?_, hrest⟩)
                  simp only [hsent, saved, hvalues, hkey, Bool.false_eq_true, if_false, if_true]
                  rfl
              | false =>
                  rw [hkey, if_neg Bool.false_ne_true] at hrequest
                  subst hrequest
                  refine Or.inr (Or.inr
                    ⟨m, newRow pqEscapeLiteral server s.table (savedValues cls m), hkey, ?_, ?_⟩)
                  · simp only [hsent]
                    rfl
                  · intro rest
                    rw [hrest rest]
                    exact List.mem_cons_self

/-- Saves that insert no row are the writes of what they send. -/
theorem table_saveEach (models : List ι) (s : Saving ι K)
    (h : ∀ m ∈ sentAttributes pqEscapeLiteral cls hooks s.objects models,
      isPresent m cls.primaryKey = true) :
    (saveEach pqEscapeLiteral cls server hooks s models).table =
      Write.run ((sentAttributes pqEscapeLiteral cls hooks s.objects models).map
        (saveWrite pqEscapeLiteral cls server)) s.table := by
  induction models generalizing s with
  | nil => rfl
  | cons i rest ih =>
      show (saveEach pqEscapeLiteral cls server hooks
        (saveNext pqEscapeLiteral cls server hooks s i) rest).table = _
      rcases saveNext_cases s i with
        ⟨objects, hnext, hsent⟩ | ⟨objects, m, hkey, hnext, hsent⟩ | ⟨m, row, hkey, -, hsent⟩
      · rw [hsent] at h ⊢
        rw [hnext, ih ⟨objects, s.table⟩ h]
      · rw [hsent] at h ⊢
        rw [hnext, ih ⟨objects, _⟩ fun m hm => h m (List.mem_cons_of_mem _ hm)]
        rfl
      · rw [h m (hsent rest)] at hkey
        cases hkey

/-- No save takes a row away. -/
theorem length_le_saveEach (models : List ι) (s : Saving ι K) :
    s.table.length ≤ (saveEach pqEscapeLiteral cls server hooks s models).table.length := by
  induction models generalizing s with
  | nil => exact le_refl _
  | cons i rest ih =>
      refine le_trans ?_ (ih (saveNext pqEscapeLiteral cls server hooks s i))
      rcases saveNext_cases s i with ⟨objects, hnext, -⟩ | ⟨objects, m, -, hnext, -⟩ |
        ⟨m, row, -, hnext, -⟩
      · rw [hnext]
      · rw [hnext, List.length_map]
      · rw [hnext, List.length_append]
        omega

/-- A save without a key adds a row. -/
theorem length_lt_saveEach (models : List ι) (s : Saving ι K)
    (h : ∃ m ∈ sentAttributes pqEscapeLiteral cls hooks s.objects models,
      isPresent m cls.primaryKey = false) :
    s.table.length < (saveEach pqEscapeLiteral cls server hooks s models).table.length := by
  induction models generalizing s with
  | nil =>
      obtain ⟨m, hm, -⟩ := h
      cases hm
  | cons i rest ih =>
      show _ < (saveEach pqEscapeLiteral cls server hooks
        (saveNext pqEscapeLiteral cls server hooks s i) rest).table.length
      rcases saveNext_cases s i with
        ⟨objects, hnext, hsent⟩ | ⟨objects, m, hkey, hnext, hsent⟩ | ⟨m, row, -, hnext, -⟩
      · rw [hsent] at h
        rw [hnext]
        exact ih ⟨objects, s.table⟩ h
      · rw [hsent] at h
        obtain ⟨m', hm', hkey'⟩ := h
        rcases List.mem_cons.mp hm' with rfl | hm'
        · rw [hkey] at hkey'
          cases hkey'
        · have hlater := ih ⟨objects, s.table.map (saveWrite pqEscapeLiteral cls server m).on⟩
            ⟨m', hm', hkey'⟩
          rw [hnext]
          rwa [List.length_map] at hlater
      · have hlater : (saveNext pqEscapeLiteral cls server hooks s i).table.length ≤
            (saveEach pqEscapeLiteral cls server hooks
              (saveNext pqEscapeLiteral cls server hooks s i) rest).table.length :=
          length_le_saveEach rest _
        rw [hnext, List.length_append] at hlater
        simp only [List.length_singleton] at hlater
        omega

/-! ## What the batch leaves -/

/-- One more field of the update data. -/
theorem getElem?_addField (attributes data : TextMap) (field key : Text) :
    (addField cls attributes data field)[key]? =
      if field = key ∧ key ≠ cls.primaryKey then
        (attributes[key]?.filter (· ≠ [])).or data[key]?
      else data[key]? := by
  unfold addField getAttribute
  by_cases hprimary : field = cls.primaryKey
  · rw [if_pos hprimary, if_neg fun h => h.2 (h.1.symm.trans hprimary)]
  · rw [if_neg hprimary]
    by_cases hkey : field = key
    · subst hkey
      rw [if_pos ⟨rfl, hprimary⟩]
      cases attributes[field]? with
      | none => rfl
      | some value =>
          cases value with
          | nil => rfl
          | cons c text =>
              dsimp only
              rw [getElem?_insert, if_pos rfl]
              rfl
    · rw [if_neg fun h => hkey h.1]
      cases attributes[field]? with
      | none => rfl
      | some value =>
          cases value with
          | nil => rfl
          | cons c text =>
              dsimp only
              rw [getElem?_insert, if_neg hkey]

/-- The update data are the values of the declared fields that are not empty. -/
theorem getElem?_updateData (cls : ModelClass) (attributes : TextMap) (key : Text) :
    (updateData cls attributes)[key]? =
      if key ∈ cls.fields then (savedValues cls attributes)[key]?.filter (· ≠ []) else none := by
  have hfold : ∀ (fields : List Text) (data : TextMap),
      (fields.foldl (addField cls attributes) data)[key]? =
        if key ∈ fields ∧ key ≠ cls.primaryKey then
          (attributes[key]?.filter (· ≠ [])).or data[key]?
        else data[key]? := by
    intro fields
    induction fields with
    | nil => exact fun data => (if_neg fun h => by cases h.1).symm
    | cons field rest ih =>
        intro data
        rw [List.foldl_cons, ih, getElem?_addField]
        by_cases hprimary : key = cls.primaryKey
        · simp [hprimary]
        · by_cases hfield : field = key
          · subst hfield
            cases attributes[field]?.filter (· ≠ []) <;> simp [hprimary]
          · simp [hprimary, hfield, Ne.symm hfield]
  rw [updateData, hfold, getElem?_savedValues, Std.ExtTreeMap.getElem?_empty, Option.or_none]
  by_cases hprimary : key = cls.primaryKey
  · simp [hprimary]
  · simp [hprimary]

/-- What the update of a model with declared fields gives to a column. -/
theorem valueFor_batchUpdate {m : TextMap} (hdeclared : ∀ key, m[key]?.isSome → key ∈ cls.fields)
    (key : K) (column : Text) :
    ((batchUpdate pqEscapeLiteral cls m).bind fun update =>
        (updateWrite pqEscapeLiteral cls server update.1 update.2).valueFor key column) =
      if server.selects (keyCondition cls
          (SQLString.escapeString pqEscapeLiteral (m.getD cls.primaryKey []))) key then
        ((savedValues cls m)[column]?.filter (· ≠ [])).map (SQLString.escapeString pqEscapeLiteral)
      else none := by
  have hvalues : (updateData cls m)[column]? = (savedValues cls m)[column]?.filter (· ≠ []) := by
    rw [getElem?_updateData]
    by_cases hfield : column ∈ cls.fields
    · rw [if_pos hfield]
    · have hnone : m[column]? = none := by
        by_contra hsome
        exact hfield (hdeclared column (Option.isSome_iff_ne_none.mpr hsome))
      rw [if_neg hfield, getElem?_savedValues, hnone, ite_self]
      rfl
  rw [← hvalues]
  cases hdata : (updateData cls m).isEmpty with
  | true =>
      rw [batchUpdate, hdata, if_pos rfl, Option.bind_none]
      rw [getElem?_of_isEmpty hdata]
      exact (ite_self _).symm
  | false =>
      rw [batchUpdate, hdata, if_neg Bool.false_ne_true, Option.bind_some, valueFor_updateWrite]

omit [DecidableEq ι] in
/-- The last value of a column in the batch. -/
theorem lastValue_batch {objects : ι → TextMap} {models : List ι}
    (hdeclared : ∀ i ∈ models, ∀ key, (objects i)[key]?.isSome → key ∈ cls.fields) (key : K)
    (column : Text) :
    Write.lastValue (((models.map objects).filterMap (batchUpdate pqEscapeLiteral cls)).map
        fun update => updateWrite pqEscapeLiteral cls server update.1 update.2) key column =
      (batchedUnder pqEscapeLiteral cls server (models.map objects) key column).getLast? := by
  rw [Write.lastValue, List.filterMap_map, List.filterMap_filterMap, batchedUnder]
  refine congrArg List.getLast? (List.filterMap_congr fun m hm => ?_)
  obtain ⟨i, hi, rfl⟩ := List.mem_map.mp hm
  exact valueFor_batchUpdate (hdeclared i hi) key column

/-- The last value of a column in the saves. -/
theorem lastValue_saves (sent : List TextMap) (key : K) (column : Text) :
    Write.lastValue (sent.map (saveWrite pqEscapeLiteral cls server)) key column =
      (savedUnder pqEscapeLiteral cls server sent key column).getLast? := by
  rw [Write.lastValue, List.filterMap_map, savedUnder]
  exact congrArg List.getLast? (List.filterMap_congr fun m _ => valueFor_updateWrite _ _ _ _)

/-- `saveMany`, and `save` of each model, leave the same table exactly when no save inserts a row
and every column ends with the same literal. -/
theorem sameTable_iff (s : Saving ι K) (models : List ι)
    (hkeys : ∀ i ∈ models, isPresent (s.objects i) cls.primaryKey = true)
    (hdeclared : ∀ i ∈ models, ∀ key, (s.objects i)[key]?.isSome → key ∈ cls.fields) :
    saveMany pqEscapeLiteral cls (models.map s.objects) = batchCalls pqEscapeLiteral cls
        ((models.map s.objects).filterMap (batchUpdate pqEscapeLiteral cls)) ∧
      (saveManyTable pqEscapeLiteral cls server s.table (models.map s.objects) =
          (saveEach pqEscapeLiteral cls server hooks s models).table ↔
        WritesAlike pqEscapeLiteral cls server hooks s.objects s.table models) := by
  refine ⟨saveMany_eq pqEscapeLiteral cls (List.forall_mem_map.mpr hkeys), ?_⟩
  rw [saveManyTable]
  constructor
  · intro hsame
    have hupdates : ∀ m ∈ sentAttributes pqEscapeLiteral cls hooks s.objects models,
        isPresent m cls.primaryKey = true := by
      intro m hm
      by_contra hkey
      have hlonger : s.table.length <
          (saveEach pqEscapeLiteral cls server hooks s models).table.length :=
        length_lt_saveEach models s ⟨m, hm, Bool.eq_false_iff.mpr hkey⟩
      rw [← hsame, Write.length_run] at hlonger
      exact lt_irrefl _ hlonger
    refine ⟨hupdates, fun row hrow column => ?_⟩
    rw [table_saveEach models s hupdates, Write.run_eq_run_iff] at hsame
    have hcolumn := hsame row hrow column
    rw [lastValue_batch hdeclared, lastValue_saves] at hcolumn
    exact hcolumn.symm
  · intro halike
    rw [table_saveEach models s halike.updates, Write.run_eq_run_iff]
    intro row hrow column
    rw [lastValue_batch hdeclared, lastValue_saves]
    exact (halike.last row hrow column).symm

/-! ## Plain models -/

/-- A model whose hooks pass and change nothing, with no empty attribute, and with a key that
selects the same rows as its literal. -/
structure Plain (pqEscapeLiteral : Text → Option Text) (cls : ModelClass) (server : TableServer K)
    (hooks : Hooks) (attributes : TextMap) : Prop where
  before : hooks.before attributes = (true, attributes)
  afterSave : hooks.afterSave attributes = attributes
  values : ∀ key : Text, attributes[key]? ≠ some []
  key : server.selects (keyCondition cls (attributes.getD cls.primaryKey [])) =
    server.selects (keyCondition cls
      (SQLString.escapeString pqEscapeLiteral (attributes.getD cls.primaryKey [])))

/-- Plain models are sent as they are. -/
theorem sentAttributes_of_plain {objects : ι → TextMap} {models : List ι}
    (hplain : ∀ i ∈ models, Plain pqEscapeLiteral cls server (hooks i) (objects i)) :
    sentAttributes pqEscapeLiteral cls hooks objects models =
      (models.map objects).filter fun m => (sentRequest pqEscapeLiteral cls m).isSome := by
  induction models with
  | nil => rfl
  | cons i rest ih =>
      have hi := hplain i List.mem_cons_self
      have hrest := ih fun j hj => hplain j (List.mem_cons_of_mem _ hj)
      rw [sentAttributes, hi.before, List.map_cons]
      cases hsent : sentRequest pqEscapeLiteral cls (objects i) with
      | none =>
          rw [List.filter_cons_of_neg (by rw [hsent]; exact Bool.false_ne_true), ← hrest]
          simp only [hsent, Function.update_eq_self]
      | some request =>
          rw [List.filter_cons_of_pos (by rw [hsent]; rfl), ← hrest]
          simp only [hsent, hi.afterSave, Function.update_eq_self]

/-- For plain models with keys `saveMany` writes what their saves write. -/
theorem writesAlike_of_plain {objects : ι → TextMap} {models : List ι}
    (hkeys : ∀ i ∈ models, isPresent (objects i) cls.primaryKey = true)
    (hplain : ∀ i ∈ models, Plain pqEscapeLiteral cls server (hooks i) (objects i))
    (table : Table K) :
    WritesAlike pqEscapeLiteral cls server hooks objects table models := by
  have hsent := sentAttributes_of_plain hplain
  refine ⟨fun m hm => ?_, fun row _ column => ?_⟩
  · rw [hsent] at hm
    obtain ⟨i, hi, rfl⟩ := List.mem_map.mp (List.mem_filter.mp hm).1
    exact hkeys i hi
  · rw [hsent, savedUnder, List.filterMap_filter, batchedUnder]
    refine congrArg (fun literals : List Text => literals.getLast?.or (row.fields column))
      (List.filterMap_congr fun m hm => ?_)
    obtain ⟨i, hi, rfl⟩ := List.mem_map.mp hm
    have hvalue : (savedValues cls (objects i))[column]?.filter (· ≠ []) =
        (savedValues cls (objects i))[column]? := by
      rw [getElem?_savedValues]
      split
      · rfl
      · cases hget : (objects i)[column]? with
        | none => rfl
        | some value =>
            refine Option.filter_eq_some_iff.mpr ⟨rfl, decide_eq_true fun hnil => ?_⟩
            exact (hplain i hi).values column (hnil ▸ hget)
    rw [← (hplain i hi).key, hvalue]
    cases hrequest : sentRequest pqEscapeLiteral cls (objects i) with
    | some request => rfl
    | none =>
        have hempty : (savedValues cls (objects i)).isEmpty = true := by
          by_contra hvalues
          unfold sentRequest saveRequest at hrequest
          rw [if_neg hvalues, if_pos (hkeys i hi)] at hrequest
          cases hrequest
        rw [getElem?_of_isEmpty hempty]
        exact (ite_self _).symm

end

/-! ## A user -/

/-- A server with numbers as keys, which it reads with and without quotes. -/
def numberServer : TableServer Nat where
  selects := fun condition key =>
    condition = keyCondition users (natText key) ||
      condition = keyCondition users (("'" : Text) ++ natText key ++ ("'" : Text))
  newKey := fun table => table.length
  keyText := natText

/-- The user with the key 7 gets another login. -/
def renamedUser : Saving Unit Nat where
  objects := fun _ => ((∅ : TextMap).insert "id" "7").insert "login" "bob"
  table := [⟨7, fun column => if column = ("login" : Text) then some "'ann'" else none⟩]

/-- The hooks of the base class. -/
def baseHooks : Hooks where
  validate := fun attributes => (true, attributes)
  beforeSave := fun attributes => (true, attributes)
  afterSave := fun attributes => attributes

/-- Hooks that do not let a model be saved. -/
def vetoingHooks : Hooks := { baseHooks with validate := fun attributes => (false, attributes) }

theorem declared_renamedUser (i : Unit) (key : Text) (h : (renamedUser.objects i)[key]?.isSome) :
    key ∈ users.fields := by
  have hfound : (renamedUser.objects i)[key]? =
      if ("login" : Text) = key then some ("bob" : Text)
      else if ("id" : Text) = key then some ("7" : Text) else none := by
    show ((((∅ : TextMap).insert "id" "7").insert "login" "bob" : TextMap))[key]? = _
    rw [getElem?_insert, getElem?_insert, Std.ExtTreeMap.getElem?_empty]
  rw [hfound] at h
  by_cases hlogin : ("login" : Text) = key
  · exact hlogin ▸ List.mem_cons_of_mem _ (List.mem_singleton_self _)
  · by_cases hid : ("id" : Text) = key
    · exact hid ▸ List.mem_cons_self
    · rw [if_neg hlogin, if_neg hid] at h
      cases h

/-- Without hooks of its own the user is renamed either way. -/
theorem sameTable_renamedUser :
    saveMany quoteLiteral users [renamedUser.objects ()] = batchCalls quoteLiteral users
        ([renamedUser.objects ()].filterMap (batchUpdate quoteLiteral users)) ∧
      (saveManyTable quoteLiteral users numberServer renamedUser.table [renamedUser.objects ()] =
          (saveEach quoteLiteral users numberServer (fun _ => baseHooks) renamedUser [()]).table ↔
        WritesAlike quoteLiteral users numberServer (fun _ => baseHooks) renamedUser.objects
          renamedUser.table [()]) :=
  sameTable_iff renamedUser [()] (fun i _ => by cases i; decide +kernel)
    fun i _ => declared_renamedUser i

/-- `saveMany` renames a user whose `validate` returns false. -/
theorem vetoed_user_renamed :
    saveManyTable quoteLiteral users numberServer renamedUser.table [renamedUser.objects ()] ≠
      (saveEach quoteLiteral users numberServer (fun _ => vetoingHooks)
        renamedUser [()]).table := by
  intro hsame
  have hlogins := congrArg
    (fun table : Table Nat => table.map fun row => row.fields "login") hsame
  have hbatch : ((saveManyTable quoteLiteral users numberServer renamedUser.table
      [renamedUser.objects ()]).map fun row => row.fields "login") = [some ("'bob'" : Text)] := by
    decide +kernel
  have hsaves : ((saveEach quoteLiteral users numberServer (fun _ => vetoingHooks) renamedUser
      [()]).table.map fun row => row.fields "login") = [some ("'ann'" : Text)] := by
    decide +kernel
  have hliterals := hbatch.symm.trans (hlogins.trans hsaves)
  exact absurd hliterals (by decide)

end Model

end Brazier
