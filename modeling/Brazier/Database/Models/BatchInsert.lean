import Brazier.Database.Models.QuestionMarks

/-!
# The batch insert

The columns of the `INSERT` in `saveMany` are the non-empty fields of the first model of the list.
`keepsAttributes_iff` says when no attribute of the other models is lost.
-/

namespace Brazier

namespace Model

/-- An `INSERT` with several rows. -/
structure InsertBatch where
  columns : List Text
  rows : List (List Text)

/-- The text of a row. -/
def rowText (cells : List Text) : Text := ("(" : Text) ++ joinWith ", " cells ++ (")" : Text)

/-- The text of the statement. -/
def InsertBatch.text (cls : ModelClass) (batch : InsertBatch) : Text :=
  insertText cls batch.columns (batch.rows.map rowText)

/-- The values of a model for some columns, escaped. -/
def rowCells (pqEscapeLiteral : Text → Option Text) (columns : List Text) (attributes : TextMap) :
    List Text :=
  columns.map fun column => SQLString.escapeString pqEscapeLiteral (attributes.getD column [])

/-- The `INSERT` of `saveMany`. -/
def batchOf (pqEscapeLiteral : Text → Option Text) (cls : ModelClass) (models : List TextMap) :
    InsertBatch where
  columns := columnsOf cls models
  rows := (models.filter fun m => !isPresent m cls.primaryKey).map
    (rowCells pqEscapeLiteral (columnsOf cls models))

/-- A text stands in the cells under a column. -/
def StandsUnder (columns cells : List Text) (column text : Text) : Prop :=
  ∃ i : Nat, columns[i]? = some column ∧ cells[i]? = some text

/-- Every non-empty field of the model but the primary key stands in the cells under its column,
escaped. -/
def Carries (pqEscapeLiteral : Text → Option Text) (cls : ModelClass) (columns cells : List Text)
    (attributes : TextMap) : Prop :=
  ∀ key ∈ cls.fields, key ≠ cls.primaryKey → isPresent attributes key = true →
    StandsUnder columns cells key (SQLString.escapeString pqEscapeLiteral (attributes.getD key []))

/-- For every model without a primary key the `INSERT` has been executed, and has a row that carries
its attributes. -/
def KeepsAttributes (pqEscapeLiteral : Text → Option Text) (cls : ModelClass)
    (models : List TextMap) (db : Database) : Prop :=
  ∀ m ∈ models, isPresent m cls.primaryKey = false →
    (∃ earlier, db.contents = earlier ++ [(batchOf pqEscapeLiteral cls models).text cls]) ∧
      ∃ cells ∈ (batchOf pqEscapeLiteral cls models).rows,
        Carries pqEscapeLiteral cls (batchOf pqEscapeLiteral cls models).columns cells m

/-- The first model has a value for every field that a model without a primary key has a value
for. -/
def FirstCovers (cls : ModelClass) : List TextMap → Prop
  | [] => True
  | first :: rest =>
      ∀ m ∈ first :: rest, isPresent m cls.primaryKey = false →
        ∀ key ∈ cls.fields, key ≠ cls.primaryKey → isPresent m key = true →
          isPresent first key = true

variable {pqEscapeLiteral : Text → Option Text} {cls : ModelClass}

/-- A list of computations that return. -/
theorem mapM_eq_ok {α β : Type} {f : α → Except Text β} {g : α → β}
    (hf : ∀ a b, f a = .ok b → b = g a) {items : List α} {results : List β}
    (h : items.mapM f = .ok results) : results = items.map g := by
  induction items generalizing results with
  | nil =>
      cases h
      rfl
  | cons item rest ih =>
      rw [List.mapM_cons] at h
      cases hitem : f item with
      | error e =>
          rw [hitem] at h
          cases h
      | ok b =>
          cases hrest : rest.mapM f with
          | error e =>
              rw [hitem, hrest] at h
              cases h
          | ok others =>
              rw [hitem, hrest] at h
              cases h
              rw [List.map_cons, hf item b hitem, ih hrest]

/-- A row that is built is the text of the cells. -/
theorem insertRow_eq_ok {columns : List Text} {attributes : TextMap} {row : Text}
    (h : insertRow pqEscapeLiteral columns attributes = .ok row) :
    row = rowText (rowCells pqEscapeLiteral columns attributes) := by
  have hcell : ∀ column cell, (do
      let value ← getAttribute attributes column
      return SQLString.escapeString pqEscapeLiteral value : Except Text Text) = .ok cell →
        cell = SQLString.escapeString pqEscapeLiteral (attributes.getD column []) := by
    intro column cell hcell
    rw [Std.ExtTreeMap.getD_eq_getD_getElem?]
    rw [getAttribute] at hcell
    cases hvalue : attributes[column]? with
    | none =>
        rw [hvalue] at hcell
        cases hcell
    | some value =>
        rw [hvalue] at hcell
        cases hcell
        rfl
  rw [insertRow] at h
  cases hcells : columns.mapM (fun col => do
      let value ← getAttribute attributes col
      return SQLString.escapeString pqEscapeLiteral value : Text → Except Text Text) with
  | error e =>
      rw [hcells] at h
      cases h
  | ok cells =>
      rw [hcells] at h
      cases h
      rw [rowText, mapM_eq_ok hcell hcells]
      rfl

/-- When `saveMany` returns true, the batch insert is the last statement that was done. -/
theorem executed_of_true {db db' : Database} {models : List TextMap}
    (h : saveManyOn pqEscapeLiteral cls db models = (.ok true, db')) {m : TextMap} (hm : m ∈ models)
    (hkey : isPresent m cls.primaryKey = false) :
    ∃ earlier, db'.contents = earlier ++ [(batchOf pqEscapeLiteral cls models).text cls] := by
  have hinsert : ∀ before : Database, insertMany pqEscapeLiteral cls before (columnsOf cls models)
      (models.filter fun m => !isPresent m cls.primaryKey) = (.ok true, db') →
        ∃ earlier, db'.contents = earlier ++ [(batchOf pqEscapeLiteral cls models).text cls] := by
    intro before hbefore
    have hsome : models.filter (fun m => !isPresent m cls.primaryKey) ≠ [] :=
      List.ne_nil_of_mem (List.mem_filter.mpr ⟨hm, by rw [hkey]; rfl⟩)
    rw [insertMany, if_neg hsome] at hbefore
    split at hbefore
    · cases hbefore
    · split at hbefore
      · cases hbefore
      · next rows hrows =>
        have hrows := mapM_eq_ok (fun _ _ => insertRow_eq_ok) hrows
        have htext : insertText cls (columnsOf cls models) rows =
            (batchOf pqEscapeLiteral cls models).text cls := by
          rw [hrows, InsertBatch.text, batchOf, List.map_map]
          rfl
        rw [htext] at hbefore
        obtain ⟨hok, hdb⟩ := Prod.mk.inj hbefore
        have hnext : before.doesNext = true :=
          (before.isOk_execute _).symm.trans (Except.ok.inj hok)
        exact ⟨before.contents, hdb ▸ Database.contents_of_done hnext _⟩
  cases models with
  | nil => cases h
  | cons first rest =>
      rw [saveManyOn] at h
      split at h
      · exact hinsert _ h
      · split at h
        · cases h
        · exact hinsert _ h

/-- A cell of a row is the value under its column. -/
theorem standsUnder_rowCells {columns : List Text} {attributes : TextMap} {key : Text}
    (hkey : key ∈ columns) :
    StandsUnder columns (rowCells pqEscapeLiteral columns attributes) key
      (SQLString.escapeString pqEscapeLiteral (attributes.getD key [])) := by
  obtain ⟨i, hi⟩ := List.mem_iff_getElem?.mp hkey
  exact ⟨i, hi, by rw [rowCells, List.getElem?_map, hi]; rfl⟩

theorem mem_insertColumns {first : TextMap} {key : Text} :
    key ∈ insertColumns cls first ↔
      key ∈ cls.fields ∧ key ≠ cls.primaryKey ∧ isPresent first key = true := by
  rw [insertColumns, List.mem_filter, Bool.and_eq_true, decide_eq_true_iff]

/-- When `saveMany` returns true, no attribute of a model without a primary key is lost exactly when
the first model has a value for all of them. -/
theorem keepsAttributes_iff {db db' : Database} {models : List TextMap}
    (h : saveManyOn pqEscapeLiteral cls db models = (.ok true, db')) :
    KeepsAttributes pqEscapeLiteral cls models db' ↔ FirstCovers cls models := by
  cases hmodels : models with
  | nil => exact iff_of_true (fun m hm => by cases hm) trivial
  | cons first rest =>
      rw [hmodels] at h
      constructor
      · intro hkeeps m hm hkey key hfield hne hpresent
        obtain ⟨-, cells, -, hcells⟩ := hkeeps m hm hkey
        obtain ⟨i, hi, -⟩ := hcells key hfield hne hpresent
        exact (mem_insertColumns.mp (List.mem_of_getElem? hi)).2.2
      · intro hcovers m hm hkey
        refine ⟨executed_of_true h hm hkey, rowCells pqEscapeLiteral (insertColumns cls first) m,
          ?_, ?_⟩
        · refine List.mem_map.mpr ⟨m, List.mem_filter.mpr ⟨hm, ?_⟩, rfl⟩
          rw [hkey]
          rfl
        · intro key hfield hne hpresent
          have hfirst := hcovers m hm hkey key hfield hne hpresent
          exact standsUnder_rowCells (mem_insertColumns.mpr ⟨hfield, hne, hfirst⟩)

/-- Two users with a login. -/
theorem keepsAttributes_twoUsers :
    KeepsAttributes quoteLiteral users [withLogin "ann", withLogin "bob"]
        (saveManyOn quoteLiteral users returningOne [withLogin "ann", withLogin "bob"]).2 ↔
      FirstCovers users [withLogin "ann", withLogin "bob"] :=
  keepsAttributes_iff (Prod.ext (by decide) rfl)

/-- The class of users with an address. -/
def accounts : ModelClass where
  tableName := "accounts"
  primaryKey := "id"
  fields := ["id", "login", "email"]

/-- A user with an address. -/
def withEmail (login email : Text) : TextMap := (withLogin login).insert "email" email

/-- The address of the second account is lost, and `saveMany` returns true. -/
theorem second_email_lost :
    saveManyOn quoteLiteral accounts (Database.connect [] [])
        [withLogin "ann", withEmail "bob" "bob@x"] =
      (.ok true, (Database.connect [] []).performAll quoteLiteral
        [.execute "INSERT INTO accounts (login) VALUES ('ann'), ('bob');"]) ∧
      ¬ KeepsAttributes quoteLiteral accounts [withLogin "ann", withEmail "bob" "bob@x"]
        (saveManyOn quoteLiteral accounts (Database.connect [] [])
          [withLogin "ann", withEmail "bob" "bob@x"]).2 := by
  refine ⟨by decide, fun hkeeps => ?_⟩
  obtain ⟨-, cells, -, hcells⟩ := hkeeps (withEmail "bob" "bob@x")
    (List.mem_cons_of_mem _ (List.mem_singleton_self _)) (by decide)
  obtain ⟨i, hi, -⟩ := hcells "email" (by decide) (by decide) (by decide)
  have hpresent := (mem_insertColumns.mp (List.mem_of_getElem? hi)).2.2
  exact absurd hpresent (by decide)

end Model

end Brazier
