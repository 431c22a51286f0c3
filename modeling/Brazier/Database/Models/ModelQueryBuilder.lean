import Brazier.Database.Models.ModelObject
import Brazier.Database.Substitution

/-!
# Queries that return models

`ModelQueryBuilder` of `include/brazier/Database/Models/ModelQueryBuilder.hpp`. `get` hands the
finished text of the query to `queryToVector`, which counts the question marks in it. They are those
of the texts that the builder copies into the query: `mem_get_iff`.
-/

namespace Brazier

/-- `ModelQueryBuilder::get`, on the connection that it makes: the rows as models. -/
def ModelQueryBuilder.get (pqEscapeLiteral : Text → Option Text) (cls : FillableClass)
    (db : Database) (b : SQLQueryBuilder) : Except Text (List TextMap) × Database :=
  let (rows, db) := Database.queryToVector pqEscapeLiteral db b.get []
  (rows.map (fun rows => rows.map fun row => Model.create cls row true), db)

/-- A question mark stands in one of the texts. -/
def Marked (texts : List Text) : Prop := ∃ text ∈ texts, '?' ∈ text

namespace Marked

@[simp] theorem nil : ¬ Marked [] := by
  simp [Marked]

@[simp] theorem cons (text : Text) (rest : List Text) :
    Marked (text :: rest) ↔ '?' ∈ text ∨ Marked rest := by
  simp [Marked]

@[simp] theorem append (first second : List Text) :
    Marked (first ++ second) ↔ Marked first ∨ Marked second := by
  simp [Marked, or_and_right, exists_or]

/-- A question mark in joined texts stands in one of them. -/
theorem joinWith {sep : Text} (hsep : '?' ∉ sep) (texts : List Text) :
    '?' ∈ Brazier.joinWith sep texts ↔ Marked texts :=
  mem_joinWith hsep texts

end Marked

namespace SQLQueryBuilder

/-- The two texts of each entry of a map. -/
def entryTexts (map : TextMap) : List Text :=
  (map.toList.map fun entry => [entry.1, entry.2]).flatten

/-- The texts that `get` copies into the query. -/
def parts (b : SQLQueryBuilder) : List Text :=
  if b.insertValues.isEmpty = false then b.table :: entryTexts b.insertValues
  else if b.updateValues.isEmpty = false then
    b.table :: (entryTexts b.updateValues ++ b.whereConditions)
  else if b.isDeleteQuery then
    b.table :: (b.whereConditions ++ entryTexts b.orderByColumns ++ [b.limit])
  else
    b.table :: (b.selectColumns ++ b.joins.toList.map Prod.snd ++ b.whereConditions ++
      b.groupByColumns ++ entryTexts b.orderByColumns ++ [b.limit, b.offset])

/-- The entries of a map, column by column. -/
theorem marked_entryTexts (map : TextMap) :
    Marked (entryTexts map) ↔
      Marked (map.toList.map Prod.fst) ∨ Marked (map.toList.map Prod.snd) := by
  unfold entryTexts
  induction map.toList with
  | nil => simp
  | cons entry rest ih =>
      rw [List.map_cons, List.flatten_cons, Marked.append, ih]
      simp only [List.map_cons, Marked.cons, Marked.nil, or_false]
      exact or_or_or_comm

/-- The entries of a map, key by key. -/
theorem marked_entryTexts_iff (map : TextMap) :
    Marked (entryTexts map) ↔
      ∃ key value : Text, map[key]? = some value ∧ ('?' ∈ key ∨ '?' ∈ value) := by
  unfold entryTexts Marked
  constructor
  · intro h
    obtain ⟨text, htext, hmark⟩ := h
    obtain ⟨texts, htexts, hin⟩ := List.mem_flatten.mp htext
    obtain ⟨entry, hentry, rfl⟩ := List.mem_map.mp htexts
    refine ⟨entry.1, entry.2, mem_toList_iff.mp hentry, ?_⟩
    rcases List.mem_pair.mp hin with rfl | rfl
    · exact Or.inl hmark
    · exact Or.inr hmark
  · intro h
    obtain ⟨key, value, hvalue, hmark⟩ := h
    have hentry : [key, value] ∈ map.toList.map fun entry => [entry.1, entry.2] :=
      List.mem_map.mpr ⟨(key, value), mem_toList_iff.mpr hvalue, rfl⟩
    rcases hmark with hmark | hmark
    · exact ⟨key, List.mem_flatten.mpr ⟨_, hentry, List.mem_cons_self⟩, hmark⟩
    · exact ⟨value, List.mem_flatten.mpr ⟨_, hentry, List.mem_pair.mpr (Or.inr rfl)⟩, hmark⟩

/-- The entries of a map, each with a text between its two. -/
theorem marked_pairs {sep : Text} (hsep : '?' ∉ sep) (map : TextMap) :
    Marked (map.toList.map fun entry => entry.1 ++ sep ++ entry.2) ↔ Marked (entryTexts map) := by
  unfold entryTexts
  induction map.toList with
  | nil => simp
  | cons entry rest ih =>
      rw [List.map_cons, List.map_cons, List.flatten_cons, Marked.cons, Marked.append, ih]
      simp [hsep, or_assoc]

theorem mem_insertText (b : SQLQueryBuilder) :
    '?' ∈ b.insertText ↔ '?' ∈ b.table ∨ Marked (entryTexts b.insertValues) := by
  rw [marked_entryTexts]
  unfold insertText
  simp [Marked.joinWith]

theorem mem_whereText (b : SQLQueryBuilder) : '?' ∈ b.whereText ↔ Marked b.whereConditions := by
  unfold whereText
  split
  · next h => simp [h]
  · simp [Marked.joinWith]

theorem mem_groupByText (b : SQLQueryBuilder) : '?' ∈ b.groupByText ↔ Marked b.groupByColumns := by
  unfold groupByText
  split
  · next h => simp [h]
  · simp [Marked.joinWith]

theorem mem_orderByText (b : SQLQueryBuilder) :
    '?' ∈ b.orderByText ↔ Marked (entryTexts b.orderByColumns) := by
  unfold orderByText
  split
  · next h =>
      rw [Std.ExtTreeMap.isEmpty_iff] at h
      rw [h, entryTexts, Std.ExtTreeMap.toList_eq_nil_iff.mpr rfl]
      simp
  · rw [List.mem_append, Marked.joinWith (by simp), marked_pairs (by simp)]
    simp

theorem mem_updateText (b : SQLQueryBuilder) :
    '?' ∈ b.updateText ↔
      '?' ∈ b.table ∨ Marked (entryTexts b.updateValues) ∨ Marked b.whereConditions := by
  unfold updateText
  simp only [List.mem_append, mem_whereText]
  rw [Marked.joinWith (by simp), marked_pairs (by simp)]
  simp [or_assoc]

theorem mem_deleteText (b : SQLQueryBuilder) :
    '?' ∈ b.deleteText ↔
      '?' ∈ b.table ∨ Marked b.whereConditions ∨ Marked (entryTexts b.orderByColumns) ∨
        '?' ∈ b.limit := by
  unfold deleteText
  simp only [List.mem_append, mem_whereText, mem_orderByText]
  simp [or_assoc]

theorem mem_selectText (b : SQLQueryBuilder) :
    '?' ∈ b.selectText ↔
      '?' ∈ b.table ∨ Marked b.selectColumns ∨ Marked (b.joins.toList.map Prod.snd) ∨
        Marked b.whereConditions ∨ Marked b.groupByColumns ∨
        Marked (entryTexts b.orderByColumns) ∨ '?' ∈ b.limit ∨ '?' ∈ b.offset := by
  have hcolumns : '?' ∈ (if b.selectColumns = [] then ("*" : Text)
      else joinWith ", " b.selectColumns) ↔ Marked b.selectColumns := by
    split
    · next h => simp [h]
    · exact Marked.joinWith (by simp) _
  have hjoins : '?' ∈ (b.joins.toList.map fun clause => (" " : Text) ++ clause.2).flatten ↔
      Marked (b.joins.toList.map Prod.snd) := by
    induction b.joins.toList with
    | nil => simp
    | cons clause rest ih =>
        rw [List.map_cons, List.map_cons, List.flatten_cons, Marked.cons, List.mem_append, ih]
        simp
  unfold selectText
  simp only [List.mem_append, mem_whereText, mem_groupByText, mem_orderByText, hcolumns, hjoins]
  simp [or_assoc, or_left_comm]

/-- The question marks of a query are those of the texts that are copied into it. -/
theorem mem_get_iff (b : SQLQueryBuilder) : '?' ∈ b.get ↔ Marked b.parts := by
  unfold get parts
  split
  · rw [mem_insertText, Marked.cons]
  · split
    · rw [mem_updateText, Marked.cons, Marked.append]
    · split
      · rw [mem_deleteText]
        simp
      · rw [mem_selectText]
        simp

end SQLQueryBuilder

namespace Database

/-- A finished text without question marks is fetched as it is. -/
theorem fetchTemplate_finished (pqEscapeLiteral : Text → Option Text) (db : Database) {sql : Text}
    (h : '?' ∉ sql) : fetchTemplate pqEscapeLiteral db sql [] = db.fetch sql :=
  if_pos (List.count_eq_zero.mpr h)

/-- One with a question mark is not sent. -/
theorem fetchTemplate_marked (pqEscapeLiteral : Text → Option Text) (db : Database) {sql : Text}
    (h : '?' ∈ sql) :
    fetchTemplate pqEscapeLiteral db sql [] = (.error (mismatchMessage (sql.count '?') 0), db) :=
  if_neg fun hcount => List.count_eq_zero.mp hcount h

end Database

/-- `ModelQueryBuilder::get` executes its query exactly when no text in it has a question mark. -/
theorem ModelQueryBuilder.sent_iff (pqEscapeLiteral : Text → Option Text) (cls : FillableClass)
    (db : Database) (b : SQLQueryBuilder) :
    Database.Sent b.get db (ModelQueryBuilder.get pqEscapeLiteral cls db b).2 ↔
      ¬ Marked b.parts := by
  rw [← b.mem_get_iff]
  show Database.Sent b.get db (Database.fetchTemplate pqEscapeLiteral db b.get []).2 ↔ _
  by_cases hmark : '?' ∈ b.get
  · refine iff_of_false ?_ (not_not_intro hmark)
    rw [Database.fetchTemplate_marked pqEscapeLiteral db hmark]
    intro h
    simpa using congrArg List.length h
  · refine iff_of_true ?_ hmark
    rw [Database.fetchTemplate_finished pqEscapeLiteral db hmark, Database.Sent,
      (db.fetch_spec b.get).2, Database.received_pq_exec]

end Brazier
