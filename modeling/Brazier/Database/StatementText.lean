import Brazier.Database.SQLQueryBuilder
import Brazier.Database.SQLString
import Brazier.ProofLib.Entries
import Brazier.ProofLib.Reading

/-!
# Reading what the query builder writes

`readInsert` and `readUpdate` take the text of an `INSERT` and of an `UPDATE` apart. An `INSERT` is
read from its end, and its table may be any text. The table of an `UPDATE` ends at the first ` SET `
behind which assignments can be read.
-/

namespace Brazier

open ProofLib ProofLib.Reading

namespace SQLQueryBuilder

/-- The character between which a literal stands. -/
def quoteChar : Char := Char.ofNat 39

/-- A letter, a digit or an underscore. Letters outside of ASCII are letters of a name too. -/
def isColumnChar (c : Char) : Bool := c.isAlphanum || c = '_' || 127 < c.toNat

/-- The name of a column. -/
def IsColumnName (name : Text) : Prop := ∀ c ∈ name, isColumnChar c = true

instance : DecidablePred IsColumnName :=
  fun _ => decidable_of_iff _ List.all_eq_true

/-- A literal: a text in quotes, with its quotes doubled. -/
def IsLiteral (value : Text) : Prop := ∃ content, quoteLiteral content = some value

/-- Columns with literals. -/
def IsRow (values : TextMap) : Prop :=
  ∀ column value : Text, values[column]? = some value → IsColumnName column ∧ IsLiteral value

/-- An assignment of an `UPDATE`. -/
def assignment : Reader Char (Text × Text) := fun text =>
  (word isColumnChar text).bind fun (column, rest) =>
    ((" = " : Text).isPrefixOf? rest).bind fun rest =>
      (quoted quoteChar rest).map fun (value, rest) => ((column, value), rest)

/-- The assignments of an `UPDATE` and its condition. -/
def assignments : Reader Char (List (Text × Text)) := listOf assignment ", " " WHERE "

/-- The table, the values and the condition of an `UPDATE`. -/
def readUpdate (text : Text) : Option (Text × TextMap × Text) :=
  (("UPDATE " : Text).isPrefixOf? text).bind fun rest =>
    (afterFirst " SET " assignments rest).map fun (table, entries, condition) =>
      (table, ofEntries compare entries, condition)

/-- The values of an `INSERT`, backwards from its last parenthesis. -/
def valuesBackwards : Reader Char (List Text) :=
  listOf (quoted quoteChar) (", " : Text).reverse (") VALUES (" : Text).reverse

/-- The columns in front of them. -/
def columnsBackwards : Reader Char (List Text) :=
  listOf (word isColumnChar) (", " : Text).reverse (" (" : Text).reverse

/-- The entries of columns and values that were read backwards. -/
def entriesOf (columns values : List Text) : List (Text × Text) :=
  (columns.map List.reverse).reverse.zip (values.map List.reverse).reverse

/-- The table and the values of an `INSERT`. -/
def readInsert (text : Text) : Option (Text × TextMap) :=
  ((")" : Text).isPrefixOf? text.reverse).bind fun rest =>
    (valuesBackwards rest).bind fun (values, rest) =>
      (columnsBackwards rest).bind fun (columns, rest) =>
        if columns.length = values.length then
          (("INSERT INTO " : Text).isPrefixOf? rest.reverse).map fun table =>
            (table, ofEntries compare (entriesOf columns values))
        else none

/-! ## Names and literals -/

theorem doubleQuotes_eq_doubled (content : Text) :
    doubleQuotes content = doubled quoteChar content := by
  induction content with
  | nil => rfl
  | cons c content ih =>
      rw [doubleQuotes, doubled_cons, ih]
      by_cases hc : c = quoteChar
      · subst hc
        rfl
      · have hne : ("'" : Text) ≠ [c] := fun h => hc (List.cons.inj h).1.symm
        rw [if_neg hc, if_neg hne]
        rfl

/-- A literal is a quoted text. -/
theorem IsLiteral.eq_quotedText {value : Text} (h : IsLiteral value) :
    ∃ content, value = quotedText quoteChar content := by
  obtain ⟨content, hvalue⟩ := h
  refine ⟨content, ?_⟩
  rw [← Option.some.inj hvalue, doubleQuotes_eq_doubled]
  rfl

/-- A literal is read, forwards and backwards, unless a quote follows. -/
theorem IsLiteral.read {value rest : Text} (h : IsLiteral value)
    (hrest : rest.head? ≠ some quoteChar) :
    quoted quoteChar (value ++ rest) = some (value, rest) ∧
      quoted quoteChar (value.reverse ++ rest) = some (value.reverse, rest) := by
  obtain ⟨content, rfl⟩ := h.eq_quotedText
  refine ⟨quoted_append hrest content, ?_⟩
  rw [reverse_quotedText]
  exact quoted_append hrest content.reverse

/-- So is a name, unless a character of a name follows. -/
theorem IsColumnName.read {name rest : Text} (h : IsColumnName name)
    (hrest : ∀ c ∈ rest.head?, isColumnChar c = false) :
    word isColumnChar (name ++ rest) = some (name, rest) ∧
      word isColumnChar (name.reverse ++ rest) = some (name.reverse, rest) := by
  refine ⟨word_append h hrest, word_append (fun c hc => ?_) hrest⟩
  exact h c (List.mem_reverse.mp hc)

theorem toList_ne_nil {values : TextMap} (h : values.isEmpty = false) : values.toList ≠ [] := by
  intro hnil
  rw [Std.ExtTreeMap.toList_eq_nil_iff] at hnil
  rw [hnil] at h
  cases h

/-- The entries of a row. -/
theorem IsRow.entry {values : TextMap} (h : IsRow values) {entry : Text × Text}
    (hmem : entry ∈ values.toList) : IsColumnName entry.1 ∧ IsLiteral entry.2 :=
  h entry.1 entry.2 (mem_toList_iff.mp hmem)

/-! ## `INSERT` -/

/-- The loops of `get` write a list that can be read backwards. -/
theorem reverse_joinWith (sep : Text) (texts : List Text) :
    (joinWith sep texts).reverse =
      sep.reverse.intercalate ((texts.map List.reverse).reverse.map id) := by
  rw [joinWith_eq_intercalate, reverse_intercalate, List.map_id]

/-- The values are read, backwards. -/
theorem valuesBackwards_written {texts : List Text} (hne : texts ≠ [])
    (hliteral : ∀ text ∈ texts, IsLiteral text) (rest : Text) :
    valuesBackwards ((joinWith ", " texts).reverse ++ ((") VALUES (" : Text).reverse ++ rest)) =
      some ((texts.map List.reverse).reverse, rest) := by
  rw [reverse_joinWith]
  refine listOf_written id (by simp) rfl (by simpa using hne) fun text htext later hlater => ?_
  obtain ⟨original, horiginal, rfl⟩ := List.mem_map.mp (List.mem_reverse.mp htext)
  refine ((hliteral original horiginal).read fun hquote => ?_).2
  -- a comma, backwards, or the parenthesis in front of the values
  obtain ⟨text, rfl | rfl⟩ := hlater
  · have hblank : ' ' = quoteChar := Option.some.inj hquote
    exact absurd hblank (by decide)
  · have hopening : '(' = quoteChar := Option.some.inj hquote
    exact absurd hopening (by decide)

/-- The columns are read, backwards. -/
theorem columnsBackwards_written {texts : List Text} (hne : texts ≠ [])
    (hname : ∀ text ∈ texts, IsColumnName text) (rest : Text) :
    columnsBackwards ((joinWith ", " texts).reverse ++ ((" (" : Text).reverse ++ rest)) =
      some ((texts.map List.reverse).reverse, rest) := by
  rw [reverse_joinWith]
  refine listOf_written id (by simp) rfl (by simpa using hne) fun text htext later hlater => ?_
  obtain ⟨original, horiginal, rfl⟩ := List.mem_map.mp (List.mem_reverse.mp htext)
  refine ((hname original horiginal).read fun c hc => ?_).2
  obtain ⟨text, rfl | rfl⟩ := hlater
  · obtain rfl : ' ' = c := Option.some.inj hc
    decide
  · obtain rfl : '(' = c := Option.some.inj hc
    decide

/-- Entries that were read backwards. -/
theorem entriesOf_reverse (entries : List (Text × Text)) :
    entriesOf ((entries.map Prod.fst).map List.reverse).reverse
      ((entries.map Prod.snd).map List.reverse).reverse = entries := by
  have htwice : ∀ texts : List Text,
      ((texts.map List.reverse).reverse.map List.reverse).reverse = texts := by
    intro texts
    rw [List.map_reverse, List.reverse_reverse, List.map_map, List.reverse_involutive.comp_self,
      List.map_id]
  rw [entriesOf, htwice, htwice, List.zip_map']
  exact List.map_id entries

/-- An `INSERT` is read back, whatever its table is. -/
theorem readInsert_get {values : TextMap} (hvalues : values.isEmpty = false) (hrow : IsRow values)
    (table : Text) : readInsert ((ofTable table).insert values).get = some (table, values) := by
  have hne := toList_ne_nil hvalues
  have hget : ((ofTable table).insert values).get = ((ofTable table).insert values).insertText :=
    if_pos hvalues
  have hlast : (")" : Text).reverse = (")" : Text) := rfl
  have hbackwards : ((ofTable table).insert values).get.reverse =
      (")" : Text) ++ ((joinWith ", " (values.toList.map Prod.snd)).reverse ++
        ((") VALUES (" : Text).reverse ++ ((joinWith ", " (values.toList.map Prod.fst)).reverse ++
          ((" (" : Text).reverse ++ (("INSERT INTO " : Text) ++ table).reverse)))) := by
    rw [hget]
    unfold insertText
    simp only [insert, ofTable, List.reverse_append, List.append_assoc, hlast]
  have hvaluesRead := valuesBackwards_written (by simpa using hne)
    (List.forall_mem_map.mpr fun entry hmem => (hrow.entry hmem).2)
    ((joinWith ", " (values.toList.map Prod.fst)).reverse ++
      ((" (" : Text).reverse ++ (("INSERT INTO " : Text) ++ table).reverse))
  have hcolumnsRead := columnsBackwards_written (by simpa using hne)
    (List.forall_mem_map.mpr fun entry hmem => (hrow.entry hmem).1)
    (("INSERT INTO " : Text) ++ table).reverse
  unfold readInsert
  rewrite [hbackwards, isPrefixOf?_append, Option.bind_some, hvaluesRead, Option.bind_some]
  dsimp only
  rewrite [hcolumnsRead, Option.bind_some]
  dsimp only
  rewrite [if_pos (by simp), List.reverse_reverse, isPrefixOf?_append, entriesOf_reverse,
    ofEntries_toList]
  rfl

/-! ## `UPDATE` -/

/-- The text of an assignment. -/
def assignmentText (entry : Text × Text) : Text := entry.1 ++ (" = " : Text) ++ entry.2

/-- An assignment is read. -/
theorem assignment_written {entry : Text × Text} (hname : IsColumnName entry.1)
    (hliteral : IsLiteral entry.2) {rest : Text} (hrest : rest.head? ≠ some quoteChar) :
    assignment (assignmentText entry ++ rest) = some (entry, rest) := by
  have hequals : ∀ c ∈ ((" = " : Text) ++ (entry.2 ++ rest)).head?, isColumnChar c = false := by
    intro c hc
    obtain rfl : ' ' = c := Option.some.inj hc
    decide
  rewrite [assignmentText, assignment, List.append_assoc, List.append_assoc,
    (hname.read hequals).1, Option.bind_some]
  dsimp only
  rewrite [isPrefixOf?_append, Option.bind_some, (hliteral.read hrest).1]
  rfl

/-- The assignments are read, up to the condition. -/
theorem assignments_written {entries : List (Text × Text)} (hne : entries ≠ [])
    (hentry : ∀ entry ∈ entries, IsColumnName entry.1 ∧ IsLiteral entry.2) (condition : Text) :
    assignments (joinWith ", " (entries.map assignmentText) ++ ((" WHERE " : Text) ++ condition)) =
      some (entries, condition) := by
  rw [joinWith_eq_intercalate]
  refine listOf_written assignmentText (by simp) rfl hne fun entry hmem rest hrest => ?_
  refine assignment_written (hentry entry hmem).1 (hentry entry hmem).2 fun hquote => ?_
  obtain ⟨later, rfl | rfl⟩ := hrest
  · have hcomma : ',' = quoteChar := Option.some.inj hquote
    exact absurd hcomma (by decide)
  · have hblank : ' ' = quoteChar := Option.some.inj hquote
    exact absurd hblank (by decide)

/-- Assignments do not begin with an equals sign. -/
theorem head?_assignments {entries : List (Text × Text)} (hne : entries ≠ [])
    (hentry : ∀ entry ∈ entries, IsColumnName entry.1) (rest : Text) :
    (joinWith ", " (entries.map assignmentText) ++ rest).head? ≠ some '=' := by
  cases entries with
  | nil => exact absurd rfl hne
  | cons entry entries =>
      have hname := hentry entry List.mem_cons_self
      have hfront : ∃ later, joinWith ", " ((entry :: entries).map assignmentText) ++ rest =
          entry.1 ++ ((" = " : Text) ++ later) := by
        rw [joinWith_eq_intercalate]
        cases entries with
        | nil =>
            refine ⟨entry.2 ++ rest, ?_⟩
            rw [List.map_singleton, List.intercalate_singleton, assignmentText, List.append_assoc,
              List.append_assoc]
        | cons next entries =>
            refine ⟨entry.2 ++ ((", " : Text) ++
              (", " : Text).intercalate ((next :: entries).map assignmentText) ++ rest), ?_⟩
            rw [List.map_cons, List.map_cons, List.intercalate_cons_cons, assignmentText]
            simp only [List.append_assoc]
      obtain ⟨later, hlater⟩ := hfront
      rw [hlater]
      cases hentry1 : entry.1 with
      | nil =>
          intro hequals
          have hblank : ' ' = '=' := Option.some.inj hequals
          exact absurd hblank (by decide)
      | cons c text =>
          intro hequals
          obtain rfl : c = '=' := Option.some.inj hequals
          exact absurd (hname '=' (hentry1 ▸ List.mem_cons_self)) (by decide)

/-- No assignments are read behind a `SET` that the table ends with. -/
theorem assignments_behind_set {text : Text} (hhead : text.head? ≠ some '=') :
    assignments (("SET" : Text) ++ ((" " : Text) ++ text)) = none := by
  have hitem : assignment (("SET" : Text) ++ ((" " : Text) ++ text)) = none := by
    have hword : word isColumnChar (("SET" : Text) ++ ((" " : Text) ++ text)) =
        some (("SET" : Text), (" " : Text) ++ text) := by
      refine word_append (List.all_eq_true.mp (by decide)) fun c hc => ?_
      obtain rfl : ' ' = c := Option.some.inj hc
      decide
    have hbehind : (" = " : Text).isPrefixOf? ((" " : Text) ++ text) = none := by
      by_contra hsome
      obtain ⟨rest, hrest⟩ := Option.ne_none_iff_exists'.mp hsome
      have hsame := List.isPrefixOf?_eq_some_iff_append_eq.mp hrest
      have htail : ("= " : Text) ++ rest = text := (List.cons.inj hsame).2
      rw [← htail] at hhead
      exact hhead rfl
    rw [assignment, hword, Option.bind_some]
    dsimp only
    rw [hbehind, Option.bind_none]
  rw [assignments, listOf, itemsUpTo, hitem, Option.bind_none]

/-- In no `UPDATE` of the table the text behind a ` SET ` in its name can be read as assignments. -/
def HasNoAssignments (table : Text) : Prop :=
  ∀ front later : Text, table = front ++ ((" SET " : Text) ++ later) →
    ∀ rest, assignments (later ++ ((" SET " : Text) ++ rest)) = none

/-- That is so if there is no ` SET ` in it. -/
theorem hasNoAssignments_of_no_set {table : Text} (h : ¬ (" SET " : Text) <:+: table) :
    HasNoAssignments table := by
  intro front later htable
  refine absurd ⟨front, later, ?_⟩ h
  rw [htable, List.append_assoc]

/-- A ` SET ` in front of the end of the table stands in the table, or the table ends with
` SET`. -/
theorem set_in_front {later text rest : Text} {c : Char}
    (h : (" SET " : Text) ++ rest = c :: later ++ ((" SET " : Text) ++ text)) :
    (∃ later', c :: later = (" SET " : Text) ++ later' ∧
        rest = later' ++ ((" SET " : Text) ++ text)) ∨
      rest = ("SET" : Text) ++ ((" " : Text) ++ text) := by
  have hchars : ' ' :: 'S' :: 'E' :: 'T' :: ' ' :: rest =
      c :: (later ++ ' ' :: 'S' :: 'E' :: 'T' :: ' ' :: text) := h
  match later with
  | [] => simp at hchars
  | [_] => simp at hchars
  | [_, _] => simp at hchars
  | [_, _, _] =>
      simp only [List.cons_append, List.nil_append, List.cons.injEq] at hchars
      exact Or.inr hchars.2.2.2.2.2
  | s :: e :: t :: blank :: later =>
      simp only [List.cons_append, List.cons.injEq] at hchars
      obtain ⟨rfl, rfl, rfl, rfl, rfl, hrest⟩ := hchars
      exact Or.inl ⟨later, rfl, hrest⟩

/-- An `UPDATE` with one condition is read back, if its table has no assignments of its own. -/
theorem readUpdate_get {values : TextMap} (hvalues : values.isEmpty = false) (hrow : IsRow values)
    {table : Text} (htable : HasNoAssignments table) (condition logicalOperator : Text) :
    readUpdate (((ofTable table).update values).where condition logicalOperator).get =
      some (table, values, condition) := by
  have hne := toList_ne_nil hvalues
  have hread := assignments_written hne (fun entry hmem => hrow.entry hmem) condition
  have hhead := head?_assignments hne (fun entry hmem => (hrow.entry hmem).1)
    ((" WHERE " : Text) ++ condition)
  have hsplit : afterFirst " SET " assignments (table ++ ((" SET " : Text) ++
      (joinWith ", " (values.toList.map assignmentText) ++ ((" WHERE " : Text) ++ condition)))) =
        some (table, values.toList, condition) := by
    refine afterFirst_append hread fun front c later hfront => ?_
    cases hbehind : (" SET " : Text).isPrefixOf? (c :: later ++ ((" SET " : Text) ++
        (joinWith ", " (values.toList.map assignmentText) ++
          ((" WHERE " : Text) ++ condition)))) with
    | none => rfl
    | some rest =>
        rcases set_in_front (List.isPrefixOf?_eq_some_iff_append_eq.mp hbehind) with
          ⟨later', hlater, hrest⟩ | hrest
        · rw [Option.bind_some, hrest]
          exact htable front later' (by rw [hfront, hlater]) _
        · rw [Option.bind_some, hrest, assignments_behind_set hhead]
  have hget : (((ofTable table).update values).where condition logicalOperator).get =
      ("UPDATE " : Text) ++ (table ++ ((" SET " : Text) ++
        (joinWith ", " (values.toList.map assignmentText) ++
          ((" WHERE " : Text) ++ condition)))) := by
    rewrite [get_update_where table hvalues, List.append_assoc, List.append_assoc,
      List.append_assoc]
    rfl
  unfold readUpdate
  rewrite [hget, isPrefixOf?_append, Option.bind_some, hsplit, Option.map_some]
  dsimp only
  rw [ofEntries_toList]

/-- An `INSERT` of a row into any table is read back, and an `UPDATE` with any condition of a table
without assignments of its own. -/
theorem read_get {values : TextMap} (hvalues : values.isEmpty = false) (hrow : IsRow values) :
    (∀ table, readInsert ((ofTable table).insert values).get = some (table, values)) ∧
      ∀ table, HasNoAssignments table → ∀ condition logicalOperator,
        readUpdate (((ofTable table).update values).where condition logicalOperator).get =
          some (table, values, condition) := by
  refine ⟨?_, ?_⟩
  · exact readInsert_get hvalues hrow
  · intro table htable condition logicalOperator
    exact readUpdate_get hvalues hrow htable condition logicalOperator

/-- One more column of a row. -/
theorem IsRow.insert {values : TextMap} (h : IsRow values) {column value : Text}
    (hname : IsColumnName column) (hliteral : IsLiteral value) :
    IsRow (values.insert column value) := by
  intro column' value' hfound
  rw [getElem?_insert] at hfound
  split at hfound
  · next hcolumn =>
    obtain rfl := Option.some.inj hfound
    exact ⟨hcolumn ▸ hname, hliteral⟩
  · exact h column' value' hfound

theorem isRow_empty : IsRow ∅ := by
  intro column value hfound
  rw [Std.ExtTreeMap.getElem?_empty] at hfound
  cases hfound

/-- A row whose literals have separators and quotes in them. -/
def trickyRow : TextMap :=
  ((∅ : TextMap).insert "note" "'a, b) VALUES (''c'' WHERE d = ''e'''").insert "name_2" "''"

theorem isRow_trickyRow : IsRow trickyRow := by
  refine IsRow.insert (IsRow.insert isRow_empty ?_ ?_) ?_ ?_
  · exact List.all_eq_true.mp (by decide)
  · exact ⟨"a, b) VALUES ('c' WHERE d = 'e'", by decide⟩
  · exact List.all_eq_true.mp (by decide)
  · exact ⟨[], rfl⟩

/-- It is read back. -/
theorem read_trickyRow :
    readInsert ((ofTable "notes").insert trickyRow).get =
        some (("notes" : Text), trickyRow) ∧
      readUpdate (((ofTable "notes").update trickyRow).where "id = 7 SET" "AND").get =
        some (("notes" : Text), trickyRow, ("id = 7 SET" : Text)) := by
  have h := read_get (by decide : trickyRow.isEmpty = false) isRow_trickyRow
  refine ⟨h.1 "notes", h.2 "notes" (hasNoAssignments_of_no_set ?_) _ _⟩
  decide

/-- No parser reads every `UPDATE` back: a table may begin like one. -/
theorem updates_not_told_apart :
    ¬ ∃ read : Text → Option (Text × TextMap × Text),
      ∀ (table : Text) (values : TextMap), values.isEmpty = false → IsRow values →
        ∀ condition, read (((ofTable table).update values).where condition "AND").get =
          some (table, values, condition) := by
  intro hread
  obtain ⟨read, hread⟩ := hread
  have hrow : ∀ column content : Text, IsColumnName column →
      IsRow ((∅ : TextMap).insert column (("'" : Text) ++ doubleQuotes content ++ ("'" : Text))) :=
    fun column content hname => isRow_empty.insert hname ⟨content, rfl⟩
  have hshort := hread "t" ((∅ : TextMap).insert "b" "'w'") (by decide)
    (hrow "b" "w" (List.all_eq_true.mp (by decide))) "x SET a = 'v' WHERE c"
  have hlong := hread "t SET b = 'w' WHERE x" ((∅ : TextMap).insert "a" "'v'") (by decide)
    (hrow "a" "v" (List.all_eq_true.mp (by decide))) "c"
  have hsame : (((ofTable "t").update ((∅ : TextMap).insert "b" "'w'")).where
      "x SET a = 'v' WHERE c" "AND").get =
        (((ofTable "t SET b = 'w' WHERE x").update ((∅ : TextMap).insert "a" "'v'")).where
          "c" "AND").get := by
    decide
  rw [hsame, hlong] at hshort
  have htable := congrArg Prod.fst (Option.some.inj hshort)
  exact absurd htable (by decide)

end SQLQueryBuilder

end Brazier
