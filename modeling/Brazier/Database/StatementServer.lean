import Brazier.Database.Models.ModelObject
import Brazier.Database.StatementText

/-!
# The statements as the server reads them

A server takes the text of a statement apart before it looks at any table. `readStatement` does so
for the statements that the models send: names are words, a literal stands between quotes, and a
condition compares one column with a literal or a number. `ReadsLiterals` is what the code relies
on of `PQescapeLiteral`: the server finds the text in the literal again. No name is written between
quotation marks, so the server takes it in lower case, and no more than 63 bytes of it
(`foldName`). A `PlainName` is one that stays as it is.
-/

namespace Brazier

open ProofLib ProofLib.Reading SQLQueryBuilder

/-- A statement about the rows of one table. -/
inductive Statement where
  | insert (table : Text) (values : TextMap) (returning : Text)
  | update (table : Text) (values : TextMap) (column value : Text)
  | delete (table column value : Text)
  | select (table column value : Text) (limit : Nat)

namespace Statement

/-! ## Reading -/

/-- What a literal stands for. In one with an `E` in front backslashes are doubled too. -/
def literal : Reader Char Text := fun text =>
  match (" E'" : Text).isPrefixOf? text with
  | some rest => unescaped quoteChar (some '\\') rest
  | none => (("'" : Text).isPrefixOf? text).bind (unescaped quoteChar none)

/-- A number, as it is written. -/
def number : Reader Char Text := fun text =>
  (word (fun c => c.isDigit || c = '-') text).bind fun (digits, rest) =>
    if digits = [] then none else some (digits, rest)

/-- The name of a table or of a column. -/
def name : Reader Char Text := word isColumnChar

/-- A column, an equals sign and a literal. -/
def assigned : Reader Char (Text × Text) := fun text =>
  (name text).bind fun (column, rest) =>
    ((" = " : Text).isPrefixOf? rest).bind fun rest =>
      (literal rest).map fun (value, rest) => ((column, value), rest)

/-- A column, an equals sign, and a literal or a number. -/
def condition : Reader Char (Text × Text) := fun text =>
  (name text).bind fun (column, rest) =>
    ((" = " : Text).isPrefixOf? rest).bind fun rest =>
      ((literal rest).or (number rest)).map fun (value, rest) => ((column, value), rest)

/-- The reading has come to the end of the text. -/
def ended {α : Type} (read : α × Text) : Option α := if read.2 = [] then some read.1 else none

/-- `INSERT INTO table (columns) VALUES (literals) RETURNING column`. -/
def readInsert (text : Text) : Option Statement :=
  (("INSERT INTO " : Text).isPrefixOf? text).bind fun rest =>
    (name rest).bind fun (table, rest) =>
      ((" (" : Text).isPrefixOf? rest).bind fun rest =>
        (listOf name ", " ") VALUES (" rest).bind fun (columns, rest) =>
          (listOf literal ", " ") RETURNING " rest).bind fun (values, rest) =>
            (name rest).bind fun (returning, rest) =>
              if rest = [] ∧ columns.length = values.length then
                some (.insert table (ofEntries compare (columns.zip values)) returning)
              else none

/-- `UPDATE table SET assignments WHERE condition`. -/
def readUpdate (text : Text) : Option Statement :=
  (("UPDATE " : Text).isPrefixOf? text).bind fun rest =>
    (name rest).bind fun (table, rest) =>
      ((" SET " : Text).isPrefixOf? rest).bind fun rest =>
        (listOf assigned ", " " WHERE " rest).bind fun (entries, rest) =>
          ((condition rest).bind ended).map fun (column, value) =>
            .update table (ofEntries compare entries) column value

/-- `DELETE FROM table WHERE condition`. -/
def readDelete (text : Text) : Option Statement :=
  (("DELETE FROM " : Text).isPrefixOf? text).bind fun rest =>
    (name rest).bind fun (table, rest) =>
      ((" WHERE " : Text).isPrefixOf? rest).bind fun rest =>
        ((condition rest).bind ended).map fun (column, value) => .delete table column value

/-- `SELECT * FROM table WHERE condition LIMIT number`. -/
def readSelect (text : Text) : Option Statement :=
  (("SELECT * FROM " : Text).isPrefixOf? text).bind fun rest =>
    (name rest).bind fun (table, rest) =>
      ((" WHERE " : Text).isPrefixOf? rest).bind fun rest =>
        (condition rest).bind fun ((column, value), rest) =>
          ((" LIMIT " : Text).isPrefixOf? rest).bind fun rest =>
            ((number rest).bind ended).map fun limit =>
              .select table column value (Nat.ofDigitChars 10 limit 0)

/-- The statement that a text is. -/
def read (text : Text) : Option Statement :=
  (readInsert text).or ((readUpdate text).or ((readDelete text).or (readSelect text)))

/-! ## Literals -/

/-- What the server finds in a literal is the text that was escaped. -/
def ReadsLiterals (pqEscapeLiteral : Text → Option Text) : Prop :=
  ∀ input escaped, pqEscapeLiteral input = some escaped → ∀ rest : Text,
    rest.head? ≠ some quoteChar → literal (escaped ++ rest) = some (input, rest)

/-- `PQescapeLiteral` on well-encoded text: a text with a backslash gets an `E` in front. -/
def libpqLiteral (input : Text) : Option Text :=
  if '\\' ∈ input then
    some ((" E'" : Text) ++ escapedText quoteChar (some '\\') input ++ ("'" : Text))
  else some (("'" : Text) ++ escapedText quoteChar none input ++ ("'" : Text))

theorem libpqLiteral_reads : ReadsLiterals libpqLiteral := by
  intro input escaped hescaped rest hrest
  unfold libpqLiteral at hescaped
  split at hescaped
  · cases hescaped
    rw [literal, List.append_assoc, List.append_assoc, isPrefixOf?_append]
    exact unescaped_escapedText hrest (some '\\') input
  · cases hescaped
    rw [literal, List.append_assoc, List.append_assoc]
    have hnone : (" E'" : Text).isPrefixOf? (("'" : Text) ++
        (escapedText quoteChar none input ++ (("'" : Text) ++ rest))) = none := rfl
    rw [hnone]
    exact unescaped_escapedText hrest none input

/-- The text that the server finds for a value. -/
def storedText (pqEscapeLiteral : Text → Option Text) (value : Text) : Text :=
  match pqEscapeLiteral value with
  | none => "ERROR: FAILED TO ESCAPE STRING"
  | some _ => value

/-- The values that the server finds. -/
def storedValues (pqEscapeLiteral : Text → Option Text) (values : TextMap) : TextMap :=
  values.map fun _ value => storedText pqEscapeLiteral value

variable {pqEscapeLiteral : Text → Option Text}

/-- Every value is written as a literal. -/
theorem literal_escapeString (h : ReadsLiterals pqEscapeLiteral) (value : Text) {rest : Text}
    (hrest : rest.head? ≠ some quoteChar) :
    literal (SQLString.escapeString pqEscapeLiteral value ++ rest) =
      some (storedText pqEscapeLiteral value, rest) := by
  unfold SQLString.escapeString storedText
  cases hescaped : pqEscapeLiteral value with
  | some escaped => exact h value escaped hescaped rest hrest
  | none =>
      have hfixed : libpqLiteral "ERROR: FAILED TO ESCAPE STRING" =
          some ("'ERROR: FAILED TO ESCAPE STRING'" : Text) := by
        decide +kernel
      exact libpqLiteral_reads _ _ hfixed rest hrest

/-! ## Lists of names and literals -/

/-- The entries of escaped values. -/
theorem toList_escapeValues (values : TextMap) :
    (Model.escapeValues pqEscapeLiteral values).toList =
      values.toList.map fun entry => (entry.1, SQLString.escapeString pqEscapeLiteral entry.2) :=
  Std.ExtTreeMap.toList_map

/-- Names are read up to what ends them. -/
theorem names_written {names : List Text} (hne : names ≠ [])
    (hnames : ∀ text ∈ names, IsColumnName text) (rest : Text) :
    listOf name ", " ") VALUES (" (joinWith ", " names ++ ((") VALUES (" : Text) ++ rest)) =
      some (names, rest) := by
  have hread : listOf name ", " ") VALUES (" ((", " : Text).intercalate (names.map id) ++
      ((") VALUES (" : Text) ++ rest)) = some (names, rest) := by
    refine listOf_written id (by simp) rfl hne fun text htext later hlater => ?_
    refine ((hnames text htext).read fun c hc => ?_).1
    obtain ⟨_, rfl | rfl⟩ := hlater
    · obtain rfl : ',' = c := Option.some.inj hc
      decide
    · obtain rfl : ')' = c := Option.some.inj hc
      decide
  rwa [List.map_id, ← joinWith_eq_intercalate] at hread

/-- So are literals. -/
theorem literals_written (h : ReadsLiterals pqEscapeLiteral) (values : List Text)
    (hne : values ≠ []) (rest : Text) :
    listOf literal ", " ") RETURNING "
        (joinWith ", " (values.map (SQLString.escapeString pqEscapeLiteral)) ++
          ((") RETURNING " : Text) ++ rest)) =
      some (values.map (storedText pqEscapeLiteral), rest) := by
  rw [joinWith_eq_intercalate]
  refine listOf_read _ _ (by simp) rfl hne fun value _ later hlater => ?_
  refine literal_escapeString h value fun hquote => ?_
  obtain ⟨_, rfl | rfl⟩ := hlater
  · exact absurd (Option.some.inj hquote : ',' = quoteChar) (by decide)
  · exact absurd (Option.some.inj hquote : ')' = quoteChar) (by decide)

/-- And assignments. -/
theorem assigned_written (h : ReadsLiterals pqEscapeLiteral) {entries : List (Text × Text)}
    (hne : entries ≠ []) (hnames : ∀ entry ∈ entries, IsColumnName entry.1) (rest : Text) :
    listOf assigned ", " " WHERE "
        (joinWith ", " (entries.map fun entry => entry.1 ++ (" = " : Text) ++
          SQLString.escapeString pqEscapeLiteral entry.2) ++ ((" WHERE " : Text) ++ rest)) =
      some (entries.map fun entry => (entry.1, storedText pqEscapeLiteral entry.2), rest) := by
  rw [joinWith_eq_intercalate]
  refine listOf_read _ _ (by simp) rfl hne fun entry hentry later hlater => ?_
  have hliteral : literal (SQLString.escapeString pqEscapeLiteral entry.2 ++ later) =
      some (storedText pqEscapeLiteral entry.2, later) := by
    refine literal_escapeString h entry.2 fun hquote => ?_
    obtain ⟨_, rfl | rfl⟩ := hlater
    · exact absurd (Option.some.inj hquote : ',' = quoteChar) (by decide)
    · exact absurd (Option.some.inj hquote : ' ' = quoteChar) (by decide)
  have hname : name (entry.1 ++ ((" = " : Text) ++
      (SQLString.escapeString pqEscapeLiteral entry.2 ++ later))) =
        some (entry.1, (" = " : Text) ++
          (SQLString.escapeString pqEscapeLiteral entry.2 ++ later)) := by
    refine ((hnames entry hentry).read fun c hc => ?_).1
    obtain rfl : ' ' = c := Option.some.inj hc
    decide
  rewrite [List.append_assoc, List.append_assoc, assigned, hname, Option.bind_some]
  dsimp only
  rewrite [isPrefixOf?_append, Option.bind_some, hliteral]
  rfl

/-! ## Statements -/

/-- A name in front of a blank, or at the end. -/
theorem name_written {text rest : Text} (h : IsColumnName text)
    (hrest : ∀ c ∈ rest.head?, c = ' ') : name (text ++ rest) = some (text, rest) := by
  refine (h.read fun c hc => ?_).1
  rw [hrest c hc]
  decide

/-- The columns of a row with their literals. -/
theorem ofEntries_stored (values : TextMap) :
    ofEntries compare (values.toList.map fun entry =>
      (entry.1, storedText pqEscapeLiteral entry.2)) = storedValues pqEscapeLiteral values := by
  have hentries : (storedValues pqEscapeLiteral values).toList =
      values.toList.map fun entry => (entry.1, storedText pqEscapeLiteral entry.2) :=
    Std.ExtTreeMap.toList_map
  rw [← hentries, ofEntries_toList]

/-- Columns with names. -/
def Named (values : TextMap) : Prop :=
  ∀ column : Text, values[column]? ≠ none → IsColumnName column

theorem Named.entry {values : TextMap} (h : Named values) :
    ∀ entry ∈ values.toList, IsColumnName entry.1 := by
  intro entry hentry
  refine h entry.1 ?_
  rw [mem_toList_iff.mp hentry]
  exact Option.some_ne_none _

/-- An `INSERT` is read as it was meant. -/
theorem read_insert (h : ReadsLiterals pqEscapeLiteral) {values : TextMap}
    (hvalues : values.isEmpty = false) (hnames : Named values) {table returning : Text}
    (htable : IsColumnName table) (hreturning : IsColumnName returning) :
    read (((ofTable table).insert (Model.escapeValues pqEscapeLiteral values)).get ++
      (" RETURNING " : Text) ++ returning) =
        some (.insert table (storedValues pqEscapeLiteral values) returning) := by
  have hne := toList_ne_nil hvalues
  have hget : ((ofTable table).insert (Model.escapeValues pqEscapeLiteral values)).get =
      ((ofTable table).insert (Model.escapeValues pqEscapeLiteral values)).insertText :=
    if_pos ((Model.isEmpty_escapeValues pqEscapeLiteral values).trans hvalues)
  have hclosing : ∀ rest : Text, (")" : Text) ++ ((" RETURNING " : Text) ++ rest) =
      (") RETURNING " : Text) ++ rest := fun _ => rfl
  have htext : ((ofTable table).insert (Model.escapeValues pqEscapeLiteral values)).get ++
      (" RETURNING " : Text) ++ returning =
      ("INSERT INTO " : Text) ++ (table ++ ((" (" : Text) ++
        (joinWith ", " (values.toList.map Prod.fst) ++ ((") VALUES (" : Text) ++
          (joinWith ", " ((values.toList.map Prod.snd).map
            (SQLString.escapeString pqEscapeLiteral)) ++
              ((") RETURNING " : Text) ++ returning)))))) := by
    rw [hget]
    unfold insertText
    simp only [SQLQueryBuilder.insert, ofTable, toList_escapeValues, List.map_map,
      List.append_assoc, hclosing]
    rfl
  have hcolumns := names_written (by simpa using hne) (List.forall_mem_map.mpr hnames.entry)
    (joinWith ", " ((values.toList.map Prod.snd).map
      (SQLString.escapeString pqEscapeLiteral)) ++ ((") RETURNING " : Text) ++ returning))
  have hliterals := literals_written h (values.toList.map Prod.snd) (by simpa using hne) returning
  have hlast : name returning = some (returning, []) := by
    have hread : name (returning ++ []) = _ := name_written hreturning (by simp)
    rwa [List.append_nil] at hread
  have hread : readInsert (((ofTable table).insert
      (Model.escapeValues pqEscapeLiteral values)).get ++ (" RETURNING " : Text) ++ returning) =
        some (.insert table (storedValues pqEscapeLiteral values) returning) := by
    unfold readInsert
    rewrite [htext, isPrefixOf?_append, Option.bind_some, name_written htable (by simp),
      Option.bind_some]
    dsimp only
    rewrite [isPrefixOf?_append, Option.bind_some, hcolumns, Option.bind_some]
    dsimp only
    rewrite [hliterals, Option.bind_some]
    dsimp only
    rewrite [hlast, Option.bind_some]
    dsimp only
    rewrite [if_pos (by simp), List.map_map, List.zip_map', ← ofEntries_stored]
    rfl
  rw [read, hread]
  rfl

/-- A condition with a literal. -/
theorem condition_literal (h : ReadsLiterals pqEscapeLiteral) {column : Text}
    (hcolumn : IsColumnName column) (value : Text) {rest : Text}
    (hrest : rest.head? ≠ some quoteChar) :
    condition (column ++ ((" = " : Text) ++
      (SQLString.escapeString pqEscapeLiteral value ++ rest))) =
        some ((column, storedText pqEscapeLiteral value), rest) := by
  have hblank : ∀ text : Text, ∀ c ∈ ((" = " : Text) ++ text).head?, c = ' ' := by
    intro text c hc
    exact (Option.some.inj hc).symm
  rewrite [condition, name_written hcolumn (hblank _), Option.bind_some]
  dsimp only
  rewrite [isPrefixOf?_append, Option.bind_some, literal_escapeString h value hrest]
  rfl

theorem isNumberChar_of_mem_intText {z : Int} {c : Char} (h : c ∈ intText z) :
    (c.isDigit || c = '-') = true := by
  cases z with
  | ofNat n => rw [isDigit_of_mem_natText h, Bool.true_or]
  | negSucc n =>
      obtain hc | hc := List.mem_append.mp h
      · obtain rfl := List.mem_singleton.mp hc
        rfl
      · rw [isDigit_of_mem_natText hc, Bool.true_or]

theorem intText_ne_nil (z : Int) : intText z ≠ [] := by
  cases z with
  | ofNat n => exact natText_ne_nil n
  | negSucc n => exact List.cons_ne_nil _ _

/-- A number is read up to a blank, or to the end. -/
theorem number_intText (z : Int) {rest : Text} (hrest : ∀ c ∈ rest.head?, c = ' ') :
    number (intText z ++ rest) = some (intText z, rest) := by
  have hword : word (fun c => c.isDigit || c = '-') (intText z ++ rest) =
      some (intText z, rest) := by
    refine word_append (fun c hc => isNumberChar_of_mem_intText hc) fun c hc => ?_
    rw [hrest c hc]
    rfl
  rw [number, hword, Option.bind_some]
  exact if_neg (intText_ne_nil z)

/-- A number is no literal. -/
theorem literal_intText (z : Int) (rest : Text) : literal (intText z ++ rest) = none := by
  obtain ⟨c, text, htext⟩ := List.exists_cons_of_ne_nil (intText_ne_nil z)
  have hc : (c.isDigit || c = '-') = true :=
    isNumberChar_of_mem_intText (htext ▸ List.mem_cons_self)
  have hblank : c ≠ ' ' := by
    rintro rfl
    cases hc
  have hquote : c ≠ quoteChar := by
    rintro rfl
    exact absurd hc (by decide)
  have hescape : (" E'" : Text).isPrefixOf? (c :: (text ++ rest)) = none := by
    show List.isPrefixOf? (' ' :: 'E' :: quoteChar :: []) (c :: (text ++ rest)) = none
    rw [List.isPrefixOf?, if_neg (by simpa using hblank.symm)]
  have hplain : ("'" : Text).isPrefixOf? (c :: (text ++ rest)) = none := by
    show List.isPrefixOf? (quoteChar :: []) (c :: (text ++ rest)) = none
    rw [List.isPrefixOf?, if_neg (by simpa using hquote.symm)]
  rw [htext, List.cons_append, literal, hescape]
  dsimp only
  rw [hplain, Option.bind_none]

/-- A condition with a number. -/
theorem condition_number {column : Text} (hcolumn : IsColumnName column) (z : Int) {rest : Text}
    (hrest : ∀ c ∈ rest.head?, c = ' ') :
    condition (column ++ ((" = " : Text) ++ (intText z ++ rest))) =
      some ((column, intText z), rest) := by
  have hblank : ∀ text : Text, ∀ c ∈ ((" = " : Text) ++ text).head?, c = ' ' := by
    intro text c hc
    exact (Option.some.inj hc).symm
  rewrite [condition, name_written hcolumn (hblank _), Option.bind_some]
  dsimp only
  rewrite [isPrefixOf?_append, Option.bind_some, literal_intText, number_intText z hrest]
  rfl

/-- How an id is written in a condition: as a number, or escaped. -/
inductive Written (pqEscapeLiteral : Text → Option Text) : Text → Text → Prop where
  | number (z : Int) : Written pqEscapeLiteral (intText z) (intText z)
  | literal (value : Text) : Written pqEscapeLiteral
      (SQLString.escapeString pqEscapeLiteral value) (storedText pqEscapeLiteral value)

/-- A condition at the end of a statement. -/
theorem condition_written (h : ReadsLiterals pqEscapeLiteral) {column text value : Text}
    (hcolumn : IsColumnName column) (hwritten : Written pqEscapeLiteral text value) :
    (condition (column ++ ((" = " : Text) ++ text))).bind ended = some (column, value) := by
  have hread : condition (column ++ ((" = " : Text) ++ (text ++ []))) =
      some ((column, value), []) := by
    cases hwritten with
    | number z => exact condition_number hcolumn z (by simp)
    | literal value => exact condition_literal h hcolumn value (by simp)
  rw [List.append_nil] at hread
  rw [hread]
  rfl

/-- An `UPDATE` is read as it was meant. -/
theorem read_update (h : ReadsLiterals pqEscapeLiteral) {values : TextMap}
    (hvalues : values.isEmpty = false) (hnames : Named values) {table column text value : Text}
    (htable : IsColumnName table) (hcolumn : IsColumnName column)
    (hwritten : Written pqEscapeLiteral text value) :
    read (((ofTable table).update (Model.escapeValues pqEscapeLiteral values)).where
      (column ++ (" = " : Text) ++ text) "AND").get =
        some (.update table (storedValues pqEscapeLiteral values) column value) := by
  have hne := toList_ne_nil hvalues
  have htext : (((ofTable table).update (Model.escapeValues pqEscapeLiteral values)).where
      (column ++ (" = " : Text) ++ text) "AND").get =
      ("UPDATE " : Text) ++ (table ++ ((" SET " : Text) ++
        (joinWith ", " (values.toList.map fun entry => entry.1 ++ (" = " : Text) ++
          SQLString.escapeString pqEscapeLiteral entry.2) ++ ((" WHERE " : Text) ++
            (column ++ ((" = " : Text) ++ text)))))) := by
    rewrite [get_update_where table
      ((Model.isEmpty_escapeValues pqEscapeLiteral values).trans hvalues), toList_escapeValues,
      List.map_map]
    simp only [List.append_assoc]
    rfl
  have hassigned := assigned_written h hne hnames.entry (column ++ ((" = " : Text) ++ text))
  have hread : readUpdate (((ofTable table).update
      (Model.escapeValues pqEscapeLiteral values)).where
        (column ++ (" = " : Text) ++ text) "AND").get =
        some (.update table (storedValues pqEscapeLiteral values) column value) := by
    unfold readUpdate
    rewrite [htext, isPrefixOf?_append, Option.bind_some, name_written htable (by simp),
      Option.bind_some]
    dsimp only
    rewrite [isPrefixOf?_append, Option.bind_some, hassigned, Option.bind_some]
    dsimp only
    rewrite [condition_written h hcolumn hwritten, ofEntries_stored]
    rfl
  have hother : readInsert (((ofTable table).update
      (Model.escapeValues pqEscapeLiteral values)).where
        (column ++ (" = " : Text) ++ text) "AND").get = none := by
    rewrite [htext]
    rfl
  rw [read, hother, hread]
  rfl

/-- A `DELETE` is read as it was meant. -/
theorem read_delete (h : ReadsLiterals pqEscapeLiteral) {table column text value : Text}
    (htable : IsColumnName table) (hcolumn : IsColumnName column)
    (hwritten : Written pqEscapeLiteral text value) :
    read (((ofTable table).delete).where (column ++ (" = " : Text) ++ text) "AND").get =
      some (.delete table column value) := by
  have htext : (((ofTable table).delete).where (column ++ (" = " : Text) ++ text) "AND").get =
      ("DELETE FROM " : Text) ++ (table ++ ((" WHERE " : Text) ++
        (column ++ ((" = " : Text) ++ text)))) := by
    rewrite [get_delete_where]
    simp only [List.append_assoc]
  have hread : readDelete (((ofTable table).delete).where
      (column ++ (" = " : Text) ++ text) "AND").get = some (.delete table column value) := by
    unfold readDelete
    rewrite [htext, isPrefixOf?_append, Option.bind_some, name_written htable (by simp),
      Option.bind_some]
    dsimp only
    rewrite [isPrefixOf?_append, Option.bind_some, condition_written h hcolumn hwritten]
    rfl
  have hothers : readInsert (((ofTable table).delete).where
        (column ++ (" = " : Text) ++ text) "AND").get = none ∧
      readUpdate (((ofTable table).delete).where
        (column ++ (" = " : Text) ++ text) "AND").get = none := by
    rewrite [htext]
    exact ⟨rfl, rfl⟩
  rw [read, hothers.1, hothers.2, hread]
  rfl

/-- A `SELECT` with one condition and a limit. -/
theorem get_select_limit (table condition : Text) (limit : Int) :
    (((ofTable table).where condition "AND").setLimit limit).get =
      ("SELECT * FROM " : Text) ++ (table ++ ((" WHERE " : Text) ++
        (condition ++ ((" LIMIT " : Text) ++ intText limit)))) := by
  have hwhere := where_of_first (b := ofTable table) rfl condition "AND"
  rewrite [hwhere, get_of_select rfl rfl rfl]
  unfold selectText groupByText orderByText
  rewrite [whereText_single rfl]
  simp [ofTable, setLimit, List.append_assoc]

/-- A `SELECT` of the row with a number is read as it was meant. -/
theorem read_select {table column : Text} (htable : IsColumnName table)
    (hcolumn : IsColumnName column) (z : Int) :
    read (((ofTable table).where (column ++ (" = " : Text) ++ intText z) "AND").setLimit 1).get =
      some (.select table column (intText z) 1) := by
  have htext : (((ofTable table).where
      (column ++ (" = " : Text) ++ intText z) "AND").setLimit 1).get =
      ("SELECT * FROM " : Text) ++ (table ++ ((" WHERE " : Text) ++
        (column ++ ((" = " : Text) ++ (intText z ++ ((" LIMIT " : Text) ++ intText 1)))))) := by
    rewrite [get_select_limit]
    simp only [List.append_assoc]
  have hlimit : (number (intText 1)).bind ended = some (intText 1) := by
    decide
  have hblank : ∀ c ∈ ((" LIMIT " : Text) ++ intText 1).head?, c = ' ' := by
    intro c hc
    exact (Option.some.inj hc).symm
  have hread : readSelect (((ofTable table).where
      (column ++ (" = " : Text) ++ intText z) "AND").setLimit 1).get =
      some (.select table column (intText z) 1) := by
    unfold readSelect
    rewrite [htext, isPrefixOf?_append, Option.bind_some, name_written htable (by simp),
      Option.bind_some]
    dsimp only
    rewrite [isPrefixOf?_append, Option.bind_some, condition_number hcolumn z hblank,
      Option.bind_some]
    dsimp only
    rewrite [isPrefixOf?_append, Option.bind_some, hlimit]
    rfl
  have hothers : readInsert (((ofTable table).where
        (column ++ (" = " : Text) ++ intText z) "AND").setLimit 1).get = none ∧
      readUpdate (((ofTable table).where
        (column ++ (" = " : Text) ++ intText z) "AND").setLimit 1).get = none ∧
      readDelete (((ofTable table).where
        (column ++ (" = " : Text) ++ intText z) "AND").setLimit 1).get = none := by
    rewrite [htext]
    exact ⟨rfl, rfl, rfl⟩
  rw [read, hothers.1, hothers.2.1, hothers.2.2, hread]
  rfl

/-! ## Names -/

/-- A name as the server takes it. -/
def foldName (name : Text) : Text := clip 63 (name.map Char.toLower)

/-- Values under the names that the server takes. Two of these must not be the same. -/
def foldValues (values : TextMap) : Option TextMap :=
  let entries := values.toList.map fun entry => (foldName entry.1, entry.2)
  if (entries.map Prod.fst).Nodup then some (ofEntries compare entries) else none

/-- A statement with the names that the server takes. -/
def folded : Statement → Option Statement
  | .insert table values returning =>
      (foldValues values).map fun values =>
        .insert (foldName table) values (foldName returning)
  | .update table values column value =>
      (foldValues values).map fun values =>
        .update (foldName table) values (foldName column) value
  | .delete table column value => some (.delete (foldName table) (foldName column) value)
  | .select table column value limit =>
      some (.select (foldName table) (foldName column) value limit)

/-- The statement that the server takes a text for. -/
def taken (text : Text) : Option Statement := (read text).bind folded

/-- A name that the server takes as it is. -/
structure PlainName (name : Text) : Prop where
  chars : IsColumnName name
  folded : foldName name = name

instance : DecidablePred PlainName := fun name =>
  decidable_of_iff (IsColumnName name ∧ foldName name = name)
    ⟨fun h => ⟨h.1, h.2⟩, fun h => ⟨h.chars, h.folded⟩⟩

/-- Columns with plain names. -/
def PlainNames (values : TextMap) : Prop :=
  ∀ column : Text, values[column]? ≠ none → PlainName column

theorem PlainNames.named {values : TextMap} (h : PlainNames values) : Named values :=
  fun column hcolumn => (h column hcolumn).chars

theorem foldValues_eq {values : TextMap} (h : PlainNames values) :
    foldValues (storedValues pqEscapeLiteral values) =
      some (storedValues pqEscapeLiteral values) := by
  have hsame : ((storedValues pqEscapeLiteral values).toList.map fun entry =>
      (foldName entry.1, entry.2)) = (storedValues pqEscapeLiteral values).toList := by
    refine (List.map_congr_left fun entry hentry => ?_).trans (List.map_id _)
    have hstored : (storedValues pqEscapeLiteral values)[entry.1]? = some entry.2 :=
      mem_toList_iff.mp hentry
    have hcolumn : values[entry.1]? ≠ none := by
      intro hnone
      rw [storedValues, Std.ExtTreeMap.getElem?_map, hnone] at hstored
      cases hstored
    exact Prod.ext (h entry.1 hcolumn).folded rfl
  unfold foldValues
  dsimp only
  rw [hsame, ofEntries_toList, Std.ExtTreeMap.map_fst_toList_eq_keys,
    if_pos Std.ExtTreeMap.nodup_keys]

theorem taken_insert (h : ReadsLiterals pqEscapeLiteral) {values : TextMap}
    (hvalues : values.isEmpty = false) (hnames : PlainNames values) {table returning : Text}
    (htable : PlainName table) (hreturning : PlainName returning) :
    taken (((ofTable table).insert (Model.escapeValues pqEscapeLiteral values)).get ++
      (" RETURNING " : Text) ++ returning) =
        some (.insert table (storedValues pqEscapeLiteral values) returning) := by
  rw [taken, read_insert h hvalues hnames.named htable.chars hreturning.chars, Option.bind_some,
    folded, foldValues_eq hnames, Option.map_some, htable.folded, hreturning.folded]

theorem taken_update (h : ReadsLiterals pqEscapeLiteral) {values : TextMap}
    (hvalues : values.isEmpty = false) (hnames : PlainNames values)
    {table column text value : Text} (htable : PlainName table) (hcolumn : PlainName column)
    (hwritten : Written pqEscapeLiteral text value) :
    taken (((ofTable table).update (Model.escapeValues pqEscapeLiteral values)).where
      (column ++ (" = " : Text) ++ text) "AND").get =
        some (.update table (storedValues pqEscapeLiteral values) column value) := by
  rw [taken, read_update h hvalues hnames.named htable.chars hcolumn.chars hwritten,
    Option.bind_some, folded, foldValues_eq hnames, Option.map_some, htable.folded, hcolumn.folded]

theorem taken_delete (h : ReadsLiterals pqEscapeLiteral) {table column text value : Text}
    (htable : PlainName table) (hcolumn : PlainName column)
    (hwritten : Written pqEscapeLiteral text value) :
    taken (((ofTable table).delete).where (column ++ (" = " : Text) ++ text) "AND").get =
      some (.delete table column value) := by
  rw [taken, read_delete h htable.chars hcolumn.chars hwritten, Option.bind_some, folded,
    htable.folded, hcolumn.folded]

theorem taken_select {table column : Text} (htable : PlainName table) (hcolumn : PlainName column)
    (z : Int) :
    taken (((ofTable table).where (column ++ (" = " : Text) ++ intText z) "AND").setLimit 1).get =
      some (.select table column (intText z) 1) := by
  rw [taken, read_select htable.chars hcolumn.chars, Option.bind_some, folded, htable.folded,
    hcolumn.folded]

end Statement

end Brazier
