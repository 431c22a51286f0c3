import Brazier.Database.Models.QuestionMarks
import Brazier.Mail.SmtpClient
import Brazier.ProofLib.Entries

/-!
# Aggregates

`count`, `max`, `sum` and `paginate` of `include/brazier/Database/Models/Model.hpp`. The value of an
aggregate arrives as an attribute of a model, and `create` keeps the attributes that are fields.
-/

namespace Brazier

open ProofLib

namespace Model

/-- `std::stoi`: the number at the start of a text, if an `int` holds it. -/
def stoi (text : Text) : Except Text Int :=
  match SmtpClient.stoi text with
  | .error e => .error e
  | .ok value => if IsInt value then .ok value else .error ("stoi" : Text)

/-- The query for the value of an expression. -/
def aggregateQuery (cls : ModelClass) (expression condition : Text) : SQLQueryBuilder :=
  ((SQLQueryBuilder.ofTable cls.tableName).select [expression]).where condition "AND"

/-- The attribute of the first model, as a number. -/
def firstNumber (name : Text) : List TextMap → Except Text Int
  | [] => .ok 0
  | row :: _ =>
      match getAttribute row name with
      | .error e => .error e
      | .ok value => stoi value

/-- The value of an expression under its name. -/
def aggregate (pqEscapeLiteral : Text → Option Text) (cls : FillableClass) (db : Database)
    (expression name condition : Text) : Except Text Int :=
  match (ModelQueryBuilder.get pqEscapeLiteral cls db
    (aggregateQuery cls.toModelClass expression condition)).1 with
  | .error e => .error e
  | .ok results => firstNumber name results

/-- `count`. -/
protected def count (pqEscapeLiteral : Text → Option Text) (cls : FillableClass) (db : Database)
    (condition : Text) : Except Text Int :=
  aggregate pqEscapeLiteral cls db "COUNT(*) as total" "total" condition

/-- `max`. -/
protected def max (pqEscapeLiteral : Text → Option Text) (cls : FillableClass) (db : Database)
    (column condition : Text) : Except Text Int :=
  aggregate pqEscapeLiteral cls db (("MAX(" : Text) ++ column ++ (") as max" : Text)) "max"
    condition

/-- `sum`. -/
protected def sum (pqEscapeLiteral : Text → Option Text) (cls : FillableClass) (db : Database)
    (column condition : Text) : Except Text Int :=
  aggregate pqEscapeLiteral cls db (("SUM(" : Text) ++ column ++ (") as sum" : Text)) "sum"
    condition

/-- `offset` in `paginate`. -/
def pageOffset (page perPage : Int) : Int := wrapInt (wrapInt (page - 1) * perPage)

/-- The query for a page. -/
def pageQuery (cls : ModelClass) (page perPage : Int) (condition : Text) : SQLQueryBuilder :=
  (((SQLQueryBuilder.ofTable cls.tableName).where condition "AND").setLimit perPage).setOffset
    (pageOffset page perPage)

/-- `paginate`, on the connections of its two queries. -/
def paginate (pqEscapeLiteral : Text → Option Text) (cls : FillableClass) (db db' : Database)
    (page perPage : Int) (condition : Text) : Except Text (List TextMap × Int) :=
  match (ModelQueryBuilder.get pqEscapeLiteral cls db
    (pageQuery cls.toModelClass page perPage condition)).1 with
  | .error e => .error e
  | .ok items =>
      (aggregate pqEscapeLiteral cls db' "COUNT(*) as total" "total" condition).map fun total =>
        (items, total)

/-! ## Rows as models -/

/-- With fields `create` keeps the entries of the fields. -/
theorem create_withFields (cls : FillableClass) (row : TextMap) :
    create cls row true =
      ofEntries compare (row.toList.filter fun entry => isField cls.toModelClass entry.1) := by
  unfold create ofEntries
  rw [Std.ExtTreeMap.foldl_eq_foldl_toList, List.foldl_filter]
  refine congrArg (fun f => row.toList.foldl f ∅) ?_
  funext attributes entry
  unfold createField setAttribute
  split
  · rfl
  · rfl

theorem getElem?_create (cls : FillableClass) (row : TextMap) (key : Text) :
    (create cls row true)[key]? = if isField cls.toModelClass key then row[key]? else none := by
  have hascending : Ascending compare
      (row.toList.filter fun entry => isField cls.toModelClass entry.1) :=
    (ascending_toList row).filter _
  rw [create_withFields]
  refine Option.ext fun value => ?_
  rw [getElem?_ofEntries hascending, List.mem_filter, mem_toList_iff]
  split
  · next hfield => exact and_iff_left hfield
  · next hfield => exact iff_of_false (fun h => hfield h.2) (fun h => nomatch h)

/-! ## Numbers as texts -/

/-- The digits of a number are read as the number. -/
theorem digitsValue_natText (n : Nat) : SmtpClient.digitsValue (natText n) = n := by
  have hfold : ∀ (digits : Text) (value : Nat),
      digits.foldl (fun value d => 10 * value + ((d.toNat - '0'.toNat : Nat) : Int)) (value : Int) =
        (Nat.ofDigitChars 10 digits value : Nat) := by
    intro digits
    induction digits with
    | nil => exact fun value => rfl
    | cons d digits ih =>
        intro value
        rw [List.foldl_cons, Nat.ofDigitChars_cons, ← ih]
        push_cast
        rfl
  rw [SmtpClient.digitsValue, natText_eq_toDigits]
  exact (hfold _ 0).trans (by rw [Nat.ofDigitChars_ten_toDigits])

theorem stoiDigits_natText (n : Nat) : SmtpClient.stoiDigits (natText n) = .ok (n : Int) := by
  have htake : (natText n).takeWhile Char.isDigit = natText n :=
    List.takeWhile_eq_self_iff.mpr fun c hc => isDigit_of_mem_natText hc
  obtain ⟨c, rest, hcons⟩ := List.exists_cons_of_ne_nil (natText_ne_nil n)
  rw [SmtpClient.stoiDigits, htake, ← digitsValue_natText n, hcons]

/-- A text that begins with a digit has neither blanks nor a sign in front. -/
theorem stoi_digit {c : Char} (hc : c.isDigit = true) (rest : Text) :
    SmtpClient.stoi (c :: rest) = SmtpClient.stoiDigits (c :: rest) := by
  have hne : ∀ d : Char, d.isDigit = false → c ≠ d := by
    intro d hd heq
    rw [heq, hd] at hc
    cases hc
  have hspace : ¬ SmtpClient.isSpace c = true := by
    unfold SmtpClient.isSpace
    simp only [Bool.or_eq_true, decide_eq_true_eq]
    intro h
    rcases h with ((((h | h) | h) | h) | h) | h <;> exact hne _ (by decide) h
  unfold SmtpClient.stoi
  rw [List.dropWhile_cons_of_neg hspace]
  split
  · next heq => exact absurd (List.head_eq_of_cons_eq heq) (hne '-' (by decide))
  · next heq => exact absurd (List.head_eq_of_cons_eq heq) (hne '+' (by decide))
  · rfl

/-- The text of a number is read as the number. -/
theorem stoi_intText {n : Int} (hn : IsInt n) : stoi (intText n) = .ok n := by
  have hread : SmtpClient.stoi (intText n) = .ok n := by
    cases n with
    | ofNat n =>
        obtain ⟨c, rest, hcons⟩ := List.exists_cons_of_ne_nil (natText_ne_nil n)
        have hc : c.isDigit = true := isDigit_of_mem_natText (n := n) (by rw [hcons]; simp)
        show SmtpClient.stoi (natText n) = _
        rw [hcons, stoi_digit hc, ← hcons, stoiDigits_natText]
        rfl
    | negSucc n =>
        show (SmtpClient.stoiDigits (natText (n + 1))).map _ = _
        rw [stoiDigits_natText]
        rfl
  rw [stoi, hread]
  exact if_pos hn

/-! ## What arrives -/

/-- The server does the next statement and answers it with one row of one value. -/
def Answers (db : Database) (name : Text) (n : Int) : Prop :=
  db.doesNext = true ∧ db.nextAnswer = .tuplesOk ⟨[name], [[intText n]]⟩

variable {pqEscapeLiteral : Text → Option Text} {cls : FillableClass} {db : Database}

/-- The question marks of the query for an expression. -/
theorem mem_aggregateQuery (cls : ModelClass) (expression condition : Text) :
    '?' ∈ (aggregateQuery cls expression condition).get ↔
      '?' ∈ expression ∨ '?' ∈ cls.tableName ∨ '?' ∈ condition := by
  have hwhere := SQLQueryBuilder.where_of_first
    (b := (SQLQueryBuilder.ofTable cls.tableName).select [expression]) rfl condition "AND"
  rw [aggregateQuery, hwhere, SQLQueryBuilder.get_of_select rfl rfl rfl,
    SQLQueryBuilder.mem_selectText]
  simp [SQLQueryBuilder.select, SQLQueryBuilder.ofTable, SQLQueryBuilder.entryTexts, toList_empty]
  exact or_left_comm

/-- The models of a query that is answered with rows. -/
theorem get_of_rows {rows : Brazier.Rows} (hnext : db.doesNext = true)
    (hrows : db.nextAnswer = .tuplesOk rows) {b : SQLQueryBuilder} (hmark : '?' ∉ b.get) :
    (ModelQueryBuilder.get pqEscapeLiteral cls db b).1 = .ok
      ((rows.values.map (Database.rowMap rows.columns)).map fun row => create cls row true) := by
  show ((Database.fetchTemplate pqEscapeLiteral db b.get []).1.map _).map _ = _
  rw [Database.fetchTemplate_finished pqEscapeLiteral db hmark,
    (Database.fetch_of_rows hnext hrows b.get).1]
  rfl

/-- The value arrives exactly when its name is a field and the query has no question mark. -/
theorem aggregate_iff {expression name condition : Text} {n : Int} (hn : IsInt n)
    (h : Answers db name n) :
    aggregate pqEscapeLiteral cls db expression name condition = .ok n ↔
      name ∈ cls.fields ∧ '?' ∉ expression ∧ '?' ∉ cls.tableName ∧ '?' ∉ condition := by
  have hmem := mem_aggregateQuery cls.toModelClass expression condition
  by_cases hmark : '?' ∈ (aggregateQuery cls.toModelClass expression condition).get
  · refine iff_of_false ?_ ?_
    · rw [aggregate, ModelQueryBuilder.get, Database.queryToVector,
        Database.fetchTemplate_marked pqEscapeLiteral db hmark]
      intro herror
      cases herror
    · rw [hmem] at hmark
      intro hfree
      rcases hmark with h | h | h
      · exact hfree.2.1 h
      · exact hfree.2.2.1 h
      · exact hfree.2.2.2 h
  · have hunmarked := hmark
    rw [hmem, not_or, not_or] at hunmarked
    rw [and_iff_left hunmarked, aggregate, get_of_rows h.1 h.2 hmark]
    show firstNumber name [create cls ((∅ : TextMap).insert name (intText n)) true] = _ ↔ _
    rw [firstNumber, getAttribute, getElem?_create, getElem?_insert, if_pos rfl]
    have hiff : isField cls.toModelClass name = true ↔ name ∈ cls.fields := List.contains_iff_mem
    rw [← hiff]
    by_cases hfield : isField cls.toModelClass name = true
    · rw [if_pos hfield]
      exact iff_of_true (stoi_intText hn) hfield
    · rw [if_neg hfield]
      refine iff_of_false (fun herror => ?_) hfield
      cases herror

/-- The question marks of the query for a page. -/
theorem mem_pageQuery (cls : ModelClass) (page perPage : Int) (condition : Text) :
    '?' ∈ (pageQuery cls page perPage condition).get ↔
      '?' ∈ cls.tableName ∨ '?' ∈ condition := by
  have hwhere := SQLQueryBuilder.where_of_first (b := SQLQueryBuilder.ofTable cls.tableName)
    rfl condition "AND"
  have hint : ∀ x : Int, '?' ∉ intText x := by
    intro x hx
    have hnat : ∀ n : Nat, '?' ∉ natText n := by
      intro n hmem
      exact absurd (isDigit_of_mem_natText hmem) (by decide)
    cases x with
    | ofNat n => exact hnat n hx
    | negSucc n =>
        have hrest : '?' ∈ natText (n + 1) := by simpa [intText] using hx
        exact hnat (n + 1) hrest
  rw [pageQuery, hwhere, SQLQueryBuilder.get_of_select rfl rfl rfl,
    SQLQueryBuilder.mem_selectText]
  simp [SQLQueryBuilder.setLimit, SQLQueryBuilder.setOffset, SQLQueryBuilder.ofTable,
    SQLQueryBuilder.entryTexts, toList_empty, hint]

/-- `paginate` counts as `count` does, after a query that returns. -/
theorem paginate_snd_iff {db' : Database} {page perPage n : Int} {condition : Text}
    {items : Brazier.Rows} (hnext : db.doesNext = true) (hitems : db.nextAnswer = .tuplesOk items)
    (hn : IsInt n) (h : Answers db' "total" n) :
    (paginate pqEscapeLiteral cls db db' page perPage condition).map Prod.snd = .ok n ↔
      ("total" : Text) ∈ cls.fields ∧ '?' ∉ cls.tableName ∧ '?' ∉ condition := by
  have hmem := mem_pageQuery cls.toModelClass page perPage condition
  by_cases hmark : '?' ∈ (pageQuery cls.toModelClass page perPage condition).get
  · refine iff_of_false ?_ ?_
    · rw [paginate, ModelQueryBuilder.get, Database.queryToVector,
        Database.fetchTemplate_marked pqEscapeLiteral db hmark]
      intro herror
      cases herror
    · rw [hmem] at hmark
      intro hfree
      rcases hmark with h | h
      · exact hfree.2.1 h
      · exact hfree.2.2 h
  · have hexpression : '?' ∉ ("COUNT(*) as total" : Text) := by simp
    have hcount : aggregate pqEscapeLiteral cls db' "COUNT(*) as total" "total" condition = .ok n ↔
        _ := aggregate_iff hn h
    rw [and_iff_right hexpression] at hcount
    rw [← hcount, paginate, get_of_rows hnext hitems hmark]
    dsimp only
    cases aggregate pqEscapeLiteral cls db' "COUNT(*) as total" "total" condition with
    | error e =>
        refine iff_of_false ?_ ?_
        · intro herror
          cases herror
        · intro herror
          cases herror
    | ok total => exact Iff.rfl

/-- An aggregate returns what the database has returned exactly when the name of its value is a
field and no text in its query has a question mark. -/
theorem aggregates_iff (pqEscapeLiteral : Text → Option Text) (cls : FillableClass)
    (column condition : Text) {n : Int} (hn : IsInt n) (db : Database) :
    (Answers db "total" n →
      (Model.count pqEscapeLiteral cls db condition = .ok n ↔
        ("total" : Text) ∈ cls.fields ∧ '?' ∉ cls.tableName ∧ '?' ∉ condition)) ∧
    (Answers db "max" n →
      (Model.max pqEscapeLiteral cls db column condition = .ok n ↔
        ("max" : Text) ∈ cls.fields ∧ '?' ∉ column ∧ '?' ∉ cls.tableName ∧ '?' ∉ condition)) ∧
    (Answers db "sum" n →
      (Model.sum pqEscapeLiteral cls db column condition = .ok n ↔
        ("sum" : Text) ∈ cls.fields ∧ '?' ∉ column ∧ '?' ∉ cls.tableName ∧ '?' ∉ condition)) ∧
    ∀ (first : Database) (items : Brazier.Rows) (page perPage : Int), first.doesNext = true →
      first.nextAnswer = .tuplesOk items → Answers db "total" n →
      ((paginate pqEscapeLiteral cls first db page perPage condition).map Prod.snd = .ok n ↔
        ("total" : Text) ∈ cls.fields ∧ '?' ∉ cls.tableName ∧ '?' ∉ condition) := by
  have hcount : '?' ∉ ("COUNT(*) as total" : Text) := by simp
  have hmax : '?' ∉ ("MAX(" : Text) ++ column ++ (") as max" : Text) ↔ '?' ∉ column := by simp
  have hsum : '?' ∉ ("SUM(" : Text) ++ column ++ (") as sum" : Text) ↔ '?' ∉ column := by simp
  refine ⟨?_, ?_, ?_, ?_⟩
  · intro h
    rw [Model.count, aggregate_iff hn h, and_iff_right hcount]
  · intro h
    rw [Model.max, aggregate_iff hn h, hmax]
  · intro h
    rw [Model.sum, aggregate_iff hn h, hsum]
  · intro first items page perPage hnext hitems h
    exact paginate_snd_iff hnext hitems hn h

/-- A new connection to a server that answers with one row of one value. -/
def answering (name : Text) (n : Int) : Database :=
  Database.connect [] [.tuplesOk ⟨[name], [[intText n]]⟩]

/-- A class of users with fields for all aggregates. -/
def countedUsers : FillableClass :=
  ⟨⟨"users", "id", ["id", "login", "total", "max", "sum"]⟩, ["login"]⟩

/-- The number of these users, the largest and the sum of their keys, and the number behind their
first page, which has none of them. -/
theorem aggregates_countedUsers :
    Model.count quoteLiteral countedUsers (answering "total" 3) "1=1" = .ok 3 ∧
      Model.max quoteLiteral countedUsers (answering "max" 3) "id" "1=1" = .ok 3 ∧
      Model.sum quoteLiteral countedUsers (answering "sum" 3) "id" "1=1" = .ok 3 ∧
      (paginate quoteLiteral countedUsers (Database.connect [] [.tuplesOk ⟨["id"], []⟩])
        (answering "total" 3) 1 10 "1=1").map Prod.snd = .ok 3 := by
  have hn : IsInt 3 := by decide
  have htotal := aggregates_iff quoteLiteral countedUsers "id" "1=1" hn (answering "total" 3)
  have hmax := aggregates_iff quoteLiteral countedUsers "id" "1=1" hn (answering "max" 3)
  have hsum := aggregates_iff quoteLiteral countedUsers "id" "1=1" hn (answering "sum" 3)
  refine ⟨(htotal.1 ⟨rfl, rfl⟩).mpr (by decide), (hmax.2.1 ⟨rfl, rfl⟩).mpr (by decide),
    (hsum.2.2.1 ⟨rfl, rfl⟩).mpr (by decide), ?_⟩
  exact (htotal.2.2.2 _ _ 1 10 rfl rfl ⟨rfl, rfl⟩).mpr (by decide)

/-- Without a field of that name the number of users does not arrive. -/
theorem users_not_counted :
    Answers (answering "total" 3) "total" 3 ∧
      Model.count quoteLiteral fillableUsers (answering "total" 3) "1=1" =
        .error ("Attribute 'total' not found." : Text) := by
  refine ⟨⟨rfl, rfl⟩, ?_⟩
  decide +kernel

end Model

end Brazier
