import Brazier.Database.Grammar

/-!
# Units of work with savepoints

A program works in a transaction of `Database`, with sections that have savepoints of their own, the
way `MigrationManager` does: what a section throws itself is caught behind it, once the connection
is back at its savepoint, and what the connection throws leaves the whole transaction.
`unit_of_work` says that the sections are undone exactly where they failed, and that the transaction
is committed as a whole or not at all, whatever the server refuses. The texts of the work have to be
plain: a quotation mark in a name, or a `COMMIT` among the statements, would be another program.
-/

namespace Brazier

/-- What a program does in a transaction. -/
inductive NestedWork where
  | done
  | execute (sql : Text) (next : NestedWork)
  | query (sql : Text) (next : NestedWork)
  | throw (message : Text)
  | attempt (name : Text) (body next : NestedWork)

/-- Why a unit of work is left: an exception of the program, or one of the connection. -/
inductive WorkFailure where
  | own (message : Text)
  | database (message : Text)
  deriving DecidableEq

namespace NestedWork

/-- What the work comes to: the statements that stay, or the exception that no section caught. -/
def meaning : NestedWork → Except Text (List Text)
  | .done => .ok []
  | .execute sql next => next.meaning.map fun rest => sql :: rest
  | .query sql next => next.meaning.map fun rest => sql :: rest
  | .throw message => .error message
  | .attempt _ body next =>
      match body.meaning with
      | .ok statements => next.meaning.map fun rest => statements ++ rest
      | .error _ => next.meaning

/-- The names of its savepoints. -/
def names : NestedWork → List Text
  | .done | .throw _ => []
  | .execute _ next | .query _ next => next.names
  | .attempt name body next => name :: body.names ++ next.names

/-- The savepoints have names, and no section has one of its own name within. -/
def Distinct : NestedWork → Prop
  | .done | .throw _ => True
  | .execute _ next | .query _ next => next.Distinct
  | .attempt name body next => name ≠ [] ∧ name ∉ body.names ∧ body.Distinct ∧ next.Distinct

/-- The names of the savepoints are quotable, and the statements are no transaction commands. -/
def Plain (grammar : Grammar) : NestedWork → Prop
  | .done | .throw _ => True
  | .execute sql next | .query sql next =>
      grammar.Plain (.statement sql) ∧ next.Plain grammar
  | .attempt name body next => Quotable name ∧ body.Plain grammar ∧ next.Plain grammar

/-- The work asks for rows. -/
def fetches : NestedWork → Bool
  | .done | .throw _ => false
  | .query _ _ => true
  | .execute _ next => next.fetches
  | .attempt _ body next => body.fetches || next.fetches

/-- The work on a connection. -/
def run : NestedWork → Database → Except WorkFailure Unit × Database
  | .done, db => (.ok (), db)
  | .execute sql next, db =>
      match db.execute sql with
      | (.ok _, db) => next.run db
      | (.error e, db) => (.error (.database e), db)
  | .query sql next, db =>
      match db.query sql with
      | (.ok _, db) => next.run db
      | (.error e, db) => (.error (.database e), db)
  | .throw message, db => (.error (.own message), db)
  | .attempt name body next, db =>
      match db.transaction name with
      | (.error e, db) => (.error (.database e), db)
      | (.ok _, db) =>
          match body.run db with
          | (.ok _, db) => next.run db
          | (.error failure, db) =>
              match db.rollback name with
              | (.error e, db) => (.error (.database e), db)
              | (.ok _, db) =>
                  match failure with
                  | .own _ => next.run db
                  | .database e => (.error (.database e), db)

/-- The work in a transaction of its own. What the last `rollback` throws is dropped. -/
def unit (work : NestedWork) (db : Database) : Except WorkFailure Unit × Database :=
  match db.transaction [] with
  | (.error e, db) => (.error (.database e), db)
  | (.ok _, db) =>
      match work.run db with
      | (.error failure, db) => (.error failure, (db.rollback []).2)
      | (.ok _, db) =>
          match db.commit with
          | (.ok _, db) => (.ok (), db)
          | (.error e, db) => (.error (.database e), (db.rollback []).2)

end NestedWork

namespace Database

/-- The connection is in a transaction that was not aborted. -/
structure Open (db : Database) (b : Block) : Prop where
  flag : db.inTransaction = true
  session : db.server.session = .inTransaction b

/-- The server refuses nothing that the session allows. -/
def Obliging (db : Database) : Prop := ∀ answer ∈ db.answers, answer.accepts = true

/-- Nothing was committed, and the server is as obliging as before. -/
structure Uncommitted (db db' : Database) : Prop where
  committed : db'.server.committed = db.server.committed
  obliging : db.Obliging → db'.Obliging

theorem Uncommitted.refl (db : Database) : db.Uncommitted db := ⟨rfl, id⟩

theorem Uncommitted.trans {db db' db'' : Database} (h : db.Uncommitted db')
    (h' : db'.Uncommitted db'') : db.Uncommitted db'' :=
  ⟨h'.committed.trans h.committed, h'.obliging ∘ h.obliging⟩

theorem Obliging.nextAnswer {db : Database} (h : db.Obliging) : db.nextAnswer.accepts = true := by
  unfold Database.nextAnswer
  cases hanswers : db.answers with
  | nil => rfl
  | cons answer rest => exact h answer (hanswers ▸ List.mem_cons_self)

theorem Obliging.pqExec {db : Database} (h : db.Obliging) (cmd : Command) :
    (db.pqExec cmd).2.Obliging :=
  fun answer hmem => h answer (List.mem_of_mem_tail hmem)

/-- A result that is a value or an exception. -/
theorem ok_or_error {α : Type} (r : Except Text α) :
    (∃ value, r = .ok value ∧ r.isOk = true) ∨ (∃ e, r = .error e ∧ r.isOk = false) := by
  cases r with
  | ok value => exact .inl ⟨value, rfl, rfl⟩
  | error e => exact .inr ⟨e, rfl, rfl⟩

variable {db : Database} {b : Block}

theorem Open.block (h : db.Open b) : db.server.session.block = some b := by
  rw [h.session]
  rfl

/-- A command that the open session allows. -/
theorem Open.accepted (h : db.Open b) (cmd : Command) (hcmd : cmd.endsBlock = false)
    (hacc : db.accepts cmd = true) : (db.pqExec cmd).2.Open (b.apply cmd) :=
  ⟨h.flag, (session_pq_exec db cmd).trans (Session.exec_accepted h.block hcmd hacc)⟩

theorem Open.uncommitted (h : db.Open b) {cmd : Command} (hcmd : cmd.endsBlock = false) :
    db.Uncommitted (db.pqExec cmd).2 :=
  ⟨committed_in_block h.block hcmd, fun hobliging => hobliging.pqExec cmd⟩

/-- What `rollback` does to the transactions that were committed. -/
theorem uncommitted_rollback (db : Database) (name : Text) :
    db.Uncommitted (db.rollback name).2 := by
  cases hflag : db.inTransaction with
  | false =>
      rw [rollback_noop db name hflag]
      exact .refl db
  | true =>
      cases name with
      | nil =>
          rw [(rollback_all_spec db hflag).2]
          exact ⟨committed_rollback db, fun h => h.pqExec .rollback⟩
      | cons c rest =>
          rw [(rollback_to_spec db hflag (List.cons_ne_nil c rest)).2]
          exact ⟨committed_rollback_to db _, fun h => h.pqExec (.rollbackTo (c :: rest))⟩

/-- `execute` in a transaction. -/
theorem Open.execute (h : db.Open b) (sql : Text) :
    db.Uncommitted (db.execute sql).2 ∧
      ((∃ u, (db.execute sql).1 = .ok u) ∧
          (db.execute sql).2.Open { b with pending := b.pending ++ [sql] } ∨
        (∃ e, (db.execute sql).1 = .error e) ∧ ¬ db.Obliging) := by
  obtain ⟨hok, hafter⟩ := execute_spec db sql
  have hsent := h.uncommitted (show Command.endsBlock (.statement sql) = false from rfl)
  rw [h.flag, Bool.true_and] at hafter
  obtain ⟨u, hu, htrue⟩ | ⟨e, he, hfalse⟩ := ok_or_error (db.execute sql).1
  · have hacc : db.accepts (.statement sql) = true := hok.symm.trans htrue
    rw [hacc, Bool.not_true, if_neg Bool.false_ne_true] at hafter
    rw [hafter]
    exact ⟨hsent, .inl ⟨⟨u, hu⟩, h.accepted _ rfl hacc⟩⟩
  · have hacc : db.accepts (.statement sql) = false := hok.symm.trans hfalse
    rw [hacc, Bool.not_false, if_pos rfl] at hafter
    rw [hafter]
    refine ⟨hsent.trans ⟨committed_rollback _, fun ho => ho.pqExec .rollback⟩,
      .inr ⟨⟨e, he⟩, fun hobliging => ?_⟩⟩
    have hallows : db.server.session.allows (.statement sql) = true := by
      rw [h.session]
      rfl
    rw [accepts, hallows, Bool.true_and, hobliging.nextAnswer] at hacc
    cases hacc

/-- `query` in a transaction. -/
theorem Open.query (h : db.Open b) (sql : Text) :
    db.Uncommitted (db.query sql).2 ∧
      ((∃ text, (db.query sql).1 = .ok text) ∧
          (db.query sql).2.Open { b with pending := b.pending ++ [sql] } ∨
        ∃ e, (db.query sql).1 = .error e) := by
  obtain ⟨hok, hafter⟩ := fetch_spec db sql
  have hresult : (db.query sql).1 = (db.fetch sql).1.map rowsText := rfl
  have hsent : (db.query sql).2 = (db.pqExec (.statement sql)).2 := hafter
  rw [hresult, hsent]
  refine ⟨h.uncommitted rfl, ?_⟩
  obtain ⟨rows, hrows, htrue⟩ | ⟨e, he, -⟩ := ok_or_error (db.fetch sql).1
  · rw [hrows]
    exact .inl ⟨⟨rowsText rows, rfl⟩, h.accepted _ rfl (hok htrue)⟩
  · rw [he]
    exact .inr ⟨e, rfl⟩

/-- A savepoint in a transaction. -/
theorem Open.savepoint (h : db.Open b) {name : Text} (hname : name ≠ []) :
    db.Uncommitted (db.transaction name).2 ∧
      ((∃ u, (db.transaction name).1 = .ok u) ∧
          (db.transaction name).2.Open
            { b with savepoints := ⟨name, b.pending⟩ :: b.savepoints } ∨
        (∃ e, (db.transaction name).1 = .error e) ∧ ¬ db.Obliging) := by
  obtain ⟨hok, hafter⟩ := transaction_savepoint_spec db hname
  rw [h.flag, Bool.true_and] at hok
  rw [h.flag, if_pos rfl] at hafter
  rw [hafter]
  refine ⟨h.uncommitted rfl, ?_⟩
  obtain ⟨u, hu, htrue⟩ | ⟨e, he, hfalse⟩ := ok_or_error (db.transaction name).1
  · exact .inl ⟨⟨u, hu⟩, h.accepted _ rfl (hok.symm.trans htrue)⟩
  · refine .inr ⟨⟨e, he⟩, fun hobliging => ?_⟩
    have hallows : db.server.session.allows (.savepoint name) = true := by
      rw [h.session]
      rfl
    have hacc : db.accepts (.savepoint name) = false := hok.symm.trans hfalse
    rw [accepts, hallows, Bool.true_and, hobliging.nextAnswer] at hacc
    cases hacc

/-- Going back to a savepoint that no newer one hides. -/
theorem Open.rollbackTo {pending before : List Text} {made older : List Savepoint} {name : Text}
    (h : db.Open ⟨pending, made ++ ⟨name, before⟩ :: older⟩) (hname : name ≠ [])
    (hhidden : ∀ sp ∈ made, sp.name ≠ name) :
    (∃ u, (db.rollback name).1 = .ok u) ∧
        (db.rollback name).2.Open ⟨before, ⟨name, before⟩ :: older⟩ ∨
      (∃ e, (db.rollback name).1 = .error e) ∧ ¬ db.Obliging := by
  obtain ⟨hok, hafter⟩ := rollback_to_spec db h.flag hname
  have hfind : Block.find ⟨pending, made ++ ⟨name, before⟩ :: older⟩ name =
      ⟨name, before⟩ :: older := by
    have hmade : ∀ sp ∈ made, decide (sp.name ≠ name) = true :=
      fun sp hsp => decide_eq_true (hhidden sp hsp)
    rw [Block.find, List.dropWhile_append_of_pos hmade, List.dropWhile_cons_of_neg (by simp)]
  have hback : Block.rollbackTo ⟨pending, made ++ ⟨name, before⟩ :: older⟩ name =
      some ⟨before, ⟨name, before⟩ :: older⟩ := by
    rw [Block.rollbackTo, hfind]
  obtain ⟨u, hu, htrue⟩ | ⟨e, he, hfalse⟩ := ok_or_error (db.rollback name).1
  · have hacc : db.accepts (.rollbackTo name) = true := hok.symm.trans htrue
    have hopen := h.accepted (.rollbackTo name) rfl hacc
    rw [Block.apply, hback] at hopen
    refine .inl ⟨⟨u, hu⟩, ?_⟩
    rw [hafter, hacc]
    exact ⟨rfl, hopen.session⟩
  · refine .inr ⟨⟨e, he⟩, fun hobliging => ?_⟩
    have hallows : db.server.session.allows (.rollbackTo name) = true := by
      rw [h.session, Session.allows, hback]
      rfl
    have hacc : db.accepts (.rollbackTo name) = false := hok.symm.trans hfalse
    rw [accepts, hallows, Bool.true_and, hobliging.nextAnswer] at hacc
    cases hacc

end Database

namespace NestedWork

open Database

/-- How the work ends that began in a block. -/
inductive Ended (work : NestedWork) (db : Database) (b : Block) :
    Except WorkFailure Unit × Database → Prop where
  | returns {statements : List Text} {made : List Savepoint} {db' : Database}
      (hmeaning : work.meaning = .ok statements)
      (hopen : db'.Open ⟨b.pending ++ statements, made ++ b.savepoints⟩)
      (hmade : ∀ sp ∈ made, sp.name ∈ work.names) : Ended work db b (.ok (), db')
  | throws {message : Text} {pending : List Text} {made : List Savepoint} {db' : Database}
      (hmeaning : work.meaning = .error message)
      (hopen : db'.Open ⟨pending, made ++ b.savepoints⟩)
      (hmade : ∀ sp ∈ made, sp.name ∈ work.names) : Ended work db b (.error (.own message), db')
  | fails {e : Text} {db' : Database} (hrefused : db.Obliging → work.fetches = true) :
      Ended work db b (.error (.database e), db')

/-- The rest of some work, behind statements and savepoints that stay. -/
theorem Ended.behind {work next : NestedWork} {db db' : Database} {b : Block}
    {front : List Text} {made : List Savepoint} {r : Except WorkFailure Unit × Database}
    (h : Ended next db' ⟨b.pending ++ front, made ++ b.savepoints⟩ r)
    (hdb : db.Uncommitted db')
    (hmeaning : work.meaning = next.meaning.map fun rest => front ++ rest)
    (hmade : ∀ sp ∈ made, sp.name ∈ work.names) (hnames : next.names ⊆ work.names)
    (hfetches : next.fetches = true → work.fetches = true) : Ended work db b r := by
  have hall : ∀ {newer : List Savepoint}, (∀ sp ∈ newer, sp.name ∈ next.names) →
      ∀ sp ∈ newer ++ made, sp.name ∈ work.names := by
    intro newer hnewer sp hsp
    exact (List.mem_append.mp hsp).elim (fun hin => hnames (hnewer sp hin)) (hmade sp)
  cases h with
  | @returns statements newer db'' hnext hopen hnewer =>
      rw [List.append_assoc, ← List.append_assoc newer] at hopen
      exact .returns (by rw [hmeaning, hnext]; rfl) hopen (hall hnewer)
  | @throws message pending newer db'' hnext hopen hnewer =>
      rw [← List.append_assoc newer] at hopen
      exact .throws (by rw [hmeaning, hnext]; rfl) hopen (hall hnewer)
  | fails hrefused => exact .fails fun ho => hfetches (hrefused (hdb.obliging ho))

/-- The rest of some work, behind one statement. -/
theorem Ended.behind_statement {work next : NestedWork} {db db' : Database} {b : Block} {sql : Text}
    {r : Except WorkFailure Unit × Database}
    (h : Ended next db' { b with pending := b.pending ++ [sql] } r) (hdb : db.Uncommitted db')
    (hmeaning : work.meaning = next.meaning.map fun rest => sql :: rest)
    (hnames : work.names = next.names) (hfetches : next.fetches = true → work.fetches = true) :
    Ended work db b r := by
  have hnone : ∀ sp ∈ ([] : List Savepoint), sp.name ∈ work.names :=
    fun sp hsp => absurd hsp List.not_mem_nil
  have hsubset : next.names ⊆ work.names := by
    rw [hnames]
    exact List.Subset.refl next.names
  have hsame : Ended next db' ⟨b.pending ++ [sql], [] ++ b.savepoints⟩ r := h
  exact hsame.behind hdb hmeaning hnone hsubset hfetches

/-- The work in an open transaction commits nothing. It comes to what it means, and leaves no
savepoints but its own, unless a command is refused. By induction on the work: a section that throws
finds its savepoint again, as no section within it has the same name. -/
theorem run_ended {work : NestedWork} (hdistinct : work.Distinct) {db : Database} {b : Block}
    (h : db.Open b) : db.Uncommitted (work.run db).2 ∧ Ended work db b (work.run db) := by
  induction work generalizing db b with
  | done =>
      refine ⟨.refl db, .returns rfl ?_ (fun sp hsp => absurd hsp List.not_mem_nil)⟩
      rw [List.append_nil]
      exact h
  | throw message =>
      exact ⟨.refl db, .throws rfl h (fun sp hsp => absurd hsp List.not_mem_nil)⟩
  | execute sql next ih =>
      obtain ⟨hsent, hresult⟩ := h.execute sql
      rw [run]
      cases hexecute : db.execute sql with
      | mk r db' =>
          rw [hexecute] at hsent hresult
          obtain ⟨⟨u, rfl⟩, hopen⟩ | ⟨⟨e, rfl⟩, hrefused⟩ := hresult
          · obtain ⟨hrest, hended⟩ := ih hdistinct hopen
            exact ⟨hsent.trans hrest, Ended.behind_statement hended hsent rfl rfl id⟩
          · exact ⟨hsent, .fails fun ho => absurd ho hrefused⟩
  | query sql next ih =>
      obtain ⟨hsent, hresult⟩ := h.query sql
      rw [run]
      cases hquery : db.query sql with
      | mk r db' =>
          rw [hquery] at hsent hresult
          obtain ⟨⟨text, rfl⟩, hopen⟩ | ⟨e, rfl⟩ := hresult
          · obtain ⟨hrest, hended⟩ := ih hdistinct hopen
            exact ⟨hsent.trans hrest,
              Ended.behind_statement hended hsent rfl rfl fun _ => rfl⟩
          · exact ⟨hsent, .fails fun _ => rfl⟩
  | attempt name body next ihbody ihnext =>
      obtain ⟨hname, hbody, hdistinctBody, hdistinctNext⟩ := hdistinct
      have hfront : body.fetches = true → (attempt name body next).fetches = true := by
        intro hfetches
        rw [fetches, hfetches, Bool.true_or]
      have hback : next.fetches = true → (attempt name body next).fetches = true := by
        intro hfetches
        rw [fetches, hfetches, Bool.or_true]
      have hnext : next.names ⊆ (attempt name body next).names :=
        List.subset_append_right _ _
      have hown : name ∈ (attempt name body next).names := List.mem_cons_self
      have hwithin : ∀ {made : List Savepoint}, (∀ sp ∈ made, sp.name ∈ body.names) →
          ∀ sp ∈ made ++ [⟨name, b.pending⟩], sp.name ∈ (attempt name body next).names := by
        intro made hmade sp hsp
        obtain hin | hin := List.mem_append.mp hsp
        · exact List.mem_cons_of_mem _ (List.mem_append_left _ (hmade sp hin))
        · rw [List.mem_singleton.mp hin]
          exact hown
      obtain ⟨hsaved, hresult⟩ := h.savepoint hname
      cases htransaction : db.transaction name with
      | mk r db₁ =>
      rw [htransaction] at hsaved hresult
      obtain ⟨⟨u, rfl⟩, hopen⟩ | ⟨⟨e, rfl⟩, hrefused⟩ := hresult
      swap
      · simp only [run, htransaction]
        exact ⟨hsaved, .fails fun ho => absurd ho hrefused⟩
      obtain ⟨hdone, hended⟩ := ihbody hdistinctBody hopen
      cases hrun : body.run db₁ with
      | mk r db₂ =>
      rw [hrun] at hdone hended
      have hsofar := hsaved.trans hdone
      have hundone := uncommitted_rollback db₂ name
      cases hended with
      | @returns statements made db' hmeaning hopen' hmade =>
          have hsplit : made ++ ⟨name, b.pending⟩ :: b.savepoints =
              (made ++ [⟨name, b.pending⟩]) ++ b.savepoints := by
            rw [List.append_assoc]
            rfl
          have hsame : (attempt name body next).meaning =
              next.meaning.map fun rest => statements ++ rest := by
            rw [meaning, hmeaning]
          rw [hsplit] at hopen'
          obtain ⟨hrest, hafter⟩ := ihnext hdistinctNext hopen'
          simp only [run, htransaction, hrun]
          exact ⟨hsofar.trans hrest, hafter.behind hsofar hsame (hwithin hmade) hnext hback⟩
      | @throws message pending made db' hmeaning hopen' hmade =>
          have hback' := hopen'.rollbackTo hname fun sp hsp heq => hbody (heq ▸ hmade sp hsp)
          have hsame : (attempt name body next).meaning =
              next.meaning.map fun rest => [] ++ rest := by
            rw [meaning, hmeaning]
            cases next.meaning <;> rfl
          cases hrollback : db₂.rollback name with
          | mk r db₃ =>
          rw [hrollback] at hundone hback'
          have hall := hsofar.trans hundone
          obtain ⟨⟨u, rfl⟩, hopen₃⟩ | ⟨⟨e, rfl⟩, hrefused⟩ := hback'
          · -- the connection is as it was behind the savepoint
            rw [← List.append_nil b.pending, ← List.singleton_append] at hopen₃
            obtain ⟨hrest, hafter⟩ := ihnext hdistinctNext hopen₃
            simp only [run, htransaction, hrun, hrollback]
            refine ⟨hall.trans hrest, hafter.behind hall hsame ?_ hnext hback⟩
            have hnone : ∀ sp ∈ ([] : List Savepoint), sp.name ∈ body.names :=
              fun sp hsp => absurd hsp List.not_mem_nil
            have hmine := hwithin hnone
            rwa [List.append_nil]
          · simp only [run, htransaction, hrun, hrollback]
            exact ⟨hall, .fails fun ho => absurd (hsofar.obliging ho) hrefused⟩
      | @fails e db' hrefused =>
          have hfails : db.Obliging → (attempt name body next).fetches = true :=
            fun ho => hfront (hrefused (hsaved.obliging ho))
          cases hrollback : db₂.rollback name with
          | mk r db₃ =>
          rw [hrollback] at hundone
          simp only [run, htransaction, hrun, hrollback]
          cases r with
          | ok u => exact ⟨hsofar.trans hundone, .fails hfails⟩
          | error e' => exact ⟨hsofar.trans hundone, .fails hfails⟩

/-- The server reads the texts of plain work as they were meant. -/
theorem run_understood {grammar : Grammar} {work : NestedWork} (h : work.Plain grammar)
    (db : Database) : grammar.Understood db (work.run db).2 := by
  induction work generalizing db with
  | done => exact .refl db
  | throw message => exact .refl db
  | execute sql next ih =>
      have hsent := Grammar.understood_execute db h.1
      rw [run]
      split
      · next u db' hexecute =>
          rw [hexecute] at hsent
          exact hsent.trans (ih h.2 db')
      · next e db' hexecute =>
          rw [hexecute] at hsent
          exact hsent
  | query sql next ih =>
      have hsent := Grammar.understood_query db h.1
      rw [run]
      split
      · next text db' hquery =>
          rw [hquery] at hsent
          exact hsent.trans (ih h.2 db')
      · next e db' hquery =>
          rw [hquery] at hsent
          exact hsent
  | attempt name body next ihbody ihnext =>
      obtain ⟨hname, hbody, hnext⟩ := h
      have hsaved : grammar.Understood db (db.transaction name).2 :=
        Grammar.understood_transaction db (.inr hname)
      cases htransaction : db.transaction name with
      | mk r db₁ =>
      rw [htransaction] at hsaved
      cases r with
      | error e =>
          simp only [run, htransaction]
          exact hsaved
      | ok u =>
      have hdone := hsaved.trans (ihbody hbody db₁)
      cases hrun : body.run db₁ with
      | mk r db₂ =>
      rw [hrun] at hdone
      cases r with
      | ok u =>
          simp only [run, htransaction, hrun]
          exact hdone.trans (ihnext hnext db₂)
      | error failure =>
      have hundone := hdone.trans (Grammar.understood_rollback db₂ (.inr hname))
      cases hrollback : db₂.rollback name with
      | mk r db₃ =>
      rw [hrollback] at hundone
      cases r with
      | error e =>
          simp only [run, htransaction, hrun, hrollback]
          exact hundone
      | ok u =>
          simp only [run, htransaction, hrun, hrollback]
          cases failure with
          | own message => exact hundone.trans (ihnext hnext db₃)
          | database e => exact hundone

/-! ## A unit of work -/

/-- How a unit of work ends: it is committed as a whole, or nothing of it is. -/
inductive UnitEnded (work : NestedWork) (db : Database) :
    Except WorkFailure Unit × Database → Prop where
  | committed {statements : List Text} {db' : Database} (hmeaning : work.meaning = .ok statements)
      (hcommitted : db'.server.committed = db.server.committed ++ [statements])
      (hidle : db'.server.session = .idle) (hflag : db'.inTransaction = false) :
      UnitEnded work db (.ok (), db')
  | thrown {message : Text} {db' : Database} (hmeaning : work.meaning = .error message)
      (hcommitted : db'.server.committed = db.server.committed)
      (hidle : db'.server.session = .idle) (hflag : db'.inTransaction = false) :
      UnitEnded work db (.error (.own message), db')
  | failed {e : Text} {db' : Database} (hcommitted : db'.server.committed = db.server.committed)
      (hrefused : db.Obliging → work.fetches = true) : UnitEnded work db (.error (.database e), db')

/-- `BEGIN` on an idle connection. -/
theorem begin_idle {db : Database} (hidle : db.server.session = .idle) :
    db.Uncommitted (db.transaction []).2 ∧
      ((∃ u, (db.transaction []).1 = .ok u) ∧ (db.transaction []).2.Open ⟨[], []⟩ ∨
        (∃ e, (db.transaction []).1 = .error e) ∧ ¬ db.Obliging) := by
  obtain ⟨hok, hafter⟩ := transaction_begin_spec db
  have haccepts : db.accepts .begin = db.nextAnswer.accepts := by
    rw [accepts, hidle]
    rfl
  rw [hafter]
  refine ⟨⟨?_, fun ho => ho.pqExec .begin⟩, ?_⟩
  · show (db.pqExec .begin).2.server.committed = _
    rw [committed_pq_exec, Session.exec_commits, hidle]
    simp [Session.commits]
  · obtain ⟨u, hu, htrue⟩ | ⟨e, he, hfalse⟩ := ok_or_error (db.transaction []).1
    · refine .inl ⟨⟨u, hu⟩, rfl, ?_⟩
      rw [hok, haccepts] at htrue
      show (db.pqExec .begin).2.server.session = _
      rw [session_pq_exec, hidle]
      cases hanswer : db.nextAnswer with
      | error e =>
          rw [hanswer] at htrue
          cases htrue
      | commandOk => rfl
      | tuplesOk rows => rfl
    · refine .inr ⟨⟨e, he⟩, fun ho => ?_⟩
      rw [hok, haccepts, ho.nextAnswer] at hfalse
      cases hfalse

/-- `COMMIT` in an open transaction. -/
theorem commit_open {db : Database} {b : Block} (h : db.Open b) :
    (∃ u, db.commit.1 = .ok u) ∧
        db.commit.2.server.committed = db.server.committed ++ [b.pending] ∧
        db.commit.2.server.session = .idle ∧ db.commit.2.inTransaction = false ∨
      (∃ e, db.commit.1 = .error e) ∧ db.commit.2.server.committed = db.server.committed ∧
        ¬ db.Obliging := by
  obtain ⟨hok, hafter⟩ := commit_spec db
  have haccepts : db.accepts .commit = db.nextAnswer.accepts := by
    rw [accepts, h.session]
    rfl
  have hcommits : (db.pqExec .commit).2.server.committed =
      db.server.committed ++ if db.nextAnswer.accepts then [b.pending] else [] := by
    rw [committed_pq_exec, Session.exec_commits, h.session]
    rfl
  rw [hafter]
  obtain ⟨u, hu, htrue⟩ | ⟨e, he, hfalse⟩ := ok_or_error db.commit.1
  · have hanswer : db.nextAnswer.accepts = true := by
      rw [← haccepts, ← hok, htrue]
    refine .inl ⟨⟨u, hu⟩, ?_, ?_, ?_⟩
    · show (db.pqExec .commit).2.server.committed = _
      rw [hcommits, if_pos hanswer]
    · show (db.pqExec .commit).2.server.session = _
      rw [session_pq_exec, Session.exec_ends _ _ rfl]
    · show (db.inTransaction && !db.accepts .commit) = false
      rw [haccepts, hanswer, Bool.not_true, Bool.and_false]
  · have hanswer : db.nextAnswer.accepts = false := by
      rw [← haccepts, ← hok, hfalse]
    refine .inr ⟨⟨e, he⟩, ?_, fun ho => ?_⟩
    · show (db.pqExec .commit).2.server.committed = _
      rw [hcommits, hanswer]
      exact List.append_nil _
    · rw [ho.nextAnswer] at hanswer
      cases hanswer

/-- `ROLLBACK` in an open transaction. -/
theorem rollback_open {db : Database} {b : Block} (h : db.Open b) :
    (db.rollback []).2.server.session = .idle ∧ (db.rollback []).2.inTransaction = false := by
  rw [(rollback_all_spec db h.flag).2]
  refine ⟨?_, rfl⟩
  show (db.pqExec .rollback).2.server.session = .idle
  rw [session_pq_exec, Session.exec_ends _ _ rfl]

/-- The server reads the texts of a plain unit of work as they were meant. -/
theorem unit_understood {grammar : Grammar} {work : NestedWork} (h : work.Plain grammar)
    (db : Database) : grammar.Understood db (work.unit db).2 := by
  have hbegun : grammar.Understood db (db.transaction []).2 :=
    Grammar.understood_transaction db (.inl rfl)
  unfold NestedWork.unit
  cases htransaction : db.transaction [] with
  | mk r db₁ =>
  rw [htransaction] at hbegun
  cases r with
  | error e => exact hbegun
  | ok u =>
  have hdone := hbegun.trans (run_understood h db₁)
  dsimp only
  cases hrun : work.run db₁ with
  | mk r db₂ =>
  rw [hrun] at hdone
  cases r with
  | error failure => exact hdone.trans (Grammar.understood_rollback db₂ (.inl rfl))
  | ok u =>
  have hcommitted := hdone.trans (Grammar.understood_commit db₂)
  dsimp only
  cases hcommit : db₂.commit with
  | mk r db₃ =>
  rw [hcommit] at hcommitted
  cases r with
  | ok u => exact hcommitted
  | error e => exact hcommitted.trans (Grammar.understood_rollback db₃ (.inl rfl))

/-- On an idle connection, whatever the server refuses, a unit of work is committed as a whole, or
nothing of it is. -/
theorem unit_ended {work : NestedWork} (hdistinct : work.Distinct) {db : Database}
    (hidle : db.server.session = .idle) : UnitEnded work db (work.unit db) := by
  obtain ⟨hbegun, hresult⟩ := begin_idle hidle
  cases htransaction : db.transaction [] with
  | mk r db₁ =>
  rw [htransaction] at hbegun hresult
  obtain ⟨⟨u, rfl⟩, hopen⟩ | ⟨⟨e, rfl⟩, hrefused⟩ := hresult
  swap
  · simp only [NestedWork.unit, htransaction]
    exact .failed hbegun.committed fun ho => absurd ho hrefused
  obtain ⟨hdone, hended⟩ := run_ended hdistinct hopen
  cases hrun : work.run db₁ with
  | mk r db₂ =>
  rw [hrun] at hdone hended
  have hsofar := hbegun.trans hdone
  have hundone := hsofar.trans (uncommitted_rollback db₂ [])
  cases hended with
  | @returns statements made db' hmeaning hopen' hmade =>
      have hcommit := commit_open hopen'
      cases hcommitted : db₂.commit with
      | mk r db₃ =>
      rw [hcommitted] at hcommit
      simp only [NestedWork.unit, htransaction, hrun, hcommitted]
      obtain ⟨⟨u, rfl⟩, hlast, hsession, hflag⟩ | ⟨⟨e, rfl⟩, hlast, hrefused⟩ := hcommit
      · refine .committed hmeaning ?_ hsession hflag
        rw [hlast, hsofar.committed]
        rfl
      · refine .failed ?_ fun ho => absurd (hsofar.obliging ho) hrefused
        rw [(uncommitted_rollback db₃ []).committed, hlast, hsofar.committed]
  | @throws message pending made db' hmeaning hopen' hmade =>
      simp only [NestedWork.unit, htransaction, hrun]
      obtain ⟨hsession, hflag⟩ := rollback_open hopen'
      exact .thrown hmeaning hundone.committed hsession hflag
  | @fails e db' hrefused =>
      simp only [NestedWork.unit, htransaction, hrun]
      exact .failed hundone.committed fun ho => hrefused (hbegun.obliging ho)

/-- An order with two sections, of which one throws. -/
def order : NestedWork :=
  .execute "INSERT INTO orders VALUES (1)"
    (.attempt "discount"
      (.execute "UPDATE orders SET price = 5"
        (.attempt "voucher" (.execute "DELETE FROM vouchers" .done) (.throw "no discount")))
      (.attempt "stock" (.execute "UPDATE stock SET pieces = 9" .done) .done))

/-- The commands in the texts of the order, which differ in their first letters and lengths. -/
def orderReads (text : Text) : List Command :=
  match text.head? with
  | some 'B' => [.begin]
  | some 'C' => [.commit]
  | some 'S' => [.savepoint (text.drop 11).dropLast]
  | some 'R' => if text.length = 8 then [.rollback] else [.rollbackTo (text.drop 23).dropLast]
  | _ => [.statement text]

def orderGrammar : Grammar where
  reads := orderReads
  reads_control := by
    decide +kernel
  reads_savepoint := by
    intro name _
    show [Command.savepoint (name ++ ['"']).dropLast] = _
    rw [List.dropLast_concat]
  reads_rollbackTo := by
    intro name _
    have hlong : (Command.rollbackTo name).text.length ≠ 8 := by
      show (("ROLLBACK TO SAVEPOINT \"" : Text) ++ name ++ ("\"" : Text)).length ≠ 8
      have hfront : ("ROLLBACK TO SAVEPOINT \"" : Text).length = 23 := rfl
      rw [List.length_append, List.length_append, hfront]
      omega
    show (if (Command.rollbackTo name).text.length = 8 then [Command.rollback]
      else [Command.rollbackTo (name ++ ['"']).dropLast]) = _
    rw [if_neg hlong, List.dropLast_concat]

/-- The statements of the section that threw are not committed. -/
example : (order.unit (.connect [] [])).2.server.committed =
    [[("INSERT INTO orders VALUES (1)" : Text), ("UPDATE stock SET pieces = 9" : Text)]] := by
  decide +kernel

end NestedWork

end Brazier
