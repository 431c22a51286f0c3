import Brazier.Database.SQLSchemaBuilder
import Brazier.Database.Migrations.Commands
import Mathlib.Data.Finset.Lattice.Lemmas

/-!
# Migrations from nothing

A chain of migrations is to begin with the one that creates the table `migrations`, whatever is in
the database. The constructor of the manager reads that table first. `starts_from_nothing` says
that the names of the listed migrations are recorded at the end exactly when the table is there,
records the first migration, and keeps its names under the statements of the others.
-/

namespace Brazier

open ProofLib (Ends Throughout)

namespace MigrationManager

/-- `MigrationMigrationsCreate`, with `typeid(MigrationMigrationsCreate).name()`. -/
def migrationMigrationsCreate (name : Text) : Migration where
  name := name
  up :=
    let builder := SQLSchemaBuilder.ofTable "migrations"
    let builder := builder.addColumn "id SERIAL PRIMARY KEY"
    let builder := builder.addColumn "name VARCHAR(255) NOT NULL"
    [builder.createTable, builder.addIndex "idx_name" ["name"]]
  down := (SQLSchemaBuilder.ofTable "migrations").dropTable

/-- The statement that creates the table. -/
def createTable : Text :=
  "CREATE TABLE migrations (id SERIAL PRIMARY KEY, name VARCHAR(255) NOT NULL);"

/-- The statement that creates its index. -/
def createIndex : Text := "CREATE INDEX idx_name ON migrations (name);"

/-- What `MigrationMigrationsCreate::up` returns. -/
theorem up_create (name : Text) :
    (migrationMigrationsCreate name).up = [createTable, createIndex] := by
  have htexts : (migrationMigrationsCreate []).up = [createTable, createIndex] := by
    decide +kernel
  exact htexts

/-- Construct a `MigrationManager` and run `migrateAll<MigrationMigrationsCreate, Ms...>()`. -/
def startMigrations (pqEscapeLiteral : Text → Option Text) (name : Text) (Ms : List Migration)
    (db : Database) : Except Text Unit × Database :=
  match ofDatabase pqEscapeLiteral db with
  | (.error e, db) => (.error e, db)
  | (.ok m, _) =>
      let (result, m) := (migrateAll (migrationMigrationsCreate name :: Ms)).outcome m
      (result, m.db)

/-! ## The constructor -/

/-- The names in rows with one column. -/
theorem loadNames_rows (values : List Text) :
    loadNames (values.map (fun value => Database.rowMap ["name"] [value])) = values.toFinset := by
  have hfold : ∀ names : Finset Text,
      (values.map (fun value => Database.rowMap ["name"] [value])).foldl loadName names =
        names ∪ values.toFinset := by
    induction values with
    | nil => simp
    | cons value rest ih =>
        intro names
        have hrow : (Database.rowMap ["name"] [value])[("name" : Text)]? = some value := by
          simp [Database.rowMap]
        rw [List.map_cons, List.foldl_cons, loadName, hrow, ih, List.toFinset_cons,
          Finset.insert_union, Finset.union_insert]
  exact (hfold ∅).trans (Finset.empty_union _)

/-- The query is sent as it is. -/
theorem query_selectNames (pqEscapeLiteral : Text → Option Text) (db : Database) :
    Database.queryToVector pqEscapeLiteral db selectNames [] =
      ((db.fetch selectNames).1.map (fun rows => rows.values.map (Database.rowMap rows.columns)),
        (db.fetch selectNames).2) := by
  have hcount : selectNames.count '?' = ([] : List Text).length := by decide
  unfold Database.queryToVector Database.fetchTemplate
  rw [if_pos hcount]
  rfl

/-- The constructor when the query is refused. -/
theorem ofDatabase_refused (pqEscapeLiteral : Text → Option Text) {db : Database} {e : Text}
    (hidle : db.server.session = .idle) (hans : db.nextAnswer = .error e) :
    ofDatabase pqEscapeLiteral db =
      (.error "std::exception", db.send (.statement selectNames)) := by
  have hfetch : db.fetch selectNames = (.error e, db.send (.statement selectNames)) := by
    have hexec : db.pqExec (.statement selectNames) =
        (.fatalError e, db.send (.statement selectNames)) := by
      refine Prod.ext ?_ rfl
      simp [Database.pqExec, PgServer.exec, hidle, hans, Session.exec, execIdle]
    unfold Database.fetch
    rw [hexec]
    rfl
  unfold ofDatabase
  rw [query_selectNames, hfetch]
  rfl

/-- The constructor when the query returns names. -/
theorem ofDatabase_loaded (pqEscapeLiteral : Text → Option Text) {db : Database}
    {values : List Text} (hidle : db.server.session = .idle)
    (hans : db.nextAnswer = .tuplesOk ⟨["name"], values.map (fun value => [value])⟩) :
    ofDatabase pqEscapeLiteral db =
      (.ok ⟨db.send (.statement selectNames), values.toFinset⟩,
        db.send (.statement selectNames)) := by
  have hfetch : db.fetch selectNames = (.ok ⟨["name"], values.map (fun value => [value])⟩,
      db.send (.statement selectNames)) := by
    have hexec : db.pqExec (.statement selectNames) =
        (.tuplesOk ⟨["name"], values.map (fun value => [value])⟩,
          db.send (.statement selectNames)) := by
      refine Prod.ext ?_ rfl
      simp [Database.pqExec, PgServer.exec, hidle, hans, Session.exec, execIdle]
    unfold Database.fetch
    rw [hexec]
  have hrows : (values.map (fun value => [value])).map (Database.rowMap ["name"]) =
      values.map (fun value => Database.rowMap ["name"] [value]) :=
    List.map_map
  unfold ofDatabase
  rw [query_selectNames, hfetch]
  simp only [Except.map, hrows, loadNames_rows]

end MigrationManager

/-! ## The server -/

open MigrationManager

/-- A server that may have a table of migrations: `names` is what the table records. The fields
after it say what the server does with two statements of the manager. -/
structure MigrationsServer (S : Type) extends Sql S where
  names : S → Option (Finset Text)
  select_missing : ∀ s, names s = none → ∃ e, answer s selectNames = .error e
  select_present : ∀ s recorded, names s = some recorded → ∃ values : List Text,
    answer s selectNames = .tuplesOk ⟨["name"], values.map (fun value => [value])⟩ ∧
      values.toFinset = recorded
  select_effect : ∀ s, effect selectNames s = s
  create_present : ∀ s recorded, names s = some recorded → ∃ e, answer s createTable = .error e

/-! ## Rows -/

/-- The statements of the migration take no name out of the table, and the one for its row puts
its name in. -/
structure KeepsRows {S : Type} (server : MigrationsServer S) (M : Migration) : Prop where
  up : ∀ sql ∈ M.up, ∀ s recorded, server.names s = some recorded →
    ∃ after, server.names (server.effect sql s) = some after ∧ recorded ⊆ after
  row : ∀ s recorded, server.names s = some recorded →
    server.names (server.effect (insertRow M.name) s) = some (insert M.name recorded)

section Rows

variable {S : Type} {server : MigrationsServer S} {s : S} {recorded : Finset Text}

/-- Statements that take no name out of the table. -/
theorem names_play {sqls : List Text}
    (hsqls : ∀ sql ∈ sqls, ∀ s recorded, server.names s = some recorded →
      ∃ after, server.names (server.effect sql s) = some after ∧ recorded ⊆ after)
    (h : server.names s = some recorded) :
    ∃ after, server.names (server.play s sqls) = some after ∧ recorded ⊆ after := by
  induction sqls generalizing s recorded with
  | nil => exact ⟨recorded, h, Finset.Subset.refl recorded⟩
  | cons sql rest ih =>
      obtain ⟨hsql, hrest⟩ := List.forall_mem_cons.mp hsqls
      obtain ⟨between, hbetween, hsub⟩ := hsql s recorded h
      obtain ⟨after, hafter, hsub'⟩ := ih hrest hbetween
      exact ⟨after, hafter, hsub.trans hsub'⟩

/-- One migration enters its name. -/
theorem KeepsRows.names_statements {M : Migration} (hkeeps : KeepsRows server M)
    (h : server.names s = some recorded) :
    ∃ after, server.names (server.play s (statements M)) = some after ∧
      insert M.name recorded ⊆ after := by
  obtain ⟨between, hbetween, hsub⟩ := names_play hkeeps.up h
  refine ⟨insert M.name between, ?_, Finset.insert_subset_insert M.name hsub⟩
  rw [statements, Sql.play_append]
  exact hkeeps.row _ between hbetween

/-- Migrations one after the other enter their names. -/
theorem names_applied {applied : List Migration} (hkeeps : ∀ M ∈ applied, KeepsRows server M)
    (h : server.names s = some recorded) :
    ∃ after, server.names (server.play s (applied.flatMap statements)) = some after ∧
      recorded ⊆ after ∧ ∀ M ∈ applied, M.name ∈ after := by
  induction applied generalizing s recorded with
  | nil => exact ⟨recorded, h, Finset.Subset.refl recorded, List.forall_mem_nil _⟩
  | cons M rest ih =>
      obtain ⟨hM, hrest⟩ := List.forall_mem_cons.mp hkeeps
      obtain ⟨between, hbetween, hsub⟩ := hM.names_statements h
      obtain ⟨hname, hsub⟩ := Finset.insert_subset_iff.mp hsub
      obtain ⟨after, hafter, hsub', hnames⟩ := ih hrest hbetween
      refine ⟨after, ?_, hsub.trans hsub', List.forall_mem_cons.mpr ⟨hsub' hname, hnames⟩⟩
      rw [List.flatMap_cons, Sql.play_append]
      exact hafter

end Rows

/-! ## The chain on an honest server -/

namespace MigrationManager

variable {S : Type} {server : MigrationsServer S} {base : S} {db : Database} {name : Text}
  {Ms applied rest : List Migration} {sent : List Command} {recorded : Finset Text}
  {m : MigrationManager}

/-- When the table is there, the statement that creates it is not accepted. -/
theorem create_refused {tail : List Command} (hab : db.server.session.isAborted = false)
    (hnames : server.names (server.seen base db) = some recorded)
    (hhonest : server.Honest base db (commands (migrationMigrationsCreate name) ++ tail)) :
    ¬ db.AcceptsAll (commands (migrationMigrationsCreate name)) := by
  intro haccepts
  have hcommands : commands (migrationMigrationsCreate name) =
      [.begin, .savepoint (savepointName name)] ++ .statement createTable ::
        [.statement createIndex, .statement (insertRow name), .commit] := by
    rw [commands_eq, statements, up_create]
    rfl
  rw [hcommands, Database.acceptsAll_append] at haccepts
  rw [hcommands, List.append_assoc, Sql.honest_append] at hhonest
  have hopened : ∀ c ∈ [.begin, .savepoint (savepointName name)], Database.Undoes c = false := by
    simp [Database.Undoes]
  obtain ⟨-, hseen⟩ := Sql.seen_sendAll server.toSql base hab hopened haccepts.1
  -- what the block sees is still what was stored, so there is a table
  have hthere : server.names (server.seen base
      (db.sendAll [.begin, .savepoint (savepointName name)])) = some recorded := by
    rw [hseen]
    exact hnames
  obtain ⟨e, hrefused⟩ := server.create_present _ recorded hthere
  have hans : (db.sendAll [.begin, .savepoint (savepointName name)]).nextAnswer = .error e :=
    hhonest.2.1.trans hrefused
  have haccepted := (Bool.and_eq_true_iff.mp haccepts.2.1).2
  rw [hans] at haccepted
  cases haccepted

/-- When the table is there and does not record the first migration, the chain stops at it and
changes nothing. -/
theorem stored_of_unrecorded {start : MigrationManager}
    (hidle : start.db.server.session = .idle)
    (h : Applied start (migrationMigrationsCreate name :: Ms) applied rest sent m)
    (hnames : server.names (server.stored base start.db) = some recorded)
    (hname : name ∉ start.executedMigrations)
    (hhonest : server.Honest base start.db (applied.flatMap commands ++ sent)) :
    server.stored base m.db = server.stored base start.db := by
  have hab := Session.not_aborted_of_idle hidle
  have horder := h.order
  have hfresh : fresh start.executedMigrations (migrationMigrationsCreate name :: Ms) = _ :=
    if_neg hname
  rw [hfresh] at horder
  cases applied with
  | nil =>
      have hfails := h.failed _ _ horder.symm
      obtain ⟨flag, hdb⟩ := h.db
      have hcommitted := Sql.committed_of_fails hab hfails hhonest
      rw [Sql.stored, Sql.stored, hdb]
      exact congrArg (fun committed => server.play base committed.flatten) hcommitted
  | cons M more =>
      obtain ⟨rfl, -⟩ := List.cons.inj horder
      rw [List.flatMap_cons, List.append_assoc] at hhonest
      have haccepts := h.accepts
      rw [List.flatMap_cons, Database.acceptsAll_append] at haccepts
      rw [← Sql.seen_of_idle hidle] at hnames
      exact absurd haccepts.1 (create_refused hab hnames hhonest)

/-- The statements of the migrations succeed when they are sent. -/
def Succeed (Ms : List Migration) (db : Database) (cmds : List Command) : Prop :=
  Throughout Database.send
    (fun db cmd => (∃ M ∈ Ms, cmd ∈ (statements M).map .statement) → db.accepts cmd = true) db cmds

/-- When the first migration is recorded and the statements of the others succeed, the chain runs
them all. -/
theorem rest_of_recorded {start : MigrationManager}
    (hidle : start.db.server.session = .idle)
    (h : Applied start (migrationMigrationsCreate name :: Ms) applied rest sent m)
    (hname : name ∈ start.executedMigrations)
    (hhonest : server.Honest base start.db (applied.flatMap commands ++ sent))
    (hsucceed : Succeed Ms start.db (applied.flatMap commands ++ sent)) : rest = [] := by
  cases rest with
  | nil => rfl
  | cons M later =>
      exfalso
      have hM : M ∈ fresh start.executedMigrations (migrationMigrationsCreate name :: Ms) := by
        rw [h.order]
        exact List.mem_append_right applied List.mem_cons_self
      have hMs : M ∈ Ms := by
        cases List.mem_cons.mp ((fresh_sublist _ _).subset hM) with
        | inr hrest => exact hrest
        | inl heq =>
            refine absurd ?_ (not_executed_of_fresh hM)
            rwa [heq]
      obtain ⟨before, cmd, after, undo, hscript, haccepts, hrefused, hsent, -⟩ :=
        h.failed M later rfl
      have hsplit : applied.flatMap commands ++ sent =
          applied.flatMap commands ++ (before ++ [cmd]) ++ undo := by
        rw [hsent, List.append_assoc, List.append_assoc, List.singleton_append]
      have hab := Session.not_aborted_of_idle (session_chain hidle applied)
      have hfirst : server.Honest base (start.db.sendAll (applied.flatMap commands))
          (before ++ [cmd]) := by
        rw [hsplit, Sql.honest_append, Sql.honest_append] at hhonest
        exact hhonest.1.2
      obtain ⟨earlier, sql, later', hstatements, hcmd, -⟩ :=
        Sql.statement_of_refused hab hscript hfirst haccepts hrefused
      have hsql : cmd ∈ (statements M).map .statement := by
        rw [hcmd, hstatements]
        exact List.mem_map_of_mem (List.mem_append_right earlier List.mem_cons_self)
      have haccepted : ((start.db.sendAll (applied.flatMap commands)).sendAll before).accepts cmd =
          true := by
        unfold Succeed at hsucceed
        rw [hsplit, ProofLib.throughout_append, ProofLib.throughout_append,
          ProofLib.throughout_append] at hsucceed
        exact hsucceed.1.2.2.1 ⟨M, hMs, hsql⟩
      cases haccepted.symm.trans hrefused

/-- When the chain ran all migrations, what is stored is what their statements make of it. -/
theorem stored_of_applied (server : MigrationsServer S) (base : S) {start : MigrationManager}
    (hidle : start.db.server.session = .idle)
    (h : Applied start (migrationMigrationsCreate name :: Ms) applied [] sent m)
    (hname : name ∈ start.executedMigrations) :
    server.stored base m.db = server.play (server.stored base start.db)
      ((fresh start.executedMigrations Ms).flatMap statements) := by
  have horder : applied = fresh start.executedMigrations Ms := by
    have hfresh : fresh start.executedMigrations (migrationMigrationsCreate name :: Ms) = _ :=
      if_pos hname
    rw [← hfresh, h.order, List.append_nil]
  have hundoes : ∀ cmd ∈ applied.flatMap commands, Database.Undoes cmd = false := by
    intro cmd hcmd
    obtain ⟨M, -, hM⟩ := List.mem_flatMap.mp hcmd
    exact undoes_commands hM
  obtain ⟨flag, hdb⟩ := h.db
  obtain ⟨-, hseen⟩ :=
    Sql.seen_sendAll server.toSql base (Session.not_aborted_of_idle hidle) hundoes h.accepts
  rw [Sql.seen_of_idle hidle, Sql.seen_of_idle (session_chain hidle applied),
    filterMap_chain] at hseen
  rw [(h.finished rfl).1, List.append_nil] at hdb
  rw [← horder, ← hseen, hdb]
  rfl

/-! ## From construction to the last migration -/

/-- The commands that a connection has sent since it was in an earlier state. -/
def newCommands (db db' : Database) : List Command :=
  db'.server.received.drop db.server.received.length

/-- The chain returned, the table is there, and it records every listed migration. -/
structure Started (server : MigrationsServer S) (base : S) (name : Text) (Ms : List Migration)
    (result : Except Text Unit × Database) : Prop where
  returned : result.1 = .ok ()
  recorded : ∃ names, server.names (server.stored base result.2) = some names ∧
    ∀ M ∈ migrationMigrationsCreate name :: Ms, M.name ∈ names

/-- The table is there and records the first migration. -/
def Prepared (server : MigrationsServer S) (base : S) (name : Text) (db : Database) : Prop :=
  ∃ names, server.names (server.stored base db) = some names ∧ name ∈ names

/-- The statements of the listed migrations leave all the names in the table. -/
def Retained (server : MigrationsServer S) (base : S) (name : Text) (Ms : List Migration)
    (db : Database) : Prop :=
  ∀ recorded, server.names (server.stored base db) = some recorded →
    ∃ names, server.names (server.play (server.stored base db)
        ((fresh recorded Ms).flatMap statements)) = some names ∧
      ∀ M ∈ migrationMigrationsCreate name :: Ms, M.name ∈ names

/-- Migrations that keep the rows leave all the names in the table. -/
theorem retained_of_keepsRows (hkeeps : ∀ M ∈ Ms, KeepsRows server M)
    (hprepared : Prepared server base name db) : Retained server base name Ms db := by
  intro recorded hnames
  obtain ⟨names, hthere, hname⟩ := hprepared
  obtain rfl : names = recorded := Option.some.inj (hthere.symm.trans hnames)
  have hkeeps' : ∀ M ∈ fresh names Ms, KeepsRows server M := fun M hM =>
    hkeeps M ((fresh_sublist names Ms).subset hM)
  obtain ⟨after, hafter, hsub, happlied⟩ := names_applied hkeeps' hnames
  refine ⟨after, hafter, List.forall_mem_cons.mpr ⟨hsub hname, ?_⟩⟩
  intro M hM
  have hcovers : M.name ∈ names ∨ ∃ M' ∈ fresh names Ms, M'.name = M.name := fresh_covers hM
  cases hcovers with
  | inl hold => exact hsub hold
  | inr hfresh =>
      obtain ⟨M', hM', heq⟩ := hfresh
      rw [← heq]
      exact happlied M' hM'

/-- New commands are what was sent. -/
theorem newCommands_sendAll (db : Database) (cmds : List Command) :
    newCommands db (db.sendAll cmds) = cmds := by
  unfold newCommands
  rw [Database.received_sendAll, List.drop_left]

/-- The constructor sends its query and nothing else. -/
theorem ofDatabase_send (pqEscapeLiteral : Text → Option Text) (db : Database) :
    (ofDatabase pqEscapeLiteral db).2 = db.send (.statement selectNames) ∧
      ∀ m, (ofDatabase pqEscapeLiteral db).1 = .ok m →
        m.db = db.send (.statement selectNames) := by
  have hfetch : (db.fetch selectNames).2 = db.send (.statement selectNames) :=
    (db.fetch_spec selectNames).2
  unfold ofDatabase
  rw [query_selectNames, hfetch]
  cases (db.fetch selectNames).1 with
  | error e => exact ⟨rfl, fun m h => by cases h⟩
  | ok rows =>
      refine ⟨rfl, fun m h => ?_⟩
      cases h
      rfl

/-- The first new command is the query of the constructor. -/
theorem startMigrations_sends (pqEscapeLiteral : Text → Option Text) (name : Text)
    (Ms : List Migration) (db : Database) :
    ∃ cmds, newCommands db (startMigrations pqEscapeLiteral name Ms db).2 =
      .statement selectNames :: cmds := by
  obtain ⟨hdb, hmanager⟩ := ofDatabase_send pqEscapeLiteral db
  unfold startMigrations
  cases hload : ofDatabase pqEscapeLiteral db with
  | mk result db' =>
      rw [hload] at hdb hmanager
      cases result with
      | error e =>
          refine ⟨[], ?_⟩
          subst hdb
          exact newCommands_sendAll db [.statement selectNames]
      | ok m =>
          have hm := hmanager m rfl
          obtain ⟨-, applied, rest, sent, h⟩ :=
            ends_migrateAll (migrationMigrationsCreate name :: Ms) m
          obtain ⟨flag, hend⟩ := h.db
          refine ⟨applied.flatMap commands ++ sent, ?_⟩
          have hsent := newCommands_sendAll db
            (.statement selectNames :: (applied.flatMap commands ++ sent))
          rw [← hsent]
          simp only [newCommands, hend, hm]
          rfl

/-- The query of the constructor changes nothing. -/
theorem after_select (server : MigrationsServer S) (base : S)
    (hidle : db.server.session = .idle) (hans : db.nextAnswer.accepts = true) :
    (db.send (.statement selectNames)).server.session = .idle ∧
      server.stored base (db.send (.statement selectNames)) = server.stored base db := by
  have hidle' : (db.send (.statement selectNames)).server.session = .idle := by
    rw [Database.session_send, hidle]
    cases db.nextAnswer <;> rfl
  have hacc : db.accepts (.statement selectNames) = true := by
    rw [Database.accepts, hidle, hans]
    rfl
  obtain ⟨-, hseen⟩ := Sql.seen_send server.toSql base (Session.not_aborted_of_idle hidle) rfl hacc
  rw [Sql.seen_of_idle hidle', Sql.seen_of_idle hidle] at hseen
  exact ⟨hidle', hseen.trans (server.select_effect _)⟩

/-- The first answer of an honest run is the one to the query of the constructor. -/
theorem nextAnswer_of_honest {pqEscapeLiteral : Text → Option Text}
    (hidle : db.server.session = .idle)
    (hhonest : server.Honest base db
      (newCommands db (startMigrations pqEscapeLiteral name Ms db).2)) :
    db.nextAnswer = server.answer (server.stored base db) selectNames := by
  obtain ⟨cmds, hcmds⟩ := startMigrations_sends pqEscapeLiteral name Ms db
  rw [hcmds] at hhonest
  rw [← Sql.seen_of_idle hidle]
  exact hhonest.1

/-- When the table is there, the constructor returns and `migrateAll` runs. -/
theorem startMigrations_loaded {pqEscapeLiteral : Text → Option Text}
    (hidle : db.server.session = .idle)
    (hhonest : server.Honest base db
      (newCommands db (startMigrations pqEscapeLiteral name Ms db).2))
    (hnames : server.names (server.stored base db) = some recorded) :
    ∃ applied rest sent m,
      Applied ⟨db.send (.statement selectNames), recorded⟩ (migrationMigrationsCreate name :: Ms)
        applied rest sent m ∧
      startMigrations pqEscapeLiteral name Ms db = (.ok (), m.db) ∧
      newCommands db m.db = .statement selectNames :: (applied.flatMap commands ++ sent) := by
  obtain ⟨values, hselect, hvalues⟩ := server.select_present _ recorded hnames
  have hload := ofDatabase_loaded pqEscapeLiteral hidle
    ((nextAnswer_of_honest hidle hhonest).trans hselect)
  rw [hvalues] at hload
  obtain ⟨hok, applied, rest, sent, h⟩ := ends_migrateAll (migrationMigrationsCreate name :: Ms)
    ⟨db.send (.statement selectNames), recorded⟩
  refine ⟨applied, rest, sent, _, h, ?_, ?_⟩
  · unfold startMigrations
    rw [hload]
    exact Prod.ext hok rfl
  · obtain ⟨flag, hend⟩ := h.db
    have hsent := newCommands_sendAll db
      (.statement selectNames :: (applied.flatMap commands ++ sent))
    rw [← hsent]
    simp only [newCommands, hend]
    rfl

/-- The chain comes to its end exactly when the table is there, records the first migration, and
keeps the names that are recorded. -/
theorem started_iff {pqEscapeLiteral : Text → Option Text} (hidle : db.server.session = .idle)
    (hhonest : server.Honest base db
      (newCommands db (startMigrations pqEscapeLiteral name Ms db).2))
    (hsucceed : Succeed Ms db (newCommands db (startMigrations pqEscapeLiteral name Ms db).2)) :
    Started server base name Ms (startMigrations pqEscapeLiteral name Ms db) ↔
      Prepared server base name db ∧ Retained server base name Ms db := by
  cases hnames : server.names (server.stored base db) with
  | none =>
      -- the query is refused, and the constructor throws
      obtain ⟨e, hselect⟩ := server.select_missing _ hnames
      have hload := ofDatabase_refused pqEscapeLiteral hidle
        ((nextAnswer_of_honest hidle hhonest).trans hselect)
      refine iff_of_false (fun hstarted => ?_) (fun hprepared => ?_)
      · have hreturned := hstarted.returned
        unfold startMigrations at hreturned
        rw [hload] at hreturned
        cases hreturned
      · obtain ⟨names, hthere, -⟩ := hprepared.1
        cases hnames.symm.trans hthere
  | some recorded =>
      obtain ⟨values, hselect, -⟩ := server.select_present _ recorded hnames
      have hans : db.nextAnswer.accepts = true := by
        rw [nextAnswer_of_honest hidle hhonest, hselect]
        rfl
      obtain ⟨applied, rest, sent, m, h, hrun, hcmds⟩ := startMigrations_loaded hidle hhonest hnames
      obtain ⟨hidle', hstored⟩ := after_select server base hidle hans
      rw [hrun, hcmds] at hhonest hsucceed
      rw [hrun]
      by_cases hname : name ∈ recorded
      · have hrest := rest_of_recorded hidle' h hname hhonest.2 hsucceed.2
        subst hrest
        have hend : server.stored base m.db = server.play (server.stored base db)
            ((fresh recorded Ms).flatMap statements) := by
          rw [← hstored]
          exact stored_of_applied server base hidle' h hname
        constructor
        · intro hstarted
          obtain ⟨names, hthere, hall⟩ := hstarted.recorded
          refine ⟨⟨recorded, hnames, hname⟩, fun recorded' hnames' => ?_⟩
          obtain rfl : recorded = recorded' := Option.some.inj (hnames.symm.trans hnames')
          exact ⟨names, by rw [← hend, hthere], hall⟩
        · intro hprepared
          obtain ⟨names, hthere, hall⟩ := hprepared.2 recorded hnames
          exact ⟨rfl, names, by rw [hend, hthere], hall⟩
      · -- the table cannot be created again
        have hsame := stored_of_unrecorded hidle' h (by rw [hstored, hnames]) hname hhonest.2
        refine iff_of_false (fun hstarted => ?_) (fun hprepared => ?_)
        · obtain ⟨names, hend, hrecorded⟩ := hstarted.recorded
          rw [hsame, hstored, hnames] at hend
          cases hend
          exact hname (hrecorded _ List.mem_cons_self)
        · obtain ⟨names, hthere, hmem⟩ := hprepared.1
          cases hnames.symm.trans hthere
          exact hname hmem

/-- Construction and `migrateAll` record the listed migrations exactly when the table is there,
records the first one, and is not robbed of names by the others. For migrations that keep the rows
the first two are enough. -/
theorem starts_from_nothing (server : MigrationsServer S) (base : S)
    (pqEscapeLiteral : Text → Option Text) (name : Text) (Ms : List Migration) (db : Database)
    (hidle : db.server.session = .idle)
    (hhonest : server.Honest base db
      (newCommands db (startMigrations pqEscapeLiteral name Ms db).2))
    (hsucceed : Succeed Ms db (newCommands db (startMigrations pqEscapeLiteral name Ms db).2)) :
    (Started server base name Ms (startMigrations pqEscapeLiteral name Ms db) ↔
        Prepared server base name db ∧ Retained server base name Ms db) ∧
      ((∀ M ∈ Ms, KeepsRows server M) →
        (Started server base name Ms (startMigrations pqEscapeLiteral name Ms db) ↔
          Prepared server base name db)) := by
  have hiff := started_iff hidle hhonest hsucceed
  refine ⟨hiff, fun hkeeps => hiff.trans (and_iff_left_of_imp fun hprepared => ?_)⟩
  exact retained_of_keepsRows hkeeps hprepared

/-- A server that keeps the names of the table, newest first, and nothing else. -/
def nameServer : MigrationsServer (Option (List Text)) where
  answer names sql :=
    match names with
    | none =>
        if sql = selectNames ∨
            (quotedAfter "INSERT INTO migrations (name) VALUES ('" sql).isSome then
          .error "relation does not exist"
        else .commandOk
    | some values =>
        if sql = selectNames then .tuplesOk ⟨["name"], values.map (fun value => [value])⟩
        else if sql = createTable then .error "relation already exists"
        else .commandOk
  effect sql names :=
    match names, quotedAfter "INSERT INTO migrations (name) VALUES ('" sql with
    | some values, some name => some (name :: values)
    | some values, none => some values
    | none, _ => if sql = createTable then some [] else none
  names := Option.map List.toFinset
  select_missing names h := by
    cases names with
    | none => exact ⟨_, if_pos (Or.inl rfl)⟩
    | some values => cases h
  select_present names recorded h := by
    cases names with
    | none => cases h
    | some values => exact ⟨values, if_pos rfl, Option.some.inj h⟩
  select_effect names := by
    have hselect : quotedAfter "INSERT INTO migrations (name) VALUES ('" selectNames = none := by
      decide
    have hcreate : selectNames ≠ createTable := by decide
    cases names with
    | none => exact if_neg hcreate
    | some values => simp only [hselect]
  create_present names recorded h := by
    have hcreate : createTable ≠ selectNames := by decide
    cases names with
    | none => cases h
    | some values => exact ⟨_, (if_neg hcreate).trans (if_pos rfl)⟩

/-- A connection to a database in which the first migration is recorded. -/
def preparedDb : Database :=
  Database.connect [] [.tuplesOk ⟨["name"], [["create"]]⟩]

/-- The statements of the migration leave the names alone. -/
theorem users_migration_keeps_rows : KeepsRows nameServer usersMigration := by
  refine ⟨?_, ?_⟩
  · intro sql hsql names recorded h
    obtain rfl := List.mem_singleton.mp hsql
    have hsame : quotedAfter "INSERT INTO migrations (name) VALUES ('"
        "CREATE TABLE users (id INT);" = none := by decide
    cases names with
    | none => cases h
    | some values =>
        refine ⟨recorded, ?_, Finset.Subset.refl recorded⟩
        simp only [nameServer, hsame]
        exact h
  · intro names recorded h
    have hrow : quotedAfter "INSERT INTO migrations (name) VALUES ('" (insertRow "users") =
        some ("users" : Text) := by decide
    cases names with
    | none => cases h
    | some values =>
        have hvalues : values.toFinset = recorded := Option.some.inj h
        simp only [nameServer, usersMigration, hrow, Option.map_some, List.toFinset_cons, hvalues]

/-- On a database in which the first migration is recorded, another one is run and recorded. -/
theorem users_migration_started :
    Started nameServer (some ["create"]) "create" [usersMigration]
      (startMigrations some "create" [usersMigration] preparedDb) :=
  (starts_from_nothing nameServer (some ["create"]) some "create" [usersMigration] preparedDb rfl
    (by unfold Sql.Honest; decide +kernel) (by unfold Succeed; decide +kernel)).2
    (List.forall_mem_singleton.mpr users_migration_keeps_rows) |>.mpr ⟨_, rfl, by decide⟩

/-- A connection to a database without the table. -/
def emptyDb : Database := Database.connect [] [.error "relation does not exist"]

/-- On a database without the table the constructor throws. -/
theorem empty_database_not_started :
    nameServer.Honest none emptyDb
        (newCommands emptyDb (startMigrations some "create" [] emptyDb).2) ∧
      Succeed [] emptyDb (newCommands emptyDb (startMigrations some "create" [] emptyDb).2) ∧
      ¬ Started nameServer none "create" [] (startMigrations some "create" [] emptyDb) := by
  refine ⟨by unfold Sql.Honest; decide +kernel, by unfold Succeed; decide +kernel, fun h => ?_⟩
  have hload : ofDatabase some emptyDb =
      (.error "std::exception", emptyDb.send (.statement selectNames)) :=
    ofDatabase_refused some rfl rfl
  have hreturned := h.returned
  unfold startMigrations at hreturned
  rw [hload] at hreturned
  cases hreturned

end MigrationManager

end Brazier
