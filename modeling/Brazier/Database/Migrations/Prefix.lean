import Brazier.Database.Script
import Brazier.Database.Migrations.Atomicity

/-!
# Migrations run as a prefix

`fresh` lists the migrations that `migrateAll` has to run, and `commands` what each of them sends.
`ends_migrate` says what one call of `migrate` sends, and `migrateAll_prefix` what the whole chain
does: the commands of a prefix of the fresh migrations, each accepted, and of the next one as far
as it comes.
-/

namespace Brazier.MigrationManager

open ProofLib (Ends)

/-- The migrations of the list that are not executed yet, each at its first place. -/
def fresh (executed : Finset Text) : List Migration → List Migration
  | [] => []
  | M :: rest =>
      if M.name ∈ executed then fresh executed rest
      else M :: fresh (insert M.name executed) rest

/-- What `migrate` sends for a migration when everything is accepted. -/
def commands (M : Migration) : List Command :=
  [.begin, .savepoint (savepointName M.name)] ++ M.up.map .statement ++
    [.statement (insertRow M.name)] ++ [.commit]

/-- The fresh migrations keep the order of the list. -/
theorem fresh_sublist (executed : Finset Text) (Ms : List Migration) :
    (fresh executed Ms).Sublist Ms := by
  induction Ms generalizing executed with
  | nil => exact List.Sublist.refl []
  | cons M rest ih =>
      unfold fresh
      by_cases hmem : M.name ∈ executed
      · rw [if_pos hmem]
        exact (ih executed).cons M
      · rw [if_neg hmem]
        exact (ih (insert M.name executed)).cons_cons M

/-- No fresh migration is executed. -/
theorem not_executed_of_fresh {executed : Finset Text} {Ms : List Migration} {M : Migration}
    (h : M ∈ fresh executed Ms) : M.name ∉ executed := by
  induction Ms generalizing executed with
  | nil => exact absurd h List.not_mem_nil
  | cons M' rest ih =>
      unfold fresh at h
      by_cases hmem : M'.name ∈ executed
      · rw [if_pos hmem] at h
        exact ih h
      · rw [if_neg hmem] at h
        cases List.mem_cons.mp h with
        | inl heq => rwa [heq]
        | inr hrest => exact fun hex => ih hrest (Finset.mem_insert_of_mem hex)

/-- The name of every migration of the list is executed or that of a fresh one. -/
theorem fresh_covers {executed : Finset Text} {Ms : List Migration} {M : Migration} (h : M ∈ Ms) :
    M.name ∈ executed ∨ ∃ M' ∈ fresh executed Ms, M'.name = M.name := by
  induction Ms generalizing executed with
  | nil => exact absurd h List.not_mem_nil
  | cons first rest ih =>
      unfold fresh
      by_cases hmem : first.name ∈ executed
      · rw [if_pos hmem]
        cases List.mem_cons.mp h with
        | inl heq => exact Or.inl (by rwa [heq])
        | inr hrest => exact ih hrest
      · rw [if_neg hmem]
        cases List.mem_cons.mp h with
        | inl heq => exact Or.inr ⟨first, List.mem_cons_self, by rw [heq]⟩
        | inr hrest =>
            have hcovers : M.name ∈ insert first.name executed ∨
                ∃ M' ∈ fresh (insert first.name executed) rest, M'.name = M.name := ih hrest
            cases hcovers with
            | inr hfresh =>
                obtain ⟨M', hM', hname⟩ := hfresh
                exact Or.inr ⟨M', List.mem_cons_of_mem first hM', hname⟩
            | inl hexecuted =>
                cases Finset.mem_insert.mp hexecuted with
                | inl heq => exact Or.inr ⟨first, List.mem_cons_self, heq.symm⟩
                | inr hold => exact Or.inl hold

/-! ## One migration -/

/-- A part of `migrate`: its commands were all accepted, and the names are in the set, or one was
refused. -/
def Sent (start : Database) (flag : Bool) (script : List Command) (names : Finset Text)
    (result : Except Text Unit) (m : MigrationManager) : Prop :=
  match result with
  | .ok _ => start.AcceptsAll script ∧ m.db = (start.sendAll script).setFlag flag ∧
      m.executedMigrations = names
  | .error _ => ∃ sent flag', m.db = (start.sendAll sent).setFlag flag' ∧
      start.FailsWith script sent

variable {start : Database} {flag flag' : Bool} {script : List Command} {names : Finset Text}
  {m : MigrationManager}

/-- A part that failed has failed for any longer part. -/
theorem Sent.error_mono {e : Text} (h : Sent start flag script names (.error e) m)
    (more : List Command) (flag' : Bool) (names' : Finset Text) :
    Sent start flag' (script ++ more) names' (.error e) m := by
  obtain ⟨sent, flag', hdb, hfails⟩ := h
  exact ⟨sent, flag', hdb, hfails.append more⟩

/-- A call of the connection that sends one more command. -/
theorem ends_send {call : Database → Except Text Unit × Database} {cmd : Command}
    (haccepts : start.AcceptsAll script)
    (hsends : (start.sendAll script).Sends cmd flag (call m.db))
    (hnames : m.executedMigrations = names) :
    Ends (onDb call) m (Sent start flag (script ++ [cmd]) names) := by
  have hrun : (onDb call).outcome m = ((call m.db).1, { m with db := (call m.db).2 }) := rfl
  unfold Ends
  rw [hrun]
  have hok := hsends.ok
  cases hresult : (call m.db).1 with
  | ok a =>
      rw [hresult] at hok
      refine ⟨Database.acceptsAll_snoc.mpr ⟨haccepts, hok.symm⟩, ?_, hnames⟩
      rw [Database.sendAll_append]
      exact hsends.accepted hok.symm
  | error e =>
      rw [hresult] at hok
      obtain ⟨undo, flag', hdb, hundo⟩ := hsends.refused hok.symm
      refine ⟨script ++ cmd :: undo, flag', ?_,
        script, cmd, [], undo, rfl, haccepts, hok.symm, rfl, hundo⟩
      rw [Database.sendAll_append]
      exact hdb

/-- `execute` in the block. -/
theorem ends_execute (sql : Text) (h : Sent start true script names (.ok ()) m) :
    Ends (onDb (fun db => db.execute sql)) m
      (Sent start true (script ++ [.statement sql]) names) := by
  obtain ⟨haccepts, hdb, hnames⟩ := h
  refine ends_send haccepts ?_ hnames
  rw [hdb]
  exact Database.sends_execute _ sql

/-- The loop over the queries. -/
theorem ends_queries (queries : List Text) (h : Sent start true script names (.ok ()) m) :
    Ends (executeQueries queries) m
      (Sent start true (script ++ queries.map .statement) names) := by
  let Inv (rest : List Text) (m : MigrationManager) : Prop := ∃ past, queries = past ++ rest ∧
    Sent start true (script ++ past.map .statement) names (.ok ()) m
  refine ProofLib.ends_forM Inv ?_ ?_ queries ⟨[], rfl, by rwa [List.map_nil, List.append_nil]⟩
  · intro query rest m hinv
    obtain ⟨past, rfl, hsent⟩ := hinv
    refine (ends_execute query hsent).imp ?_
    rintro (e | _) m' hnext
    · have hscript : script ++ (past ++ query :: rest).map Command.statement =
          script ++ past.map .statement ++ [.statement query] ++ rest.map .statement := by simp
      rw [hscript]
      exact hnext.error_mono _ _ _
    · refine ⟨past ++ [query], by simp, ?_⟩
      rw [List.map_append, ← List.append_assoc]
      exact hnext
  · intro m hinv
    obtain ⟨past, hpast, hsent⟩ := hinv
    rw [hpast, List.append_nil]
    exact hsent

/-- One part after another. -/
theorem Sent.bind {x : Action Unit} {f : Unit → Action Unit} {script' : List Command}
    {names' : Finset Text} (hx : Ends x m (Sent start flag script names)) (more : List Command)
    (hscript : script' = script ++ more)
    (hok : ∀ m', Sent start flag script names (.ok ()) m' →
      Ends (f ()) m' (Sent start flag' script' names')) :
    Ends (x >>= f) m (Sent start flag' script' names') := by
  refine ProofLib.Ends.bind hx (fun _ m' h => hok m' h) (fun _ _ h => ?_)
  rw [hscript]
  exact h.error_mono more flag' names'

/-- The row of a migration, then the set. -/
theorem ends_mark (name : Text) (h : Sent start true script names (.ok ()) m) :
    Ends (markMigrationAsExecuted name) m
      (Sent start true (script ++ [.statement (insertRow name)]) (insert name names)) := by
  refine (ends_execute (insertRow name) h).bind ?_ (fun _ _ hthrown => hthrown)
  intro _ m' hsent
  refine ProofLib.ends_modify ⟨hsent.1, hsent.2.1, ?_⟩
  rw [hsent.2.2]

/-- The `try` block of `migrate`. -/
theorem ends_tryUp (M : Migration) (start : MigrationManager) :
    Ends (do applyUp M; onDb (fun db => db.commit)) start
      (Sent start.db false (commands M) (insert M.name start.executedMigrations)) := by
  have hname : savepointName M.name ≠ [] := List.cons_ne_nil _ _
  have hblock : Ends (applyUp M) start (Sent start.db true
      ([.begin, .savepoint (savepointName M.name)] ++ M.up.map .statement ++
        [.statement (insertRow M.name)]) (insert M.name start.executedMigrations)) := by
    have hbegin : Ends (onDb (fun db => db.transaction "")) start
        (Sent start.db true ([] ++ [.begin]) start.executedMigrations) :=
      ends_send trivial (Database.sends_begin start.db) rfl
    refine Sent.bind hbegin (.savepoint (savepointName M.name) :: M.up.map .statement ++
      [.statement (insertRow M.name)]) rfl ?_
    intro m₁ h₁
    have hsavepoint : Ends (onDb (fun db => db.transaction (savepointName M.name))) m₁
        (Sent start.db true ([.begin] ++ [.savepoint (savepointName M.name)])
          start.executedMigrations) := by
      refine ends_send h₁.1 ?_ h₁.2.2
      rw [h₁.2.1]
      exact Database.sends_savepoint _ hname
    refine Sent.bind hsavepoint (M.up.map .statement ++ [.statement (insertRow M.name)]) rfl ?_
    intro m₂ h₂
    refine Sent.bind (ends_queries M.up h₂) [.statement (insertRow M.name)] rfl ?_
    exact fun m₃ h₃ => ends_mark M.name h₃
  refine Sent.bind hblock [.commit] rfl ?_
  intro m hsent
  refine ends_send hsent.1 ?_ hsent.2.2
  rw [hsent.2.1]
  exact Database.sends_commit _

/-- More was sent: commands that undo. -/
def Undone (m m' : MigrationManager) : Prop :=
  ∃ undo flag, m'.db = (m.db.sendAll undo).setFlag flag ∧ ∀ c ∈ undo, Database.Undoes c = true

/-- The handler of `migrate`. -/
theorem ends_handler (M : Migration) (e : Text) (m : MigrationManager) :
    Ends (undoUp M e) m (fun r m' => r = .error e ∧ Undone m m') := by
  refine ends_undoUp_of ?_ ?_ ?_ M e m
  · exact fun m => ⟨[], m.db.inTransaction, rfl, List.forall_mem_nil _⟩
  · intro m m' m'' h h'
    obtain ⟨first, _, hfirst, hundo⟩ := h
    obtain ⟨second, flag, hsecond, hundo'⟩ := h'
    refine ⟨first ++ second, flag, ?_, List.forall_mem_append.mpr ⟨hundo, hundo'⟩⟩
    rw [hsecond, hfirst, Database.sendAll_append, Database.sendAll_setFlag,
      Database.setFlag_setFlag]
  · exact fun name m => m.db.rollback_undoes name

/-- `migrate`. -/
theorem ends_migrate (M : Migration) (start : MigrationManager) :
    Ends (migrate M) start (fun r m =>
      if M.name ∈ start.executedMigrations then r = .ok () ∧ m = start
      else Sent start.db false (commands M) (insert M.name start.executedMigrations) r m) := by
  refine ProofLib.ends_get_bind ?_
  by_cases hmem : M.name ∈ start.executedMigrations
  · simp only [isMigrationExecuted, hmem, decide_true, if_true]
    exact ProofLib.ends_pure ⟨rfl, rfl⟩
  · simp only [isMigrationExecuted, hmem, decide_false, if_false, Bool.false_eq_true]
    refine (ends_tryUp M start).handle (fun _ _ h => h) ?_
    intro e m h
    obtain ⟨sent, _, hdb, hfails⟩ := h
    refine (ends_handler M e m).imp ?_
    intro r m' h'
    obtain ⟨rfl, undo, flag, hdb', hundo⟩ := h'
    refine ⟨sent ++ undo, flag, ?_, hfails.undo hundo⟩
    rw [hdb', hdb, Database.sendAll_append, Database.sendAll_setFlag, Database.setFlag_setFlag]

/-! ## The chain -/

/-- The chain has run the migrations of the list up to the rest: the applied ones are the fresh
ones among them, and their commands were all accepted. -/
structure Chained (start : MigrationManager) (Ms applied rest : List Migration)
    (m : MigrationManager) : Prop where
  order : fresh start.executedMigrations Ms = applied ++ fresh m.executedMigrations rest
  db : ∃ flag, m.db = (start.db.sendAll (applied.flatMap commands)).setFlag flag
  accepts : start.db.AcceptsAll (applied.flatMap commands)
  executed : ∀ M ∈ Ms, M ∈ rest ∨ M.name ∈ m.executedMigrations

/-- Once the next migration is executed, only the ones after it are left. -/
theorem left_of_executed {Ms rest : List Migration} {M : Migration} {names names' : Finset Text}
    (h : ∀ M' ∈ Ms, M' ∈ M :: rest ∨ M'.name ∈ names) (hM : M.name ∈ names')
    (hsub : names ⊆ names') : ∀ M' ∈ Ms, M' ∈ rest ∨ M'.name ∈ names' := by
  intro M' hM'
  cases h M' hM' with
  | inr hdone => exact Or.inr (hsub hdone)
  | inl hleft =>
      cases List.mem_cons.mp hleft with
      | inl heq => exact Or.inr (by rwa [heq])
      | inr hrest => exact Or.inl hrest

/-- A migration that is executed already. -/
theorem Chained.skip {start m : MigrationManager} {Ms applied rest : List Migration}
    {M : Migration} (h : Chained start Ms applied (M :: rest) m)
    (hmem : M.name ∈ m.executedMigrations) : Chained start Ms applied rest m := by
  refine ⟨?_, h.db, h.accepts, left_of_executed h.executed hmem (Finset.Subset.refl _)⟩
  rw [h.order, fresh, if_pos hmem]

/-- A fresh migration whose commands were all accepted. -/
theorem Chained.apply {start m m' : MigrationManager} {Ms applied rest : List Migration}
    {M : Migration} (h : Chained start Ms applied (M :: rest) m)
    (hmem : M.name ∉ m.executedMigrations)
    (hsent : Sent m.db false (commands M) (insert M.name m.executedMigrations) (.ok ()) m') :
    Chained start Ms (applied ++ [M]) rest m' := by
  obtain ⟨flag, hdb⟩ := h.db
  obtain ⟨haccepts, hdb', hnames⟩ := hsent
  have hcommands : (applied ++ [M]).flatMap commands = applied.flatMap commands ++ commands M := by
    rw [List.flatMap_append, List.flatMap_singleton]
  rw [hdb, Database.acceptsAll_setFlag] at haccepts
  rw [hdb, Database.sendAll_setFlag, Database.setFlag_setFlag] at hdb'
  refine ⟨?_, ⟨false, ?_⟩, ?_, ?_⟩
  · rw [h.order, fresh, if_neg hmem, hnames, List.append_assoc, List.singleton_append]
  · rw [hdb', hcommands, Database.sendAll_append]
  · rw [hcommands]
    exact Database.acceptsAll_append.mpr ⟨h.accepts, haccepts⟩
  · rw [hnames]
    exact left_of_executed h.executed (Finset.mem_insert_self _ _) (Finset.subset_insert _ _)

/-- The calls one after the other. -/
theorem ends_chain (Ms : List Migration) (start : MigrationManager) :
    Ends (Ms.forM migrate) start (fun r m => ∃ applied, match r with
      | .ok _ => Chained start Ms applied [] m
      | .error _ => ∃ M rest sent flag,
          fresh start.executedMigrations Ms = applied ++ M :: rest ∧
          m.db = (start.db.sendAll (applied.flatMap commands ++ sent)).setFlag flag ∧
          start.db.AcceptsAll (applied.flatMap commands) ∧
          (start.db.sendAll (applied.flatMap commands)).FailsWith (commands M) sent) := by
  refine ProofLib.ends_forM (fun rest m => ∃ applied, Chained start Ms applied rest m) ?_ ?_ Ms ?_
  · intro M rest m hinv
    obtain ⟨applied, hchained⟩ := hinv
    refine (ends_migrate M m).imp ?_
    intro r m' h
    by_cases hmem : M.name ∈ m.executedMigrations
    · rw [if_pos hmem] at h
      obtain ⟨rfl, rfl⟩ := h
      exact ⟨applied, hchained.skip hmem⟩
    · rw [if_neg hmem] at h
      cases r with
      | ok a => exact ⟨applied ++ [M], hchained.apply hmem h⟩
      | error e =>
          obtain ⟨sent, flag', hdb', hfails⟩ := h
          obtain ⟨flag, hdb⟩ := hchained.db
          rw [hdb, Database.failsWith_setFlag] at hfails
          refine ⟨applied, M, fresh (insert M.name m.executedMigrations) rest, sent, flag', ?_, ?_,
            hchained.accepts, hfails⟩
          · rw [hchained.order, fresh, if_neg hmem]
          · rw [hdb', hdb, Database.sendAll_setFlag, Database.setFlag_setFlag,
              Database.sendAll_append]
  · exact fun m h => h
  · exact ⟨[], rfl, ⟨start.db.inTransaction, rfl⟩, trivial, fun M hM => Or.inl hM⟩

/-- What `migrateAll` comes to: it ran the applied migrations, and the first one of the rest
failed. -/
structure Applied (start : MigrationManager) (Ms applied rest : List Migration)
    (sent : List Command) (m : MigrationManager) : Prop where
  order : fresh start.executedMigrations Ms = applied ++ rest
  db : ∃ flag, m.db = (start.db.sendAll (applied.flatMap commands ++ sent)).setFlag flag
  accepts : start.db.AcceptsAll (applied.flatMap commands)
  finished : rest = [] → sent = [] ∧ ∀ M ∈ Ms, M.name ∈ m.executedMigrations
  failed : ∀ M later, rest = M :: later →
    (start.db.sendAll (applied.flatMap commands)).FailsWith (commands M) sent

/-- `migrateAll` returns. -/
theorem ends_migrateAll (Ms : List Migration) (start : MigrationManager) :
    Ends (migrateAll Ms) start
      (fun r m => r = .ok () ∧ ∃ applied rest sent, Applied start Ms applied rest sent m) := by
  refine (ends_chain Ms start).handle ?_ ?_
  · intro _ m hend
    obtain ⟨applied, hchained⟩ := hend
    have hexecuted : ∀ M ∈ Ms, M.name ∈ m.executedMigrations := fun M hM =>
      (hchained.executed M hM).resolve_left List.not_mem_nil
    refine ⟨rfl, applied, [], [], hchained.order, ?_, hchained.accepts,
      fun _ => ⟨rfl, hexecuted⟩, fun M later h => by cases h⟩
    rw [List.append_nil]
    exact hchained.db
  · intro e m hend
    obtain ⟨applied, M, rest, sent, flag, horder, hdb, haccepts, hfails⟩ := hend
    refine ProofLib.ends_pure ⟨rfl, applied, M :: rest, sent, horder, ⟨flag, hdb⟩, haccepts,
      fun h => (by cases h), fun M' later h => ?_⟩
    obtain ⟨rfl, -⟩ := List.cons.inj h
    exact hfails

/-- When everything is executed, `migrateAll` does nothing. -/
theorem migrateAll_executed {Ms : List Migration} {m : MigrationManager}
    (h : ∀ M ∈ Ms, M.name ∈ m.executedMigrations) :
    (migrateAll Ms).outcome m = (.ok (), m) := by
  have hchain : Ends (Ms.forM migrate) m (fun r m' => r = .ok () ∧ m' = m) := by
    refine ProofLib.ends_forM
      (fun rest m' => m' = m ∧ ∀ M ∈ rest, M.name ∈ m.executedMigrations) ?_ ?_ Ms ⟨rfl, h⟩
    · intro M rest m' hinv
      obtain ⟨rfl, hrest⟩ := hinv
      rw [List.forall_mem_cons] at hrest
      refine (ends_migrate M m').imp ?_
      intro r m'' hend
      rw [if_pos hrest.1] at hend
      obtain ⟨rfl, rfl⟩ := hend
      exact ⟨rfl, hrest.2⟩
    · intro m' hinv
      obtain ⟨rfl, -⟩ := hinv
      exact ⟨rfl, rfl⟩
  have hall : Ends (migrateAll Ms) m (fun r m' => r = .ok () ∧ m' = m) :=
    hchain.handle (fun _ _ hend => hend) (fun _ _ hend => by cases hend.1)
  exact Prod.ext hall.1 hall.2

/-- `migrateAll` returns. It runs a prefix of the fresh migrations, whose commands were all
accepted, and stops at the first one of which a command is refused, having sent nothing of the
later ones. When it ran them all it does nothing the next time. -/
theorem migrateAll_prefix (Ms : List Migration) (start : MigrationManager) :
    ((fresh start.executedMigrations Ms).Sublist Ms ∧
      ∀ M ∈ fresh start.executedMigrations Ms, M.name ∉ start.executedMigrations) ∧
    Ends (migrateAll Ms) start (fun r m => r = .ok () ∧
      ∃ applied rest sent, fresh start.executedMigrations Ms = applied ++ rest ∧
        m.db.server.received = start.db.server.received ++ applied.flatMap commands ++ sent ∧
        start.db.AcceptsAll (applied.flatMap commands) ∧
        match rest with
        | [] => sent = [] ∧ (migrateAll Ms).outcome m = (.ok (), m)
        | M :: _ => (start.db.sendAll (applied.flatMap commands)).FailsWith (commands M) sent) := by
  refine ⟨⟨fresh_sublist _ Ms, fun M hM => not_executed_of_fresh hM⟩, ?_⟩
  refine (ends_migrateAll Ms start).imp ?_
  intro r m hend
  obtain ⟨hok, applied, rest, sent, h⟩ := hend
  obtain ⟨flag, hdb⟩ := h.db
  refine ⟨hok, applied, rest, sent, h.order, ?_, h.accepts, ?_⟩
  · rw [hdb, Database.server_setFlag, Database.received_sendAll, List.append_assoc]
  · cases rest with
    | nil =>
        obtain ⟨hsent, hexecuted⟩ := h.finished rfl
        exact ⟨hsent, migrateAll_executed hexecuted⟩
    | cons M later => exact h.failed M later rfl

end Brazier.MigrationManager
