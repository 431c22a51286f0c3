import Brazier.Database.Grammar
import Brazier.Database.Migrations.MigrationManager

/-!
# Migrations and their rows

A migration is to be committed together with the change of its row, and `executedMigrations` is to
be the names in the committed table. What a statement does to the names in the table is a
parameter. `migrate_concludes` and `rollback_concludes` say what a call can come to, and
`bookkeeping_iff` when that is right: unless everything but `COMMIT` is accepted.
-/

namespace Brazier

/-- The statements done in the open block. -/
def Session.openWork : Session → List Text
  | .inTransaction b => b.pending
  | _ => []

namespace Database

/-- The session is not aborted, and the server accepts the next `n` commands. -/
def Smooth (db : Database) (n : Nat) : Prop :=
  db.server.session.isAborted = false ∧ ∀ answer ∈ db.answers.take n, answer.accepts = true

/-- The server accepts the command after the next `n`. -/
def acceptsAfter (db : Database) (n : Nat) : Bool :=
  ((db.answers.drop n).headD .commandOk).accepts

/-- One more command. -/
theorem smooth_succ (db : Database) (n : Nat) :
    Smooth db (n + 1) ↔ Smooth db n ∧ db.acceptsAfter n = true := by
  unfold Smooth acceptsAfter
  cases hdrop : db.answers.drop n with
  | nil =>
      have hlen : db.answers.length ≤ n := List.drop_eq_nil_iff.mp hdrop
      rw [List.take_of_length_le hlen, List.take_of_length_le (by omega)]
      simp [Answer.accepts]
  | cons answer rest =>
      have htake : db.answers.take (n + 1) = db.answers.take n ++ [answer] := by
        have hget : db.answers[n]? = some answer := by
          rw [← List.head?_drop, hdrop]
          rfl
        rw [List.take_add_one, hget]
        rfl
      simp only [htake, List.forall_mem_append, List.headD_cons]
      simp [and_assoc]

/-- What is accepted throughout is accepted up to any point. -/
theorem Smooth.mono {db : Database} {n k : Nat} (h : Smooth db k) (hle : n ≤ k) : Smooth db n :=
  ⟨h.1, fun answer hmem => h.2 answer (List.take_subset_take_left db.answers hle hmem)⟩

/-- The connection is in the block of a call that started at `start`: `used` commands were
accepted, and among them were the statements `done`. -/
structure Midway (start db : Database) (done : List Text) (used : Nat) : Prop where
  session : ∃ sps, db.server.session =
    .inTransaction ⟨start.server.session.openWork ++ done, sps⟩
  flag : db.inTransaction = true
  answers : db.answers = start.answers.drop used
  smooth : Smooth start used
  committed : db.server.committed = start.server.committed

/-- A further command: it was accepted, or the call stops with nothing committed. -/
structure Continues (start : Database) (done : List Text) (used : Nat)
    (result : Except Text Unit × Database) : Prop where
  ok : result.1.isOk = true → Midway start result.2 done used
  error : result.1.isOk = false →
    result.2.server.committed = start.server.committed ∧ ¬ Smooth start used

variable {start db : Database} {done : List Text} {used : Nat}

/-- The answer that the next command will get. -/
theorem Midway.nextAnswer (h : Midway start db done used) :
    db.nextAnswer.accepts = start.acceptsAfter used := by
  rw [Database.nextAnswer, h.answers, acceptsAfter]

/-- A command that is allowed in every open block. -/
theorem Midway.accepts (h : Midway start db done used) {cmd : Command}
    (hallows : ∀ b, (Session.inTransaction b).allows cmd = true) :
    db.accepts cmd = start.acceptsAfter used := by
  obtain ⟨sps, hsession⟩ := h.session
  rw [Database.accepts, hsession, hallows, h.nextAnswer, Bool.true_and]

/-- An accepted command that stays in the block. -/
theorem Midway.pqExec (h : Midway start db done used) {cmd : Command} {done' : List Text}
    (hends : cmd.endsBlock = false) (hallows : ∀ b, (Session.inTransaction b).allows cmd = true)
    (hdone : ∀ sps, ((Block.mk (start.server.session.openWork ++ done) sps).apply cmd).pending =
      start.server.session.openWork ++ done')
    (hacc : start.acceptsAfter used = true) : Midway start (db.pqExec cmd).2 done' (used + 1) := by
  obtain ⟨sps, hsession⟩ := h.session
  have hblock : db.server.session.block =
      some ⟨start.server.session.openWork ++ done, sps⟩ := by
    rw [hsession]
    rfl
  refine ⟨⟨((Block.mk (start.server.session.openWork ++ done) sps).apply cmd).savepoints, ?_⟩,
    h.flag, ?_, (smooth_succ start used).mpr ⟨h.smooth, hacc⟩, ?_⟩
  · have haccepts : db.accepts cmd = true := (h.accepts hallows).trans hacc
    rw [session_pq_exec, Session.exec_accepted hblock hends haccepts, ← hdone sps]
  · simp [Database.pqExec, h.answers]
  · rw [committed_in_block hblock hends, h.committed]

/-- A command that the server refuses after `used` others ends the smooth run. -/
theorem not_smooth_succ (hacc : start.acceptsAfter used = false) :
    ¬ Smooth start (used + 1) := by
  intro h
  have haccepted := ((smooth_succ start used).mp h).2
  cases haccepted.symm.trans hacc

/-- `execute` in the block. -/
theorem Midway.execute (h : Midway start db done used) (sql : Text) :
    Continues start (done ++ [sql]) (used + 1) (db.execute sql) := by
  obtain ⟨hok, hafter⟩ := db.execute_spec sql
  rw [h.accepts (fun _ => rfl)] at hok hafter
  refine ⟨fun hreturned => ?_, fun hthrew => ?_⟩
  · have hacc : start.acceptsAfter used = true := hok.symm.trans hreturned
    have hnext : Midway start (db.pqExec (.statement sql)).2 (done ++ [sql]) (used + 1) :=
      h.pqExec rfl (fun _ => rfl) (fun _ => by simp [Block.apply]) hacc
    simpa [hafter, hacc] using hnext
  · have hacc : start.acceptsAfter used = false := hok.symm.trans hthrew
    refine ⟨?_, not_smooth_succ hacc⟩
    simp [hafter, hacc, h.flag, committed_rollback, committed_of_refused (h.nextAnswer.trans hacc),
      h.committed]

/-- `transaction` with a name, in the block. -/
theorem Midway.savepoint (h : Midway start db done used) {name : Text} (hname : name ≠ []) :
    Continues start done (used + 1) (db.transaction name) := by
  obtain ⟨hok, hafter⟩ := db.transaction_savepoint_spec hname
  rw [h.flag, h.accepts (fun _ => rfl), Bool.true_and] at hok
  rw [h.flag, if_pos rfl] at hafter
  refine ⟨fun hreturned => ?_, fun hthrew => ?_⟩
  · rw [hafter]
    exact h.pqExec rfl (fun _ => rfl) (fun _ => rfl) (hok.symm.trans hreturned)
  · have hacc : start.acceptsAfter used = false := hok.symm.trans hthrew
    refine ⟨?_, not_smooth_succ hacc⟩
    rw [hafter, committed_of_refused (h.nextAnswer.trans hacc), h.committed]

/-- `transaction` without a name, at the start. -/
theorem continues_begin (start : Database) : Continues start [] 1 (start.transaction []) := by
  obtain ⟨hok, hafter⟩ := start.transaction_begin_spec
  have hcommits : start.server.session.commits .begin = [] := by
    cases start.server.session <;> rfl
  have hcommitted : (start.pqExec .begin).2.server.committed = start.server.committed := by
    rw [committed_pq_exec, Session.exec_commits, hcommits]
    simp
  have hsmooth : Smooth start 1 ↔ start.accepts .begin = true := by
    have hone : Smooth start 1 ↔ _ := smooth_succ start 0
    have hnext : start.acceptsAfter 0 = start.nextAnswer.accepts := rfl
    rw [hone, hnext]
    cases hs : start.server.session <;>
      simp [accepts, Smooth, hs, Session.allows, Session.isAborted]
  refine ⟨fun hreturned => ?_, fun hthrew => ?_⟩
  · have hacc : start.accepts .begin = true := hok.symm.trans hreturned
    obtain ⟨hallows, hans⟩ := Bool.and_eq_true_iff.mp hacc
    rw [hafter]
    refine ⟨?_, rfl, List.drop_one.symm, hsmooth.mpr hacc, hcommitted⟩
    cases hs : start.server.session with
    | idle => exact ⟨[], by cases ha : start.nextAnswer <;>
        simp_all [session_pq_exec, Session.exec, execIdle, Session.openWork, Answer.accepts]⟩
    | inTransaction b => exact ⟨b.savepoints, by cases ha : start.nextAnswer <;>
        simp_all [session_pq_exec, Session.exec, execOpen, Session.openWork, Answer.accepts]⟩
    | aborted b => simp [hs, Session.allows] at hallows
  · rw [hafter]
    refine ⟨hcommitted, fun h => ?_⟩
    cases (hsmooth.mp h).symm.trans (hok.symm.trans hthrew)

/-- `commit` in the block: it commits the block, or nothing. -/
theorem Midway.commit (h : Midway start db done used) :
    db.commit.1.isOk = start.acceptsAfter used ∧
      db.commit.2.server.committed =
        if start.acceptsAfter used then
          start.server.committed ++ [start.server.session.openWork ++ done]
        else start.server.committed := by
  obtain ⟨sps, hsession⟩ := h.session
  obtain ⟨hok, hafter⟩ := db.commit_spec
  refine ⟨hok.trans (h.accepts (fun _ => rfl)), ?_⟩
  rw [hafter, ← h.nextAnswer, ← h.committed, committed_pq_exec, Session.exec_commits, hsession]
  cases db.nextAnswer.accepts <;> simp [Session.commits]

/-- No `rollback` commits anything. -/
theorem committed_of_rollback (db : Database) (name : Text) :
    (db.rollback name).2.server.committed = db.server.committed := by
  cases hflag : db.inTransaction with
  | false => rw [rollback_noop db name hflag]
  | true =>
      cases name with
      | nil => rw [(rollback_all_spec db hflag).2, committed_rollback]
      | cons head rest =>
          rw [(rollback_to_spec db hflag (List.cons_ne_nil head rest)).2, committed_rollback_to]

end Database

namespace MigrationManager

open Database (Midway Continues Smooth)
open ProofLib (Ends)

/-- A part of the `try` block: it came to its end with the batch in the open block, or it stopped
before and changed neither the table nor the set. -/
def Stage (start : MigrationManager) (batch : List Text) (used : Nat) (names : Finset Text)
    (result : Except Text Unit) (m : MigrationManager) : Prop :=
  match result with
  | .ok _ => Midway start.db m.db batch used ∧ m.executedMigrations = names
  | .error _ => m.db.server.committed = start.db.server.committed ∧
      m.executedMigrations = start.executedMigrations ∧ ¬ Smooth start.db used

/-- How a call ends that had something to do. -/
inductive Concluded (start : MigrationManager) (batch : List Text) (used : Nat)
    (names : Finset Text) (m : MigrationManager) : Prop where
  | stopped (smooth : ¬ Smooth start.db used)
      (committed : m.db.server.committed = start.db.server.committed)
      (executed : m.executedMigrations = start.executedMigrations)
  | done (smooth : Smooth start.db used) (accepted : start.db.acceptsAfter used = true)
      (committed : m.db.server.committed =
        start.db.server.committed ++ [start.db.server.session.openWork ++ batch])
      (executed : m.executedMigrations = names)
  | refused (smooth : Smooth start.db used) (accepted : start.db.acceptsAfter used = false)
      (committed : m.db.server.committed = start.db.server.committed)
      (executed : m.executedMigrations = names)

variable {start m : MigrationManager} {batch : List Text} {used : Nat} {names : Finset Text}

/-- A stage that stopped has stopped for any longer stage. -/
theorem Stage.error_mono {used' : Nat} {batch' : List Text} {names' : Finset Text} {e : Text}
    (h : Stage start batch used names (.error e) m) (hle : used ≤ used') :
    Stage start batch' used' names' (.error e) m :=
  ⟨h.1, h.2.1, fun hsmooth => h.2.2 (hsmooth.mono hle)⟩

/-- A call of the connection that leaves the set alone. -/
theorem ends_onDb {call : Database → Except Text Unit × Database}
    (h : Continues start.db batch used (call m.db))
    (hnames : m.executedMigrations = start.executedMigrations) :
    Ends (onDb call) m (Stage start batch used start.executedMigrations) := by
  unfold Ends ProofLib.Throwing.outcome
  have hrun : (onDb call).run.run m =
      ((call m.db).1, { m with db := (call m.db).2 }) := rfl
  rw [hrun]
  cases hresult : (call m.db).1 with
  | ok a => exact ⟨h.ok (by simp [hresult, Except.isOk, Except.toBool]), hnames⟩
  | error e =>
      obtain ⟨hcommitted, hsmooth⟩ := h.error (by simp [hresult, Except.isOk, Except.toBool])
      exact ⟨hcommitted, hnames, hsmooth⟩

/-- The loop over the queries. -/
theorem ends_executeQueries (queries : List Text) (h : Midway start.db m.db batch used)
    (hnames : m.executedMigrations = start.executedMigrations) :
    Ends (executeQueries queries) m
      (Stage start (batch ++ queries) (used + queries.length) start.executedMigrations) := by
  let Inv (rest : List Text) (m : MigrationManager) : Prop := ∃ past, queries = past ++ rest ∧
    Midway start.db m.db (batch ++ past) (used + past.length) ∧
    m.executedMigrations = start.executedMigrations
  refine ProofLib.ends_forM Inv ?_ ?_ queries ⟨[], rfl, by simpa, hnames⟩
  · rintro query rest m ⟨past, rfl, hmid, hsame⟩
    refine (ends_onDb (hmid.execute query) hsame).imp ?_
    rintro (e | _) m' hstage
    · refine hstage.error_mono ?_
      rw [List.length_append, List.length_cons]
      omega
    · refine ⟨past ++ [query], by simp, ?_, hstage.2⟩
      simpa [Nat.add_assoc] using hstage.1
  · intro m ⟨past, hpast, hmid, hsame⟩
    rw [List.append_nil] at hpast
    subst hpast
    exact ⟨hmid, hsame⟩

/-- A row is changed, then the set. -/
theorem ends_row (sql : Text) (change : Finset Text → Finset Text)
    (h : Midway start.db m.db batch used)
    (hnames : m.executedMigrations = start.executedMigrations) :
    Ends (do
        onDb (fun db => db.execute sql)
        modify (fun m => { m with executedMigrations := change m.executedMigrations })) m
      (Stage start (batch ++ [sql]) (used + 1) (change start.executedMigrations)) := by
  refine (ends_onDb (h.execute sql) hnames).bind ?_ ?_
  · intro _ m' hstage
    refine ProofLib.ends_modify ⟨hstage.1, ?_⟩
    rw [hstage.2]
  · intro e m' hstage
    exact hstage.error_mono (le_refl _)

/-- The `try` block of `migrate`, up to `commit`. -/
theorem ends_applyUp (M : Migration) (start : MigrationManager) :
    Ends (applyUp M) start (Stage start (M.up ++ [insertRow M.name]) (M.up.length + 3)
      (insert M.name start.executedMigrations)) := by
  refine (ends_onDb (Database.continues_begin start.db) rfl).bind ?_ ?_
  · intro _ m₁ h₁
    have hname : savepointName M.name ≠ [] := List.cons_ne_nil _ _
    refine (ends_onDb (h₁.1.savepoint hname) h₁.2).bind ?_ ?_
    · intro _ m₂ h₂
      refine (ends_executeQueries M.up h₂.1 h₂.2).bind ?_ ?_
      · intro _ m₃ h₃
        have hrow := ends_row (insertRow M.name) (insert M.name) h₃.1 h₃.2
        rw [show 1 + 1 + M.up.length + 1 = M.up.length + 3 by omega] at hrow
        exact hrow
      · intro e m₃ h₃
        exact h₃.error_mono (by omega)
    · intro e m₂ h₂
      exact h₂.error_mono (by omega)
  · intro e m₁ h₁
    exact h₁.error_mono (by omega)

/-- The `try` block of `rollback`, up to `commit`. -/
theorem ends_applyDown (M : Migration) (start : MigrationManager) :
    Ends (applyDown M) start (Stage start [M.down, deleteRow M.name] 3
      (start.executedMigrations.erase M.name)) := by
  refine (ends_onDb (Database.continues_begin start.db) rfl).bind ?_ ?_
  · intro _ m₁ h₁
    refine (ends_onDb (h₁.1.execute M.down) h₁.2).bind ?_ ?_
    · intro _ m₂ h₂
      exact ends_row (deleteRow M.name) (fun names => names.erase M.name) h₂.1 h₂.2
    · intro e m₂ h₂
      exact h₂.error_mono (by omega)
  · intro e m₁ h₁
    exact h₁.error_mono (by omega)

/-- The operation leaves the committed transactions and the set. -/
def Keeps (m : MigrationManager) (_ : Except Text Unit) (m' : MigrationManager) : Prop :=
  m'.db.server.committed = m.db.server.committed ∧ m'.executedMigrations = m.executedMigrations

/-- An operation in its own `try` block returns, and the states before and after are related as
they were. -/
theorem ends_swallow {R : MigrationManager → MigrationManager → Prop} {x : Action Unit}
    {m : MigrationManager} (hx : Ends x m (fun _ m' => R m m')) :
    Ends (swallow x) m (fun r m' => r = .ok () ∧ R m m') :=
  hx.handle (fun _ _ h => ⟨rfl, h⟩) (fun _ _ h => ProofLib.ends_pure ⟨rfl, h⟩)

/-- The handler of `migrate` throws again, and what every `rollback` keeps it keeps. -/
theorem ends_undoUp_of {R : MigrationManager → MigrationManager → Prop} (hrefl : ∀ m, R m m)
    (htrans : ∀ {m m' m''}, R m m' → R m' m'' → R m m'')
    (hrollback : ∀ name m, R m { m with db := (m.db.rollback name).2 })
    (M : Migration) (e : Text) (m : MigrationManager) :
    Ends (undoUp M e) m (fun r m' => r = .error e ∧ R m m') := by
  have hswallow : ∀ name m, Ends (swallow (onDb (fun db => db.rollback name))) m
      (fun r m' => r = .ok () ∧ R m m') := fun name m => ends_swallow (hrollback name m)
  refine ProofLib.ends_get_bind ?_
  cases hflag : m.db.isInTransaction with
  | false => exact ProofLib.ends_throw ⟨rfl, hrefl m⟩
  | true =>
      refine (hswallow (savepointName M.name) m).bind ?_ ?_
      · intro _ m' h'
        refine (hswallow [] m').bind ?_ ?_
        · intro _ m'' h''
          exact ProofLib.ends_throw ⟨rfl, htrans h'.2 h''.2⟩
        · intro _ m'' h''
          cases h''.1
      · intro _ m' h'
        cases h'.1

/-- `rollback` of the connection leaves the committed transactions and the set. -/
theorem keeps_rollback (name : Text) (m : MigrationManager) :
    Ends (onDb (fun db => db.rollback name)) m (Keeps m) :=
  ⟨Database.committed_of_rollback m.db name, rfl⟩

/-- The handler of `rollback`. -/
theorem ends_undoDown (e : Text) (m : MigrationManager) :
    Ends (undoDown e) m (Keeps m) := by
  have hswallow := ends_swallow (R := fun m m' => Keeps m (.ok ()) m') (keeps_rollback [] m)
  exact hswallow.bind (fun _ _ h => ProofLib.ends_throw h.2) (fun _ _ h => h.2)

/-- The handler of `migrate`. -/
theorem ends_undoUp (M : Migration) (e : Text) (m : MigrationManager) :
    Ends (undoUp M e) m (Keeps m) := by
  have hundo := ends_undoUp_of (R := fun m m' => Keeps m (.ok ()) m') (fun _ => ⟨rfl, rfl⟩)
    (fun h h' => ⟨h'.1.trans h.1, h'.2.trans h.2⟩) (fun name m => keeps_rollback name m) M e m
  exact hundo.imp (fun _ _ h => h.2)

/-- A `try` block that ends with `commit`, and a handler that changes nothing. -/
theorem ends_try_commit {apply : Action Unit} {handler : Text → Action Unit}
    (happly : Ends apply start (Stage start batch used names))
    (hhandler : ∀ e m, Ends (handler e) m (Keeps m)) :
    Ends (tryCatch (do apply; onDb (fun db => db.commit)) handler) start
      (fun _ m => Concluded start batch used names m) := by
  have htry : Ends (do apply; onDb (fun db => db.commit)) start
      (fun _ m => Concluded start batch used names m) := by
    refine happly.bind ?_ ?_
    · intro _ m ⟨hmid, hnames⟩
      obtain ⟨-, hcommitted⟩ := hmid.commit
      unfold Ends
      cases hacc : start.db.acceptsAfter used with
      | true =>
          rw [hacc, if_pos rfl] at hcommitted
          exact .done hmid.smooth hacc hcommitted hnames
      | false =>
          rw [hacc, if_neg (by decide)] at hcommitted
          exact .refused hmid.smooth hacc hcommitted hnames
    · intro e m ⟨hcommitted, hsame, hsmooth⟩
      exact .stopped hsmooth hcommitted hsame
  refine htry.handle (fun _ _ h => h) ?_
  intro e m h
  refine (hhandler e m).imp ?_
  intro _ m' hkeeps
  cases h with
  | stopped hsmooth hcommitted hsame =>
      exact .stopped hsmooth (hkeeps.1.trans hcommitted) (hkeeps.2.trans hsame)
  | done hsmooth hacc hcommitted hnames =>
      exact .done hsmooth hacc (hkeeps.1.trans hcommitted) (hkeeps.2.trans hnames)
  | refused hsmooth hacc hcommitted hnames =>
      exact .refused hsmooth hacc (hkeeps.1.trans hcommitted) (hkeeps.2.trans hnames)

/-- What `migrate` can come to. -/
theorem migrate_concludes (M : Migration) (start : MigrationManager) :
    Ends (migrate M) start (fun _ m =>
      if M.name ∈ start.executedMigrations then m = start
      else Concluded start (M.up ++ [insertRow M.name]) (M.up.length + 3)
        (insert M.name start.executedMigrations) m) := by
  refine ProofLib.ends_get_bind ?_
  by_cases hmem : M.name ∈ start.executedMigrations
  · simp only [isMigrationExecuted, hmem, decide_true, if_true]
    exact ProofLib.ends_pure rfl
  · simp only [isMigrationExecuted, hmem, decide_false, if_false, Bool.false_eq_true]
    exact ends_try_commit (ends_applyUp M start) (ends_undoUp M)

/-- What `rollback` can come to. -/
theorem rollback_concludes (M : Migration) (start : MigrationManager) :
    Ends (rollback M) start (fun _ m =>
      if M.name ∈ start.executedMigrations then
        Concluded start [M.down, deleteRow M.name] 3 (start.executedMigrations.erase M.name) m
      else m = start) := by
  refine ProofLib.ends_get_bind ?_
  by_cases hmem : M.name ∈ start.executedMigrations
  · simp only [isMigrationExecuted, hmem, decide_true, if_true]
    exact ends_try_commit (ends_applyDown M start) ends_undoDown
  · simp only [isMigrationExecuted, hmem, decide_false, if_false, Bool.false_eq_true]
    exact ProofLib.ends_pure rfl

/-! ## The names in the table -/

/-- The names in the table after some statements, each of which does `effect`. -/
def play (effect : Text → Finset Text → Finset Text) (names : Finset Text)
    (statements : List Text) : Finset Text :=
  statements.foldl (fun names sql => effect sql names) names

/-- One list of statements after another. -/
theorem play_append (effect : Text → Finset Text → Finset Text) (names : Finset Text)
    (first second : List Text) :
    play effect names (first ++ second) = play effect (play effect names first) second :=
  List.foldl_append

/-- The names in the committed table. -/
def tableNames (effect : Text → Finset Text → Finset Text) (base : Finset Text)
    (db : Database) : Finset Text :=
  play effect base db.server.committed.flatten

/-- Between two states of the manager the batch was committed as a whole or not at all, and the
set is again what the table holds. -/
structure Bookkept (effect : Text → Finset Text → Finset Text) (base : Finset Text)
    (batch : List Text) (start m : MigrationManager) : Prop where
  names : m.executedMigrations = tableNames effect base m.db
  together : m.db.server.committed = start.db.server.committed ∨
    ∃ before, m.db.server.committed = start.db.server.committed ++ [before ++ batch]

/-- If everything up to `COMMIT` is accepted then so is `COMMIT`, and the statements of the
transaction change the table as the set is changed. -/
def CommitsRightly (effect : Text → Finset Text → Finset Text) (start : MigrationManager)
    (batch : List Text) (used : Nat) (names : Finset Text) : Prop :=
  Smooth start.db used → start.db.acceptsAfter used = true ∧
    play effect start.executedMigrations (start.db.server.session.openWork ++ batch) = names

/-- A call that had something to do keeps the books exactly when its commit is right. -/
theorem Concluded.bookkept_iff {effect : Text → Finset Text → Finset Text} {base : Finset Text}
    (h : Concluded start batch used names m)
    (hsync : start.executedMigrations = tableNames effect base start.db)
    (hnames : names ≠ start.executedMigrations) :
    Bookkept effect base batch start m ↔ CommitsRightly effect start batch used names := by
  cases h with
  | stopped hsmooth hcommitted hsame =>
      refine iff_of_true ⟨?_, Or.inl hcommitted⟩ (fun h => absurd h hsmooth)
      rw [hsame, hsync, tableNames, tableNames, hcommitted]
  | done hsmooth hacc hcommitted hexecuted =>
      have htable : tableNames effect base m.db = play effect start.executedMigrations
          (start.db.server.session.openWork ++ batch) := by
        simp [tableNames, hcommitted, hsync, play_append]
      constructor
      · intro hbook _
        exact ⟨hacc, by rw [← htable, ← hbook.names, hexecuted]⟩
      · intro hright
        exact ⟨by rw [htable, (hright hsmooth).2, hexecuted], Or.inr ⟨_, hcommitted⟩⟩
  | refused hsmooth hacc hcommitted hexecuted =>
      refine iff_of_false ?_ ?_
      · intro hbook
        have htable := hbook.names
        rw [tableNames, hcommitted, ← tableNames, ← hsync, hexecuted] at htable
        exact hnames htable
      · intro hright
        cases (hright hsmooth).1.symm.trans hacc

/-- `migrate` and `rollback` keep the books exactly when a commit that they reach is right. -/
theorem bookkeeping_iff (effect : Text → Finset Text → Finset Text) (base : Finset Text)
    (M : Migration) (start : MigrationManager)
    (hsync : start.executedMigrations = tableNames effect base start.db) :
    (Bookkept effect base (M.up ++ [insertRow M.name]) start ((migrate M).outcome start).2 ↔
      (M.name ∉ start.executedMigrations →
        CommitsRightly effect start (M.up ++ [insertRow M.name]) (M.up.length + 3)
          (insert M.name start.executedMigrations))) ∧
    (Bookkept effect base [M.down, deleteRow M.name] start ((rollback M).outcome start).2 ↔
      (M.name ∈ start.executedMigrations →
        CommitsRightly effect start [M.down, deleteRow M.name] 3
          (start.executedMigrations.erase M.name))) := by
  have hmigrate := migrate_concludes M start
  have hrollback := rollback_concludes M start
  have hidle : ∀ batch, Bookkept effect base batch start start := fun _ => ⟨hsync, Or.inl rfl⟩
  by_cases hmem : M.name ∈ start.executedMigrations
  · simp only [Ends, if_pos hmem] at hmigrate hrollback
    refine ⟨?_, ?_⟩
    · rw [hmigrate]
      exact iff_of_true (hidle _) (fun h => absurd hmem h)
    · rw [hrollback.bookkept_iff hsync (Finset.erase_ne_self.mpr hmem)]
      exact ⟨fun h _ => h, fun h => h hmem⟩
  · simp only [Ends, if_neg hmem] at hmigrate hrollback
    refine ⟨?_, ?_⟩
    · rw [hmigrate.bookkept_iff hsync (Finset.insert_ne_self.mpr hmem)]
      exact ⟨fun h _ => h, fun h => h hmem⟩
    · rw [hrollback]
      exact iff_of_true (hidle _) (fun h => absurd h hmem)

/-- The text of a statement between a head and the next quote. -/
def quotedAfter (head sql : Text) : Option Text :=
  if head.isPrefixOf sql then some ((sql.drop head.length).takeWhile (fun c => ("'" : Text) ≠ [c]))
  else none

/-- What the statements of the manager do to the names, other statements leaving them alone. -/
def rowEffect (sql : Text) (names : Finset Text) : Finset Text :=
  match quotedAfter "INSERT INTO migrations (name) VALUES ('" sql,
    quotedAfter "DELETE FROM migrations WHERE name = '" sql with
  | some name, _ => insert name names
  | none, some name => names.erase name
  | none, none => names

/-- A migration of one table. -/
def usersMigration : Migration :=
  ⟨"users", ["CREATE TABLE users (id INT);"], "DROP TABLE users;"⟩

/-- When every command is accepted, the books of the migration are kept. -/
theorem users_migration_bookkept :
    Bookkept rowEffect ∅ (usersMigration.up ++ [insertRow "users"])
      ⟨Database.connect [] [], ∅⟩
      ((migrate usersMigration).outcome ⟨Database.connect [] [], ∅⟩).2 :=
  (bookkeeping_iff rowEffect ∅ usersMigration ⟨Database.connect [] [], ∅⟩ rfl).1.mpr
    (fun _ _ => ⟨by decide, by decide⟩)

/-- When only `COMMIT` is refused, the migration counts as executed and its row is not there. -/
theorem users_migration_separated :
    ¬ Bookkept rowEffect ∅ (usersMigration.up ++ [insertRow "users"])
      ⟨Database.connect [] [.commandOk, .commandOk, .commandOk, .commandOk, .error "disk full"], ∅⟩
      ((migrate usersMigration).outcome ⟨Database.connect []
        [.commandOk, .commandOk, .commandOk, .commandOk, .error "disk full"], ∅⟩).2 := by
  intro h
  exact absurd h.names (by decide)

/-- A statement effect under which only the statements of the manager change the names. -/
structure Lawful (effect : Text → Finset Text → Finset Text) (M : Migration) : Prop where
  insertRow : ∀ names, effect (insertRow M.name) names = insert M.name names
  deleteRow : ∀ names, effect (deleteRow M.name) names = names.erase M.name
  up : ∀ sql ∈ M.up, ∀ names, effect sql names = names
  down : ∀ names, effect M.down names = names

/-- Statements without an effect on the names. -/
theorem play_of_unchanged {effect : Text → Finset Text → Finset Text} {statements : List Text}
    (h : ∀ sql ∈ statements, ∀ names, effect sql names = names) (names : Finset Text) :
    play effect names statements = names := by
  induction statements with
  | nil => rfl
  | cons sql rest ih =>
      have hrest : play effect names rest = names :=
        ih (fun sql' hmem => h sql' (List.mem_cons_of_mem sql hmem))
      rw [play, List.foldl_cons, h sql List.mem_cons_self, ← play, hrest]

/-- On an idle connection, with schema statements that leave the table of migrations alone, a
commit is right exactly when it is accepted. -/
theorem commits_rightly_iff_of_lawful {effect : Text → Finset Text → Finset Text}
    {M : Migration} (hlawful : Lawful effect M) (hidle : start.db.server.session = .idle) :
    (CommitsRightly effect start (M.up ++ [insertRow M.name]) (M.up.length + 3)
        (insert M.name start.executedMigrations) ↔
      (Smooth start.db (M.up.length + 3) → start.db.acceptsAfter (M.up.length + 3) = true)) ∧
    (CommitsRightly effect start [M.down, deleteRow M.name] 3
        (start.executedMigrations.erase M.name) ↔
      (Smooth start.db 3 → start.db.acceptsAfter 3 = true)) := by
  have hup : play effect start.executedMigrations (M.up ++ [insertRow M.name]) =
      insert M.name start.executedMigrations := by
    rw [play_append, play_of_unchanged hlawful.up]
    exact hlawful.insertRow _
  have hdown : play effect start.executedMigrations [M.down, deleteRow M.name] =
      start.executedMigrations.erase M.name := by
    simp [play, hlawful.down, hlawful.deleteRow]
  simp [CommitsRightly, hidle, Session.openWork, hup, hdown]

/-! ## The texts of a migration -/

/-- The server reads what the operation sends as it was meant. -/
def Understandable (grammar : Grammar) (x : Action Unit) : Prop :=
  ∀ m, Ends x m fun _ m' => grammar.Understood m.db m'.db

variable {grammar : Grammar}

theorem understandable_onDb {call : Database → Except Text Unit × Database}
    (h : ∀ db, grammar.Understood db (call db).2) : Understandable grammar (onDb call) :=
  fun m => h m.db

theorem understandable_throw (e : Text) : Understandable grammar (throw e) :=
  fun m => ProofLib.ends_throw (.refl m.db)

theorem understandable_pure : Understandable grammar (pure ()) :=
  fun m => ProofLib.ends_pure (.refl m.db)

theorem Understandable.bind {x y : Action Unit} (hx : Understandable grammar x)
    (hy : Understandable grammar y) : Understandable grammar (x >>= fun _ => y) := by
  intro m
  refine (hx m).bind (fun _ m' hsent => ?_) fun _ _ hsent => hsent
  exact (hy m').imp fun _ _ hmore => hsent.trans hmore

theorem Understandable.handle {x : Action Unit} {handler : Text → Action Unit}
    (hx : Understandable grammar x) (hhandler : ∀ e, Understandable grammar (handler e)) :
    Understandable grammar (tryCatch x handler) := by
  intro m
  refine (hx m).handle (fun _ _ hsent => hsent) fun e m' hsent => ?_
  exact (hhandler e m').imp fun _ _ hmore => hsent.trans hmore

theorem understandable_executeQueries {queries : List Text}
    (h : ∀ sql ∈ queries, grammar.Plain (.statement sql)) :
    Understandable grammar (executeQueries queries) := by
  induction queries with
  | nil => exact understandable_pure
  | cons sql rest ih =>
      obtain ⟨hfirst, hrest⟩ := List.forall_mem_cons.mp h
      have hexecute : Understandable grammar (onDb fun db => db.execute sql) :=
        understandable_onDb fun db => Grammar.understood_execute db hfirst
      exact hexecute.bind (ih hrest)

/-- A row is changed, then the set, which sends nothing. -/
theorem understandable_row {sql : Text} (h : grammar.Plain (.statement sql))
    (change : MigrationManager → MigrationManager) (hchange : ∀ m, (change m).db = m.db) :
    Understandable grammar (onDb (fun db => db.execute sql) >>= fun _ => modify change) := by
  have hexecute : Understandable grammar (onDb fun db => db.execute sql) :=
    understandable_onDb fun db => Grammar.understood_execute db h
  refine hexecute.bind fun m => ProofLib.ends_modify ?_
  rw [hchange]
  exact .refl m.db

theorem understandable_transaction {name : Text} (h : name = [] ∨ Quotable name) :
    Understandable grammar (onDb fun db => db.transaction name) :=
  understandable_onDb fun db => Grammar.understood_transaction db h

theorem understandable_commit : Understandable grammar (onDb fun db => db.commit) :=
  understandable_onDb Grammar.understood_commit

theorem understandable_undo {name : Text} (h : name = [] ∨ Quotable name) :
    Understandable grammar (swallow (onDb fun db => db.rollback name)) :=
  Understandable.handle (understandable_onDb fun db => Grammar.understood_rollback db h)
    fun _ => understandable_pure

/-- A migration with a quotable name, whose statements and whose row are plain. -/
theorem understandable_migrate {M : Migration} (hname : Quotable (savepointName M.name))
    (hup : ∀ sql ∈ M.up, grammar.Plain (.statement sql))
    (hrow : grammar.Plain (.statement (insertRow M.name))) :
    Understandable grammar (migrate M) := by
  have happly : Understandable grammar (applyUp M) :=
    (understandable_transaction (.inl rfl)).bind
      ((understandable_transaction (.inr hname)).bind
        ((understandable_executeQueries hup).bind (understandable_row hrow _ fun _ => rfl)))
  have hundo : ∀ e, Understandable grammar (undoUp M e) := by
    intro e m
    refine ProofLib.ends_get_bind ?_
    split
    · exact ((understandable_undo (.inr hname)).bind
        ((understandable_undo (.inl rfl)).bind (understandable_throw e))) m
    · exact understandable_throw e m
  intro m
  refine ProofLib.ends_get_bind ?_
  split
  · exact understandable_pure m
  · exact (happly.bind understandable_commit).handle hundo m

/-- The same for `rollback`, which has no savepoint. -/
theorem understandable_rollback {M : Migration} (hdown : grammar.Plain (.statement M.down))
    (hrow : grammar.Plain (.statement (deleteRow M.name))) :
    Understandable grammar (rollback M) := by
  have happly : Understandable grammar (applyDown M) :=
    (understandable_transaction (.inl rfl)).bind
      ((understandable_onDb fun db => Grammar.understood_execute db hdown).bind
        (understandable_row hrow _ fun _ => rfl))
  have hundo : ∀ e, Understandable grammar (undoDown e) :=
    fun e => (understandable_undo (.inl rfl)).bind (understandable_throw e)
  intro m
  refine ProofLib.ends_get_bind ?_
  split
  · exact (happly.bind understandable_commit).handle hundo m
  · exact understandable_pure m

end MigrationManager

end Brazier
