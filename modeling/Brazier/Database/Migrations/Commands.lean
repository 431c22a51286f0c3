import Brazier.Database.Contents
import Brazier.Database.Migrations.Prefix

/-!
# The commands of a migration on an honest server

`commands_eq` says what `migrate` sends, statement by statement. When the server refuses nothing but
statements, the command that stops a migration is one of them (`statement_of_refused`), and nothing
is committed then (`committed_of_fails`).
-/

namespace Brazier

namespace MigrationManager

/-- The statements of a migration, with the one for its row. -/
def statements (M : Migration) : List Text := M.up ++ [insertRow M.name]

/-- The commands are the statements in a block with a savepoint. -/
theorem commands_eq (M : Migration) :
    commands M = .begin :: .savepoint (savepointName M.name) ::
      ((statements M).map .statement ++ [.commit]) := by
  simp [commands, statements]

/-- The statements among the commands. -/
theorem filterMap_commands (M : Migration) :
    (commands M).filterMap Command.sql = statements M := by
  have hmap : ∀ sqls : List Text, (sqls.map Command.statement).filterMap Command.sql = sqls := by
    intro sqls
    rw [List.filterMap_map]
    exact List.filterMap_some
  rw [commands_eq]
  simp only [List.filterMap_cons, Command.sql, List.filterMap_append, hmap]
  exact List.append_nil _

/-- No command of a migration undoes. -/
theorem undoes_commands {M : Migration} {cmd : Command} (h : cmd ∈ commands M) :
    Database.Undoes cmd = false := by
  simp only [commands, List.mem_append, List.mem_map, List.mem_cons, List.not_mem_nil,
    or_false] at h
  obtain (((rfl | rfl) | ⟨sql, -, rfl⟩) | rfl) | rfl := h <;> rfl

/-- A migration leaves the session idle. -/
theorem session_commands (db : Database) (M : Migration) :
    (db.sendAll (commands M)).server.session = .idle := by
  unfold commands
  rw [Database.sendAll_append]
  exact Session.exec_ends _ .commit rfl _

/-- The statements in the commands of migrations. -/
theorem filterMap_chain (applied : List Migration) :
    (applied.flatMap commands).filterMap Command.sql = applied.flatMap statements := by
  rw [List.filterMap_flatMap]
  exact congrArg (applied.flatMap ·) (funext filterMap_commands)

/-- Migrations started in an idle session leave it idle. -/
theorem session_chain {db : Database} (hidle : db.server.session = .idle)
    (applied : List Migration) :
    (db.sendAll (applied.flatMap commands)).server.session = .idle := by
  induction applied generalizing db with
  | nil => exact hidle
  | cons M rest ih =>
      rw [List.flatMap_cons, Database.sendAll_append]
      exact ih (session_commands db M)

end MigrationManager

open MigrationManager

namespace Sql

variable {S : Type} {server : Sql S} {base : S} {db : Database}

/-- A place in statements followed by one more command. -/
theorem split_statements {sqls : List Text} {last cmd : Command} {before after : List Command}
    (h : sqls.map Command.statement ++ [last] = before ++ cmd :: after) :
    cmd = last ∨ ∃ earlier sql later, sqls = earlier ++ sql :: later ∧ cmd = .statement sql ∧
      before = earlier.map .statement := by
  induction sqls generalizing before with
  | nil =>
      cases before with
      | nil => exact Or.inl (List.cons.inj h).1.symm
      | cons c rest =>
          have hlength := congrArg List.length h
          simp at hlength
  | cons sql rest ih =>
      cases before with
      | nil => exact Or.inr ⟨[], sql, rest, rfl, (List.cons.inj h).1.symm, rfl⟩
      | cons c before =>
          obtain ⟨hc, htail⟩ := List.cons.inj h
          cases ih htail with
          | inl hlast => exact Or.inl hlast
          | inr hsplit =>
              obtain ⟨earlier, sql', later, hsqls, hcmd, hbefore⟩ := hsplit
              refine Or.inr ⟨sql :: earlier, sql', later, ?_, hcmd, ?_⟩
              · rw [hsqls, List.cons_append]
              · rw [hbefore, ← hc, List.map_cons]

/-- The command of a migration that an honest server refuses is one of its statements. -/
theorem statement_of_refused {M : Migration} {before after : List Command} {cmd : Command}
    (hab : db.server.session.isAborted = false) (hscript : commands M = before ++ cmd :: after)
    (hhonest : server.Honest base db (before ++ [cmd])) (haccepts : db.AcceptsAll before)
    (hrefused : (db.sendAll before).accepts cmd = false) :
    ∃ earlier sql later, statements M = earlier ++ sql :: later ∧ cmd = .statement sql ∧
      before = .begin :: .savepoint (savepointName M.name) :: earlier.map .statement := by
  have hundoes : ∀ c ∈ before ++ cmd :: after, Database.Undoes c = false := by
    rw [← hscript]
    exact fun c hc => undoes_commands hc
  obtain ⟨hbefore, hrest⟩ := List.forall_mem_append.mp hundoes
  have hab' := (seen_sendAll server base hab hbefore haccepts).1
  have hother : (db.sendAll before).server.session.allows cmd = true → cmd.sql = none → False := by
    intro hallows hsql
    have hacc := (honest_append.mp hhonest).2.accepts hallows hsql
    cases hacc.symm.trans hrefused
  rw [commands_eq] at hscript
  cases before with
  | nil =>
      obtain ⟨rfl, -⟩ := List.cons.inj hscript
      exact (hother (allows_of_not_aborted hab rfl (fun _ h => by cases h)) rfl).elim
  | cons c₁ before =>
      obtain ⟨rfl, hscript₁⟩ := List.cons.inj hscript
      cases before with
      | nil =>
          obtain ⟨rfl, -⟩ := List.cons.inj hscript₁
          obtain ⟨b, hblock⟩ := block_of_begin hab haccepts.1
          have hallows : (db.send .begin).server.session.allows
              (.savepoint (savepointName M.name)) = true := by
            rw [hblock]
            rfl
          exact (hother hallows rfl).elim
      | cons c₂ before =>
          obtain ⟨rfl, hscript₂⟩ := List.cons.inj hscript₁
          cases split_statements hscript₂ with
          | inl hlast =>
              subst hlast
              exact (hother (allows_of_not_aborted hab' rfl (fun _ h => by cases h)) rfl).elim
          | inr hsplit =>
              obtain ⟨earlier, sql, later, hsqls, hcmd, rfl⟩ := hsplit
              exact ⟨earlier, sql, later, hsqls, hcmd, rfl⟩

/-- A migration of which an honest server refuses a command commits nothing. -/
theorem committed_of_fails {M : Migration} {sent : List Command}
    (hab : db.server.session.isAborted = false) (hfails : db.FailsWith (commands M) sent)
    (hhonest : server.Honest base db sent) :
    (db.sendAll sent).server.committed = db.server.committed := by
  obtain ⟨before, cmd, after, undo, hscript, haccepts, hrefused, hsent, hundo⟩ := hfails
  have hsplit : sent = before ++ [cmd] ++ undo := by
    rw [hsent, List.append_assoc, List.singleton_append]
  have hfirst : server.Honest base db (before ++ [cmd]) := by
    rw [hsplit] at hhonest
    exact (honest_append.mp hhonest).1
  obtain ⟨earlier, sql, later, -, rfl, rfl⟩ :=
    statement_of_refused hab hscript hfirst haccepts hrefused
  obtain ⟨b, hsession⟩ := block_of_begin hab haccepts.1
  have hblock : (db.send .begin).server.session.block = some b := by
    rw [hsession]
    rfl
  have hinner : ∀ c ∈ .savepoint (savepointName M.name) :: earlier.map Command.statement ++
      [.statement sql], c.endsBlock = false := by
    intro c hc
    simp only [List.mem_append, List.mem_cons, List.mem_map, List.not_mem_nil, or_false] at hc
    obtain (rfl | ⟨_, -, rfl⟩) | rfl := hc <;> rfl
  have hbegin : (db.send .begin).server.committed = db.server.committed := by
    have hcommits : db.server.session.commits .begin = [] := by
      cases db.server.session <;> rfl
    rw [Database.committed_send, Session.exec_commits, hcommits, ite_self, List.append_nil]
  rw [hsplit, Database.sendAll_append, Database.committed_sendAll_undo hundo]
  exact (Database.committed_sendAll_in_block hblock hinner).trans hbegin

end Sql

end Brazier
