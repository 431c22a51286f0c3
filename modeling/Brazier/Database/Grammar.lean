import Brazier.Database.Methods
import Brazier.ProofLib.Runs

/-!
# What the server reads

`Session` is about commands. What is sent are their texts, and the name of a savepoint or a
statement stands in its text as it is. `Grammar` is what the server reads in a text, as far as it is
documented. A name that is `Quotable` is read as that name, and a statement is `Plain` when the
server reads it as one statement that is no transaction command. `reads_received` says that a run of
such calls is read as it was meant.
-/

namespace Brazier

open ProofLib

/-- The text of a command. -/
def Command.text : Command → Text
  | .begin => "BEGIN"
  | .commit => "COMMIT"
  | .rollback => "ROLLBACK"
  | .savepoint name => ("SAVEPOINT \"" : Text) ++ name ++ ("\"" : Text)
  | .rollbackTo name => ("ROLLBACK TO SAVEPOINT \"" : Text) ++ name ++ ("\"" : Text)
  | .statement sql => sql

/-- A name that is kept as it is between quotation marks. -/
structure Quotable (name : Text) : Prop where
  nonempty : name ≠ []
  noQuote : '"' ∉ name
  noNul : '\x00' ∉ name
  short : clip 63 name = name

instance (name : Text) : Decidable (Quotable name) :=
  decidable_of_iff (name ≠ [] ∧ '"' ∉ name ∧ '\x00' ∉ name ∧ clip 63 name = name)
    ⟨fun ⟨hne, hquote, hnul, hshort⟩ => ⟨hne, hquote, hnul, hshort⟩,
      fun h => ⟨h.nonempty, h.noQuote, h.noNul, h.short⟩⟩

/-- The commands that the server reads in a text that libpq is handed. -/
structure Grammar where
  reads : Text → List Command
  reads_control : ∀ cmd ∈ [Command.begin, .commit, .rollback], reads cmd.text = [cmd]
  reads_savepoint : ∀ name, Quotable name →
    reads (Command.savepoint name).text = [.savepoint name]
  reads_rollbackTo : ∀ name, Quotable name →
    reads (Command.rollbackTo name).text = [.rollbackTo name]

namespace Grammar

variable (grammar : Grammar)

/-- The name is quotable; the statement is one, and no transaction command. -/
def Plain : Command → Prop
  | .begin | .commit | .rollback => True
  | .savepoint name | .rollbackTo name => Quotable name
  | .statement sql => grammar.reads sql = [.statement sql]

variable {grammar}

/-- The text of a plain command is read as the command. -/
theorem reads_text {cmd : Command} (h : grammar.Plain cmd) : grammar.reads cmd.text = [cmd] := by
  cases cmd with
  | begin => exact grammar.reads_control .begin (by decide)
  | commit => exact grammar.reads_control .commit (by decide)
  | rollback => exact grammar.reads_control .rollback (by decide)
  | savepoint name => exact grammar.reads_savepoint name h
  | rollbackTo name => exact grammar.reads_rollbackTo name h
  | statement sql => exact h

variable (grammar) in
/-- What the server received between two connections, it reads as it was meant. -/
def Understood (db db' : Database) : Prop :=
  ∃ sent, db'.server.received = db.server.received ++ sent ∧
    ∀ cmd ∈ sent, grammar.reads cmd.text = [cmd]

theorem Understood.refl (db : Database) : grammar.Understood db db :=
  ⟨[], (List.append_nil _).symm, fun _ h => absurd h List.not_mem_nil⟩

theorem Understood.trans {db db' db'' : Database} (h : grammar.Understood db db')
    (h' : grammar.Understood db' db'') : grammar.Understood db db'' := by
  obtain ⟨sent, hreceived, hsent⟩ := h
  obtain ⟨more, hreceived', hmore⟩ := h'
  refine ⟨sent ++ more, ?_, List.forall_mem_append.mpr ⟨hsent, hmore⟩⟩
  rw [hreceived', hreceived, List.append_assoc]

/-- One command is received. -/
theorem understood_pqExec (db : Database) {cmd : Command} (h : grammar.Plain cmd) :
    grammar.Understood db (db.pqExec cmd).2 :=
  ⟨[cmd], db.received_pq_exec cmd, List.forall_mem_singleton.mpr (reads_text h)⟩

/-- A call sends its command, which may be followed by `ROLLBACK`. -/
theorem understood_after (pqEscapeLiteral : Text → Option Text) (db : Database)
    (c : Database.Call) (h : grammar.Plain (c.command pqEscapeLiteral)) :
    grammar.Understood db (Database.after pqEscapeLiteral db c) := by
  have hsent := understood_pqExec db h
  unfold Understood
  rw [Database.server_after]
  split
  · exact hsent.trans (understood_pqExec _ trivial)
  · split
    · exact hsent
    · exact Understood.refl db

/-! ## The methods -/

theorem understood_execute (db : Database) {sql : Text} (h : grammar.Plain (.statement sql)) :
    grammar.Understood db (db.execute sql).2 :=
  understood_after (fun _ => none) db (.execute sql) h

theorem understood_query (db : Database) {sql : Text} (h : grammar.Plain (.statement sql)) :
    grammar.Understood db (db.query sql).2 :=
  understood_after (fun _ => none) db (.query sql) h

theorem understood_commit (db : Database) : grammar.Understood db db.commit.2 :=
  understood_after (fun _ => none) db .commit trivial

theorem understood_transaction (db : Database) {name : Text} (h : name = [] ∨ Quotable name) :
    grammar.Understood db (db.transaction name).2 := by
  refine understood_after (fun _ => none) db (.transaction name) ?_
  cases name with
  | nil => trivial
  | cons c rest => exact h.resolve_left (List.cons_ne_nil c rest)

theorem understood_rollback (db : Database) {name : Text} (h : name = [] ∨ Quotable name) :
    grammar.Understood db (db.rollback name).2 := by
  refine understood_after (fun _ => none) db (.rollback name) ?_
  cases name with
  | nil => trivial
  | cons c rest => exact h.resolve_left (List.cons_ne_nil c rest)

/-! ## Runs -/

/-- In a run of calls with quotable names and plain statements, the server reads every text as the
command it was made from. -/
theorem reads_received {pqEscapeLiteral : Text → Option Text} {calls : List Database.Call}
    (h : ∀ c ∈ calls, grammar.Plain (c.command pqEscapeLiteral)) (db : Database) :
    grammar.Understood db (runFrom (Database.after pqEscapeLiteral) db calls) :=
  runFrom_invariant (grammar.Understood db) (.refl db) fun c hc db' hdb' =>
    hdb'.trans (understood_after _ db' c (h c hc))

end Grammar

end Brazier
