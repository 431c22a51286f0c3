import Brazier.Database.Methods

/-!
# What the parametrised queries send

`queryToVector` and `queryMap` are to send the template with its i-th `?` replaced by the i-th
parameter, escaped. They search the partly substituted text again from its start, so a question
mark inside a parameter is taken for a placeholder by the parameters after it.
-/

namespace Brazier

namespace Database

variable {pqEscapeLiteral : Text → Option Text}

/-- The template with the i-th parameter, escaped, in its i-th placeholder. -/
def positional (pqEscapeLiteral : Text → Option Text) (sqlTemplate : Text)
    (params : List Text) : Text :=
  ProofLib.fillPositional '?' sqlTemplate (params.map (SQLString.escapeString pqEscapeLiteral))

/-- The only command sent between two states of the connection is the statement. -/
def Sent (sql : Text) (db db' : Database) : Prop :=
  db'.server.received = db.server.received ++ [.statement sql]

instance (sql : Text) (db db' : Database) : Decidable (Sent sql db db') :=
  inferInstanceAs (Decidable (_ = _))

/-- The loop over the parameters fills the placeholders in turn. -/
theorem substitute_eq_fill_in_turn (sqlTemplate : Text) (params : List Text) :
    substitute pqEscapeLiteral sqlTemplate params =
      ProofLib.fillInTurn '?' sqlTemplate
        (params.map (SQLString.escapeString pqEscapeLiteral)) := by
  simp [substitute, ProofLib.fillInTurn, List.foldl_map]

/-- With the right number of parameters, one statement is sent: the substituted template. -/
theorem sent_fetch_template (pqEscapeLiteral : Text → Option Text) (db : Database)
    {sqlTemplate : Text} {params : List Text}
    (hcount : sqlTemplate.count '?' = params.length) (sql : Text) :
    Sent sql db (fetchTemplate pqEscapeLiteral db sqlTemplate params).2 ↔
      substitute pqEscapeLiteral sqlTemplate params = sql := by
  simp [Sent, fetchTemplate, hcount, fetch_spec, received_pq_exec]

/-- The substituted template is the positional one exactly when no parameter but the last brings
a question mark into the text. -/
theorem substitute_eq_positional_iff (hesc : QuotesLiterals pqEscapeLiteral)
    {sqlTemplate : Text} {params : List Text}
    (hcount : sqlTemplate.count '?' = params.length) :
    substitute pqEscapeLiteral sqlTemplate params = positional pqEscapeLiteral sqlTemplate params ↔
      ∀ param ∈ params.dropLast, '?' ∈ param → pqEscapeLiteral param = none := by
  have hlength : sqlTemplate.count '?' =
      (params.map (SQLString.escapeString pqEscapeLiteral)).length := by
    simpa using hcount
  have hstart : ∀ block ∈ params.map (SQLString.escapeString pqEscapeLiteral),
      ∃ a tail, block = a :: tail ∧ a ≠ '?' := by
    intro block hblock
    obtain ⟨param, -, rfl⟩ := List.mem_map.mp hblock
    exact escape_string_head hesc param
  rw [substitute_eq_fill_in_turn, positional, ProofLib.fill_in_turn_eq_iff hlength hstart,
    ← List.map_dropLast, List.forall_mem_map]
  simp [mark_mem_escape_string hesc]

end Database

end Brazier
