import Brazier.Database.SQLQueryBuilder
import Brazier.ProofLib.Grouped

/-!
# Groups of conditions

What `Where`, `BeginGroup` and `EndGroup` of `src/Database/SQLQueryBuilder.cpp` write for nested
groups of conditions. `Where` leaves the operator out in front of the first condition of a group;
`BeginGroup` leaves it out at the start of the clause only.
-/

namespace Brazier

open ProofLib.Grouped

/-- The operators between conditions. -/
inductive LogicalOperator where
  | and
  | or
  deriving DecidableEq

/-- The text of an operator. -/
def LogicalOperator.text : LogicalOperator → Text
  | .and => "AND"
  | .or => "OR"

/-- Conditions and groups of conditions, with an operator in front of each but the first. -/
abbrev Conditions := Chain Text LogicalOperator

/-- A token of a `WHERE` clause. -/
abbrev ClauseToken := Token Text LogicalOperator

/-- The text of a token. -/
def tokenText : ClauseToken → Text
  | .atom condition => condition
  | .operator o => o.text
  | .opening => "("
  | .closing => ")"

/-- The text of tokens. -/
def clauseText (tokens : List ClauseToken) : Text := joinWith " " (tokens.map tokenText)

namespace SQLQueryBuilder

/-- The calls for conditions in their order. The first of a group is passed the default operator. -/
def walk (b : SQLQueryBuilder) (o : LogicalOperator) : Conditions → SQLQueryBuilder
  | .atom condition => b.where condition o.text
  | .group inner => (walk (b.beginGroup o.text) .and inner).endGroup
  | .atomThen condition next rest => walk (b.where condition o.text) next rest
  | .groupThen inner next rest =>
      walk ((walk (b.beginGroup o.text) .and inner).endGroup) next rest

/-- The text of a query in front of its `WHERE` clause. -/
def beforeWhere (b : SQLQueryBuilder) : Text :=
  if b.updateValues.isEmpty = false then
    ("UPDATE " : Text) ++ b.table ++ (" SET " : Text) ++
      joinWith ", " (b.updateValues.toList.map (fun col => col.1 ++ (" = " : Text) ++ col.2))
  else if b.isDeleteQuery then ("DELETE FROM " : Text) ++ b.table
  else
    ("SELECT " : Text) ++
      (if b.selectColumns = [] then ("*" : Text) else joinWith ", " b.selectColumns) ++
      (" FROM " : Text) ++ b.table ++
      (b.joins.toList.map (fun clause => (" " : Text) ++ clause.2)).flatten

/-- The text behind it. -/
def afterWhere (b : SQLQueryBuilder) : Text :=
  if b.updateValues.isEmpty = false then []
  else if b.isDeleteQuery then b.orderByText ++ b.limit
  else b.groupByText ++ b.orderByText ++ b.limit ++ b.offset

/-- The clause stands in the same way in an `UPDATE`, a `DELETE` and a `SELECT`. -/
theorem get_eq_where {b : SQLQueryBuilder} (hinsert : b.insertValues = ∅) :
    b.get = b.beforeWhere ++ b.whereText ++ b.afterWhere := by
  by_cases hupdate : b.updateValues.isEmpty = false
  · have hafter : b.afterWhere = [] := if_pos hupdate
    rw [get_of_update hinsert hupdate, hafter, List.append_nil, beforeWhere, if_pos hupdate]
    rfl
  · have hempty : b.updateValues = ∅ := by simpa using hupdate
    by_cases hdelete : b.isDeleteQuery = true
    · have hbefore : b.beforeWhere = ("DELETE FROM " : Text) ++ b.table :=
        (if_neg hupdate).trans (if_pos hdelete)
      have hafter : b.afterWhere = b.orderByText ++ b.limit :=
        (if_neg hupdate).trans (if_pos hdelete)
      rw [get_of_delete hinsert hempty hdelete, hbefore, hafter]
      exact List.append_assoc _ _ _
    · have hafter : b.afterWhere = b.groupByText ++ b.orderByText ++ b.limit ++ b.offset :=
        (if_neg hupdate).trans (if_neg hdelete)
      rw [get_of_select hinsert hempty (Bool.not_eq_true _ ▸ hdelete), hafter, beforeWhere,
        if_neg hupdate, if_neg hdelete]
      show _ ++ b.whereText ++ b.groupByText ++ b.orderByText ++ b.limit ++ b.offset = _
      simp only [List.append_assoc]

/-! ## What is written -/

/-- The operator that `BeginGroup` writes at the start of a group. -/
def leading : Operand Text LogicalOperator → List ClauseToken
  | .atom _ => []
  | .group _ => [.operator .and]

/-- The tokens that are written for conditions, without an operator in front. -/
def written : Conditions → List ClauseToken
  | .atom condition => [.atom condition]
  | .group inner => .opening :: (leading inner.head ++ written inner) ++ [.closing]
  | .atomThen condition o rest => .atom condition :: .operator o :: written rest
  | .groupThen inner o rest =>
      (.opening :: (leading inner.head ++ written inner) ++ [.closing]) ++
        .operator o :: written rest

/-- The conditions of the builder spell the tokens. -/
def Spells (b : SQLQueryBuilder) (tokens : List ClauseToken) : Prop :=
  joinWith " " b.whereConditions = clauseText tokens ∧ (b.whereConditions = [] ↔ tokens = [])

/-- The operator in front of an operand behind the tokens. -/
def operatorBefore (b : SQLQueryBuilder) (o : LogicalOperator) :
    Operand Text LogicalOperator → List ClauseToken
  | .atom _ =>
      if b.whereConditions ≠ [] ∧ b.isFirstConditionInGroup = false then [.operator o] else []
  | .group _ => if b.whereConditions ≠ [] then [.operator o] else []

/-- One more text spells more tokens. -/
theorem Spells.append {b b' : SQLQueryBuilder} {tokens added : List ClauseToken} {text : Text}
    (h : b.Spells tokens) (hadded : added ≠ []) (htext : text = clauseText added)
    (hconditions : b'.whereConditions = b.whereConditions ++ [text]) :
    b'.Spells (tokens ++ added) := by
  refine ⟨?_, ?_⟩
  · have hnil : (b.whereConditions ≠ [] ∧ [text] ≠ []) ↔
        (tokens.map tokenText ≠ [] ∧ added.map tokenText ≠ []) := by
      simp [h.2, hadded]
    rw [hconditions, clauseText, List.map_append, joinWith_append, joinWith_append, h.1,
      if_congr hnil rfl rfl, htext]
    rfl
  · rw [hconditions]
    simp [hadded]

/-- `Where` writes its condition. -/
theorem Spells.where {b : SQLQueryBuilder} {tokens : List ClauseToken} (h : b.Spells tokens)
    (condition : Text) (o : LogicalOperator) :
    (b.where condition o.text).Spells
        (tokens ++ (b.operatorBefore o (.atom condition) ++ [.atom condition])) ∧
      (b.where condition o.text).isFirstConditionInGroup = false := by
  unfold SQLQueryBuilder.where operatorBefore
  split
  · next hlater => exact ⟨h.append (by simp) rfl rfl, hlater.2⟩
  · exact ⟨h.append (by simp) rfl rfl, rfl⟩

/-- `BeginGroup` opens a parenthesis. -/
theorem Spells.beginGroup {b : SQLQueryBuilder} {tokens : List ClauseToken} (h : b.Spells tokens)
    (inner : Conditions) (o : LogicalOperator) :
    (b.beginGroup o.text).Spells (tokens ++ (b.operatorBefore o (.group inner) ++ [.opening])) ∧
      (b.beginGroup o.text).isFirstConditionInGroup = true ∧
      (b.beginGroup o.text).whereConditions ≠ [] := by
  unfold SQLQueryBuilder.beginGroup operatorBefore
  split
  · exact ⟨h.append (by simp) (by cases o <;> rfl) rfl, rfl, by simp⟩
  · exact ⟨h.append (by simp) rfl rfl, rfl, by simp⟩

/-- `EndGroup` closes it. -/
theorem Spells.endGroup {b : SQLQueryBuilder} {tokens : List ClauseToken} (h : b.Spells tokens) :
    b.endGroup.Spells (tokens ++ [.closing]) ∧ b.endGroup.isFirstConditionInGroup = false :=
  ⟨h.append (by simp) rfl rfl, rfl⟩

/-- At the start of a group only `BeginGroup` writes an operator. -/
theorem operatorBefore_first {b : SQLQueryBuilder} (hne : b.whereConditions ≠ [])
    (hfirst : b.isFirstConditionInGroup = true) (operand : Operand Text LogicalOperator) :
    b.operatorBefore .and operand = leading operand := by
  cases operand with
  | atom condition => simp [operatorBefore, leading, hfirst]
  | group inner => simp [operatorBefore, leading, hne]

/-- Behind an operand both write it. -/
theorem operatorBefore_later {b : SQLQueryBuilder} (hne : b.whereConditions ≠ [])
    (hfirst : b.isFirstConditionInGroup = false) (o : LogicalOperator)
    (operand : Operand Text LogicalOperator) : b.operatorBefore o operand = [.operator o] := by
  cases operand with
  | atom condition => simp [operatorBefore, hne, hfirst]
  | group inner => simp [operatorBefore, hne]

/-- What the calls for conditions write, wherever they come. -/
def WritesAll (c : Conditions) : Prop :=
  ∀ {b : SQLQueryBuilder} {tokens : List ClauseToken} (o : LogicalOperator), b.Spells tokens →
    (b.walk o c).Spells (tokens ++ (b.operatorBefore o c.head ++ written c)) ∧
      (b.walk o c).isFirstConditionInGroup = false

/-- A group writes its conditions in parentheses. -/
theorem Spells.group {b : SQLQueryBuilder} {tokens : List ClauseToken} (h : b.Spells tokens)
    {inner : Conditions} (hinner : WritesAll inner) (o : LogicalOperator) :
    (((b.beginGroup o.text).walk .and inner).endGroup).Spells
        (tokens ++ (b.operatorBefore o (.group inner) ++
          (.opening :: (leading inner.head ++ written inner) ++ [.closing]))) ∧
      ((b.beginGroup o.text).walk .and inner).endGroup.isFirstConditionInGroup = false := by
  obtain ⟨hopen, hfirst, hne⟩ := h.beginGroup inner o
  have hwalk := (hinner .and hopen).1
  rw [operatorBefore_first hne hfirst] at hwalk
  refine ⟨?_, hwalk.endGroup.2⟩
  have hend := hwalk.endGroup.1
  simp only [List.append_assoc, List.cons_append, List.nil_append] at hend ⊢
  exact hend

/-- Conditions behind an operand write the operator between them. -/
theorem Spells.later {b : SQLQueryBuilder} {tokens added : List ClauseToken}
    (h : b.Spells (tokens ++ added)) (hadded : added ≠ [])
    (hfirst : b.isFirstConditionInGroup = false) {rest : Conditions} (hrest : WritesAll rest)
    (o : LogicalOperator) :
    (b.walk o rest).Spells (tokens ++ (added ++ .operator o :: written rest)) ∧
      (b.walk o rest).isFirstConditionInGroup = false := by
  have hne : b.whereConditions ≠ [] := by
    rw [Ne, h.2]
    simp [hadded]
  obtain ⟨hwalk, hlast⟩ := hrest o h
  rw [operatorBefore_later hne hfirst, List.append_assoc] at hwalk
  exact ⟨hwalk, hlast⟩

theorem writesAll (c : Conditions) : WritesAll c := by
  induction c with
  | atom condition =>
      intro b tokens o h
      exact h.where condition o
  | group inner ih =>
      intro b tokens o h
      exact h.group ih o
  | atomThen condition o' rest ih =>
      intro b tokens o h
      obtain ⟨hwhere, hfirst⟩ := h.where condition o
      have hrest := hwhere.later (by simp) hfirst ih o'
      rw [List.append_assoc] at hrest
      exact hrest
  | groupThen inner o' rest ihinner ih =>
      intro b tokens o h
      obtain ⟨hgroup, hfirst⟩ := h.group ihinner o
      have hrest := hgroup.later (by simp) hfirst ih o'
      rw [List.append_assoc] at hrest
      exact hrest

/-- The calls change the conditions only. -/
theorem walk_eq (b : SQLQueryBuilder) (o : LogicalOperator) (c : Conditions) :
    b.walk o c = { b with
      whereConditions := (b.walk o c).whereConditions
      isFirstConditionInGroup := (b.walk o c).isFirstConditionInGroup } := by
  have hwhere : ∀ (b : SQLQueryBuilder) (condition operator : Text),
      b.where condition operator = { b with
        whereConditions := (b.where condition operator).whereConditions
        isFirstConditionInGroup := (b.where condition operator).isFirstConditionInGroup } := by
    intro b condition operator
    unfold SQLQueryBuilder.where
    split <;> rfl
  have hbegin : ∀ (b : SQLQueryBuilder) (operator : Text),
      b.beginGroup operator = { b with
        whereConditions := (b.beginGroup operator).whereConditions
        isFirstConditionInGroup := (b.beginGroup operator).isFirstConditionInGroup } := by
    intro b operator
    unfold SQLQueryBuilder.beginGroup
    split <;> rfl
  induction c generalizing b o with
  | atom condition => exact hwhere b condition o.text
  | group inner ih =>
      rw [walk, endGroup, ih, hbegin]
  | atomThen condition o' rest ih =>
      rw [walk, ih, hwhere]
  | groupThen inner o' rest ihinner ih =>
      rw [walk, ih, endGroup, ihinner, hbegin]

/-! ## When it reads back -/

/-- The operand is a condition. -/
def isCondition : Operand Text LogicalOperator → Bool
  | .atom _ => true
  | .group _ => false

/-- No group begins with a group. -/
def GroupsBeginFlat : Conditions → Prop
  | .atom _ => True
  | .group inner => isCondition inner.head = true ∧ GroupsBeginFlat inner
  | .atomThen _ _ rest => GroupsBeginFlat rest
  | .groupThen inner _ rest =>
      (isCondition inner.head = true ∧ GroupsBeginFlat inner) ∧ GroupsBeginFlat rest

/-- The characters of tokens, with a blank behind each. -/
def width (tokens : List ClauseToken) : Nat :=
  (tokens.flatMap fun token => tokenText token ++ (" " : Text)).length

theorem width_append (first second : List ClauseToken) :
    width (first ++ second) = width first + width second := by
  rw [width, List.flatMap_append, List.length_append]
  rfl

theorem width_cons (token : ClauseToken) (rest : List ClauseToken) :
    width (token :: rest) = (tokenText token).length + 1 + width rest := by
  rw [width, List.flatMap_cons, List.length_append, List.length_append]
  rfl

/-- The text of tokens has no blank behind the last. -/
theorem length_clauseText {tokens : List ClauseToken} (hne : tokens ≠ []) :
    (clauseText tokens).length + 1 = width tokens := by
  induction tokens with
  | nil => exact absurd rfl hne
  | cons token rest ih =>
      cases rest with
      | nil => exact (width_cons token []).symm
      | cons next rest =>
          have hlength : (clauseText (token :: next :: rest)).length =
              (tokenText token).length + 1 + (clauseText (next :: rest)).length := by
            show (tokenText token ++ (" " : Text) ++ clauseText (next :: rest)).length = _
            rw [List.length_append, List.length_append]
            rfl
          rw [hlength, width_cons, ← ih (List.cons_ne_nil next rest)]
          omega

theorem tokens_ne_nil (c : Conditions) : c.tokens ≠ [] := by
  cases c <;> simp [Chain.tokens]

theorem written_ne_nil (c : Conditions) : written c ≠ [] := by
  cases c <;> simp [written]

/-- What is written are the tokens, or is longer than they are. -/
def SameOrLonger (same : Prop) (written tokens : List ClauseToken) : Prop :=
  (same ∧ written = tokens) ∨ (¬ same ∧ width tokens < width written)

theorem SameOrLonger.append {same same' : Prop} {written tokens written' tokens' : List ClauseToken}
    (h : SameOrLonger same written tokens) (h' : SameOrLonger same' written' tokens') :
    SameOrLonger (same ∧ same') (written ++ written') (tokens ++ tokens') := by
  unfold SameOrLonger
  rw [width_append, width_append]
  rcases h with ⟨hsame, heq⟩ | ⟨hnot, hlt⟩
  · rcases h' with ⟨hsame', heq'⟩ | ⟨hnot', hlt'⟩
    · exact Or.inl ⟨⟨hsame, hsame'⟩, by rw [heq, heq']⟩
    · refine Or.inr ⟨fun h => hnot' h.2, ?_⟩
      rw [heq]
      omega
  · refine Or.inr ⟨fun h => hnot h.1, ?_⟩
    rcases h' with ⟨-, heq'⟩ | ⟨-, hlt'⟩
    · rw [heq']
      omega
    · omega

/-- Tokens that are written in any case. -/
theorem SameOrLonger.between {same : Prop} {written tokens : List ClauseToken}
    (h : SameOrLonger same written tokens) (first last : List ClauseToken) :
    SameOrLonger same (first ++ written ++ last) (first ++ tokens ++ last) := by
  unfold SameOrLonger
  simp only [width_append]
  rcases h with ⟨hsame, heq⟩ | ⟨hnot, hlt⟩
  · exact Or.inl ⟨hsame, by rw [heq]⟩
  · exact Or.inr ⟨hnot, by omega⟩

/-- A group that begins with a group gets an operator more. -/
theorem sameOrLonger_leading (operand : Operand Text LogicalOperator) :
    SameOrLonger (isCondition operand = true) (leading operand) [] := by
  cases operand with
  | atom condition => exact Or.inl ⟨rfl, rfl⟩
  | group inner =>
      refine Or.inr ⟨Bool.false_ne_true, ?_⟩
      show width [] < width [.operator .and]
      rw [width_cons]
      omega

/-- Where a group begins with a group, more is written than the tokens of the conditions. -/
theorem sameOrLonger_written (c : Conditions) :
    SameOrLonger (GroupsBeginFlat c) (written c) c.tokens := by
  induction c with
  | atom condition => exact Or.inl ⟨trivial, rfl⟩
  | group inner ih =>
      exact ((sameOrLonger_leading inner.head).append ih).between [.opening] [.closing]
  | atomThen condition o rest ih =>
      have hrest := ih.between [.atom condition, .operator o] []
      rwa [List.append_nil, List.append_nil] at hrest
  | groupThen inner o rest ihinner ih =>
      have hinner := (sameOrLonger_leading inner.head).append ihinner
      have hgroup := hinner.between [.opening] [.closing]
      have hrest := ih.between [.operator o] []
      rw [List.append_nil, List.append_nil] at hrest
      exact hgroup.append hrest

/-- The query after the calls for conditions. -/
theorem get_walk {b : SQLQueryBuilder} (hinsert : b.insertValues = ∅)
    (hempty : b.whereConditions = []) (c : Conditions) :
    (b.walk .and c).get =
      b.beforeWhere ++ ((" WHERE " : Text) ++ clauseText (written c)) ++ b.afterWhere := by
  have hstart : b.Spells [] := by
    refine ⟨?_, iff_of_true hempty rfl⟩
    rw [hempty]
    rfl
  have hhead : b.operatorBefore .and c.head = [] := by
    cases c.head <;> simp [operatorBefore, hempty]
  obtain ⟨htext, hnil⟩ := (writesAll c .and hstart).1
  rw [hhead, List.nil_append, List.nil_append] at htext hnil
  have hwhere : (b.walk .and c).whereText = (" WHERE " : Text) ++ clauseText (written c) := by
    rw [← htext]
    exact if_neg fun h => written_ne_nil c (hnil.mp h)
  have hframe := walk_eq b .and c
  have hbefore : (b.walk .and c).beforeWhere = b.beforeWhere := by
    rw [hframe]
    rfl
  have hafter : (b.walk .and c).afterWhere = b.afterWhere := by
    rw [hframe]
    rfl
  have hnone : (b.walk .and c).insertValues = ∅ := by
    rw [hframe]
    exact hinsert
  rw [get_eq_where hnone, hwhere, hbefore, hafter]

/-- The `WHERE` clause of the query reads back as the conditions. -/
def ReadsBack (b : SQLQueryBuilder) (c : Conditions) : Prop :=
  ∃ tokens, (b.walk .and c).get =
    b.beforeWhere ++ ((" WHERE " : Text) ++ clauseText tokens) ++ b.afterWhere ∧
      parse tokens = some c

/-- A clause with an operator behind a parenthesis reads back as nothing. -/
theorem not_readsBack {b : SQLQueryBuilder} (hinsert : b.insertValues = ∅)
    (hempty : b.whereConditions = []) {c : Conditions} (hflat : ¬ GroupsBeginFlat c) :
    ¬ b.ReadsBack c := by
  intro h
  obtain ⟨tokens, htext, hparse⟩ := h
  rw [parse_eq_some_iff] at hparse
  rw [get_walk hinsert hempty, List.append_left_inj, List.append_right_inj,
    List.append_right_inj, hparse] at htext
  rcases sameOrLonger_written c with ⟨hflat', -⟩ | ⟨-, hlt⟩
  · exact hflat hflat'
  · have hlength := length_clauseText (tokens_ne_nil c)
    have hlength' := length_clauseText (written_ne_nil c)
    rw [htext] at hlength'
    omega

/-- The clause reads back exactly when no group begins with a group. -/
theorem readsBack_iff {b : SQLQueryBuilder} (hinsert : b.insertValues = ∅)
    (hempty : b.whereConditions = []) (c : Conditions) : b.ReadsBack c ↔ GroupsBeginFlat c := by
  constructor
  · intro h
    by_contra hflat
    exact not_readsBack hinsert hempty hflat h
  · intro hflat
    rcases sameOrLonger_written c with ⟨-, heq⟩ | ⟨hnot, -⟩
    · refine ⟨c.tokens, ?_, parse_eq_some_iff.mpr rfl⟩
      rw [get_walk hinsert hempty, heq]
    · exact absurd hflat hnot

/-- A group of two conditions behind which another group stands. -/
def twoGroups : Conditions :=
  .groupThen (.atomThen "a = 1" .or (.atom "b = 2")) .and (.group (.atom "c = 3"))

/-- The clause of a `DELETE` with two groups reads back. -/
theorem readsBack_twoGroups :
    (ofTable "users").delete.ReadsBack twoGroups ↔ GroupsBeginFlat twoGroups :=
  readsBack_iff rfl rfl twoGroups

/-- A group that begins with a group. -/
def nestedGroups : Conditions :=
  .group (.groupThen (.atom "a = 1") .or (.atom "b = 2"))

/-- The operator in front of the inner group stands behind a parenthesis. -/
theorem nestedGroups_not_readsBack :
    ((ofTable "users").walk .and nestedGroups).get =
        "SELECT * FROM users WHERE ( AND ( a = 1 ) OR b = 2 )" ∧
      ¬ (ofTable "users").ReadsBack nestedGroups := by
  refine ⟨by decide +kernel, not_readsBack rfl rfl ?_⟩
  intro h
  exact nomatch h.1

end SQLQueryBuilder

end Brazier
