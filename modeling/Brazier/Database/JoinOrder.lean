import Brazier.Database.SQLQueryBuilder
import Brazier.ProofLib.Entries
import Brazier.ProofLib.Reading
import Mathlib.Data.List.Nodup
import Mathlib.Data.List.Perm.Subperm

/-!
# The order of joins

`Join` of `src/Database/SQLQueryBuilder.cpp` keeps the clauses in a map from table names, and `get`
writes them in the order of the map. `writtenCalls` are the calls whose clauses are written. Where
the join types and the tables are words, the text shows which calls these are.
-/

namespace Brazier

open ProofLib

/-- A call of `Join`. -/
structure JoinCall where
  table : Text
  onCondition : Text
  joinType : Text
  deriving DecidableEq

/-- The clause of a call. -/
def JoinCall.clause (call : JoinCall) : Text :=
  call.joinType ++ (" JOIN " : Text) ++ call.table ++ (" ON " : Text) ++ call.onCondition

/-- The join type and the table are words. -/
def JoinCall.IsPlain (call : JoinCall) : Prop := ' ' ∉ call.joinType ∧ ' ' ∉ call.table

namespace SQLQueryBuilder

/-- A sequence of calls of `Join`. -/
def joinAll (b : SQLQueryBuilder) (calls : List JoinCall) : SQLQueryBuilder :=
  calls.foldl (fun b call => b.join call.table call.onCondition call.joinType) b

/-- The calls under their tables. -/
def joinEntries (calls : List JoinCall) : List (Text × JoinCall) :=
  calls.map fun call => (call.table, call)

/-- The calls whose clauses are written, in the order in which they are. -/
def writtenCalls (calls : List JoinCall) : List JoinCall :=
  (ofEntries compare (joinEntries calls)).toList.map Prod.snd

/-- The text of a `SELECT` in front of its joins. -/
def beforeJoins (b : SQLQueryBuilder) : Text :=
  ("SELECT " : Text) ++
    (if b.selectColumns = [] then ("*" : Text) else joinWith ", " b.selectColumns) ++
    (" FROM " : Text) ++ b.table

/-- The text behind them. -/
def afterJoins (b : SQLQueryBuilder) : Text :=
  b.whereText ++ b.groupByText ++ b.orderByText ++ b.limit ++ b.offset

/-- The clauses of a `SELECT`, each behind a blank. -/
theorem selectText_eq (b : SQLQueryBuilder) :
    b.selectText = b.beforeJoins ++
      (b.joins.toList.map fun clause => (" " : Text) ++ clause.2).flatten ++ b.afterJoins := by
  unfold selectText beforeJoins afterJoins
  simp only [List.append_assoc]

/-- The clauses of calls, each behind a blank. -/
def clausesText (calls : List JoinCall) : Text :=
  (calls.map fun call => (" " : Text) ++ call.clause).flatten

/-- A sequence of calls changes nothing but the joins. -/
theorem joinAll_eq (b : SQLQueryBuilder) (calls : List JoinCall) :
    b.joinAll calls = { b with joins := (b.joinAll calls).joins } := by
  induction calls generalizing b with
  | nil => rfl
  | cons call calls ih =>
      show (b.join call.table call.onCondition call.joinType).joinAll calls = _
      rw [ih]
      rfl

/-- The joins after a sequence of calls are filled call by call. -/
theorem joins_joinAll {b : SQLQueryBuilder} (hjoins : b.joins = ∅) (calls : List JoinCall) :
    (b.joinAll calls).joins =
      ofEntries compare (calls.map fun call => (call.table, call.clause)) := by
  induction calls using List.reverseRecOn with
  | nil => exact hjoins
  | append_singleton calls call ih =>
      have hconcat : b.joinAll (calls ++ [call]) =
          (b.joinAll calls).join call.table call.onCondition call.joinType :=
        List.foldl_concat _ _ _ _
      rw [hconcat, List.map_append, List.map_singleton, ofEntries_concat, ← ih]
      rfl

/-- The clauses in the map are those of the written calls. -/
theorem map_joins {b : SQLQueryBuilder} (hjoins : b.joins = ∅) (calls : List JoinCall) :
    (b.joinAll calls).joins.toList.map Prod.snd = (writtenCalls calls).map JoinCall.clause := by
  have hentries : (calls.map fun call => (call.table, call.clause)) =
      (joinEntries calls).map fun entry => (entry.1, entry.2.clause) := by
    rw [joinEntries, List.map_map]
    rfl
  rw [joins_joinAll hjoins, hentries, ofEntries_map, Std.ExtTreeMap.toList_map, writtenCalls,
    List.map_map, List.map_map]
  rfl

/-- The text of a `SELECT` with joins. -/
theorem get_joinAll {b : SQLQueryBuilder} (hinsert : b.insertValues = ∅)
    (hupdate : b.updateValues = ∅) (hdelete : b.isDeleteQuery = false) (hjoins : b.joins = ∅)
    (calls : List JoinCall) :
    (b.joinAll calls).get = b.beforeJoins ++ clausesText (writtenCalls calls) ++ b.afterJoins := by
  have hclauses : ((b.joinAll calls).joins.toList.map
      (fun clause => (" " : Text) ++ clause.2)).flatten = clausesText (writtenCalls calls) := by
    have hmap := congrArg (List.map fun clause : Text => (" " : Text) ++ clause)
      (map_joins hjoins calls)
    rw [List.map_map, List.map_map] at hmap
    exact congrArg List.flatten hmap
  have hframe := joinAll_eq b calls
  have hselect : (b.joinAll calls).get = (b.joinAll calls).selectText :=
    get_of_select ((congrArg insertValues hframe).trans hinsert)
      ((congrArg updateValues hframe).trans hupdate)
      ((congrArg isDeleteQuery hframe).trans hdelete)
  have hbefore : (b.joinAll calls).beforeJoins = b.beforeJoins :=
    (congrArg beforeJoins hframe).trans rfl
  have hafter : (b.joinAll calls).afterJoins = b.afterJoins :=
    (congrArg afterJoins hframe).trans rfl
  rw [hselect, selectText_eq, hclauses, hbefore, hafter]

/-- A written call stands in the map under its own table. -/
theorem joinEntries_writtenCalls (calls : List JoinCall) :
    joinEntries (writtenCalls calls) = (ofEntries compare (joinEntries calls)).toList := by
  have hkey : ∀ entry ∈ (ofEntries compare (joinEntries calls)).toList,
      (entry.2.table, entry.2) = entry := by
    intro entry hentry
    have hvalue := Std.ExtTreeMap.mem_toList_iff_getElem?_eq_some.mp hentry
    have htable := forall_getElem?_ofEntries (p := fun key call => call.table = key)
      (by simp [joinEntries]) hvalue
    rw [htable]
  rw [joinEntries, writtenCalls, List.map_map]
  exact (List.map_congr_left hkey).trans (List.map_id _)

/-- Every call is kept and the calls stay in order exactly when their tables ascend. -/
theorem writtenCalls_eq_iff (calls : List JoinCall) :
    writtenCalls calls = calls ↔
      calls.Pairwise fun call call' => compare call.table call'.table = .lt := by
  have hascending : Ascending compare (joinEntries calls) ↔
      calls.Pairwise fun call call' => compare call.table call'.table = .lt := by
    rw [Ascending, joinEntries, List.pairwise_map]
  rw [← hascending, ← toList_ofEntries_iff]
  constructor
  · intro h
    rw [← joinEntries_writtenCalls, h]
  · intro h
    rw [writtenCalls, h, joinEntries, List.map_map]
    exact List.map_id calls

/-! ## What the text shows -/

/-- No table is written twice. -/
theorem nodup_writtenCalls (calls : List JoinCall) :
    ((writtenCalls calls).map JoinCall.table).Nodup := by
  have hkeys : (writtenCalls calls).map JoinCall.table =
      (ofEntries compare (joinEntries calls)).keys := by
    rw [← Std.ExtTreeMap.map_fst_toList_eq_keys, ← joinEntries_writtenCalls, joinEntries,
      List.map_map]
    rfl
  rw [hkeys]
  exact Std.ExtTreeMap.nodup_keys

/-- Every written call is one of the calls. -/
theorem writtenCalls_subset (calls : List JoinCall) : writtenCalls calls ⊆ calls := by
  intro call hcall
  obtain ⟨entry, hentry, rfl⟩ := List.mem_map.mp hcall
  exact forall_getElem?_ofEntries (p := fun _ call => call ∈ calls) (by simp [joinEntries])
    (Std.ExtTreeMap.mem_toList_iff_getElem?_eq_some.mp hentry)

theorem clausesText_cons (call : JoinCall) (calls : List JoinCall) :
    clausesText (call :: calls) = (" " : Text) ++ call.clause ++ clausesText calls :=
  List.flatten_cons

theorem length_clausesText_cons (call : JoinCall) (calls : List JoinCall) :
    (clausesText (call :: calls)).length = call.clause.length + 1 + (clausesText calls).length := by
  rw [clausesText_cons, List.length_append]
  rfl

/-- A call that is left out makes the text shorter. -/
theorem length_clausesText_le {calls calls' : List JoinCall} (h : calls.Sublist calls') :
    (clausesText calls).length + calls'.length ≤ (clausesText calls').length + calls.length := by
  induction h with
  | slnil => exact Nat.le_refl _
  | cons call _ ih =>
      rw [length_clausesText_cons, List.length_cons]
      omega
  | cons_cons call _ ih =>
      rw [length_clausesText_cons, length_clausesText_cons, List.length_cons, List.length_cons]
      omega

/-- The order of the clauses does not change the length. -/
theorem length_clausesText_perm {calls calls' : List JoinCall} (h : calls.Perm calls') :
    (clausesText calls).length = (clausesText calls').length :=
  ((h.map _).flatten).length_eq

/-- A text as long as that of all calls has all calls. -/
theorem writtenCalls_perm {calls : List JoinCall}
    (h : clausesText (writtenCalls calls) = clausesText calls) :
    (writtenCalls calls).Perm calls := by
  obtain ⟨kept, hperm, hkept⟩ :=
    (List.Nodup.of_map _ (nodup_writtenCalls calls)).subperm (writtenCalls_subset calls)
  have hle := length_clausesText_le hkept
  rw [length_clausesText_perm hperm, h] at hle
  rw [hkept.eq_of_length_le (by omega)] at hperm
  exact hperm.symm

/-- A word in front of a blank is found in the text. -/
theorem eq_of_word_append {name name' rest rest' : Text} (hname : ' ' ∉ name)
    (hname' : ' ' ∉ name') (h : name ++ ' ' :: rest = name' ++ ' ' :: rest') :
    name = name' ∧ rest = rest' := by
  have hword : ∀ {text : Text} (behind : Text), ' ' ∉ text →
      Reading.word (fun c => c ≠ ' ') (text ++ ' ' :: behind) = some (text, ' ' :: behind) :=
    fun behind htext => Reading.word_append
      (fun c hc => decide_eq_true fun heq => htext (heq ▸ hc)) (by simp)
  have hboth := hword rest hname
  rw [h, hword rest' hname', Option.some_inj, Prod.mk.injEq, List.cons.injEq] at hboth
  exact ⟨hboth.1.symm, hboth.2.2.symm⟩

/-- The first clause of a text shows the table of its call. -/
theorem table_eq_of_clause {call call' : JoinCall} (hcall : call.IsPlain)
    (hcall' : call'.IsPlain) {rest rest' : Text}
    (h : call.clause ++ rest = call'.clause ++ rest') : call.table = call'.table := by
  have hclause : ∀ (call : JoinCall) (rest : Text), call.clause ++ rest =
      call.joinType ++ ' ' :: (("JOIN" : Text) ++ ' ' :: (call.table ++
        ' ' :: (("ON " : Text) ++ call.onCondition ++ rest))) := by
    intro call rest
    simp [JoinCall.clause]
  rw [hclause, hclause] at h
  obtain ⟨-, hbehind⟩ := eq_of_word_append hcall.1 hcall'.1 h
  exact (eq_of_word_append hcall.2 hcall'.2
    (List.cons.inj (List.append_cancel_left hbehind)).2).1

/-- Calls in another order have another text. -/
theorem eq_of_clausesText_eq {calls calls' : List JoinCall} (hperm : calls.Perm calls')
    (hplain : ∀ call ∈ calls, call.IsPlain) (hnodup : (calls.map JoinCall.table).Nodup)
    (htext : clausesText calls = clausesText calls') : calls = calls' := by
  induction calls generalizing calls' with
  | nil => exact hperm.nil_eq
  | cons call calls ih =>
      cases calls' with
      | nil => exact hperm.eq_nil
      | cons call' calls' =>
          have hmem : call' ∈ call :: calls := hperm.mem_iff.mpr List.mem_cons_self
          rw [clausesText_cons, clausesText_cons, List.append_assoc, List.append_assoc,
            List.append_cancel_left_eq] at htext
          have htable := table_eq_of_clause (hplain call List.mem_cons_self)
            (hplain call' hmem) htext
          obtain rfl : call = call' :=
            List.inj_on_of_nodup_map hnodup List.mem_cons_self hmem htable
          rw [List.append_cancel_left_eq] at htext
          rw [ih hperm.cons_inv (fun other hother => hplain other (List.mem_cons_of_mem _ hother))
            (List.nodup_cons.mp hnodup).2 htext]

/-- The text of the written calls is that of all calls when the tables ascend, and only then when
the join types and the tables are words. -/
theorem clausesText_writtenCalls_iff {calls : List JoinCall}
    (hplain : ∀ call ∈ calls, call.IsPlain) :
    clausesText (writtenCalls calls) = clausesText calls ↔
      calls.Pairwise fun call call' => compare call.table call'.table = .lt := by
  rw [← writtenCalls_eq_iff]
  constructor
  · intro htext
    exact eq_of_clausesText_eq (writtenCalls_perm htext)
      (fun call hcall => hplain call (writtenCalls_subset calls hcall)) (nodup_writtenCalls calls)
      htext
  · exact congrArg clausesText

/-- The joins of the query are those of the written calls. They are all the calls, in their order,
exactly when the tables ascend. Then the text has the clauses of all calls in their order, and only
then if the join types and the tables are words. -/
theorem joins_in_order_iff {b : SQLQueryBuilder} (hinsert : b.insertValues = ∅)
    (hupdate : b.updateValues = ∅) (hdelete : b.isDeleteQuery = false) (hjoins : b.joins = ∅)
    (calls : List JoinCall) :
    (b.joinAll calls).get = b.beforeJoins ++ clausesText (writtenCalls calls) ++ b.afterJoins ∧
      (writtenCalls calls = calls ↔
        calls.Pairwise fun call call' => compare call.table call'.table = .lt) ∧
      ((calls.Pairwise fun call call' => compare call.table call'.table = .lt) →
        (b.joinAll calls).get = b.beforeJoins ++ clausesText calls ++ b.afterJoins) ∧
      ((∀ call ∈ calls, call.IsPlain) →
        (b.joinAll calls).get = b.beforeJoins ++ clausesText calls ++ b.afterJoins →
          calls.Pairwise fun call call' => compare call.table call'.table = .lt) := by
  have hget := get_joinAll hinsert hupdate hdelete hjoins calls
  refine ⟨hget, writtenCalls_eq_iff calls, fun hascending => ?_, fun hplain htext => ?_⟩
  · rw [hget, (writtenCalls_eq_iff calls).mpr hascending]
  · rw [hget, List.append_cancel_right_eq, List.append_cancel_left_eq] at htext
    exact (clausesText_writtenCalls_iff hplain).mp htext

/-- Two tables in alphabetical order. -/
def itemsThenOrders : List JoinCall :=
  [⟨"items", "items.user_id = users.id", "INNER"⟩,
    ⟨"orders", "orders.item_id = items.id", "LEFT"⟩]

/-- They are joined in this order. -/
theorem itemsThenOrders_in_order :
    ((ofTable "users").joinAll itemsThenOrders).get =
        (ofTable "users").beforeJoins ++ clausesText itemsThenOrders ++
          (ofTable "users").afterJoins :=
  (joins_in_order_iff rfl rfl rfl rfl itemsThenOrders).2.2.1 (by decide)

/-- Orders of a user, and their items. -/
def ordersThenItems : List JoinCall :=
  [⟨"orders", "orders.user_id = users.id", "INNER"⟩,
    ⟨"items", "items.order_id = orders.id", "INNER"⟩]

/-- The items are joined first, on a table that is not there yet. -/
theorem ordersThenItems_reordered :
    ((ofTable "users").joinAll ordersThenItems).get =
        ("SELECT * FROM users INNER JOIN items ON items.order_id = orders.id" : Text) ++
          (" INNER JOIN orders ON orders.user_id = users.id" : Text) ∧
      ((ofTable "users").joinAll ordersThenItems).get ≠
        (ofTable "users").beforeJoins ++ clausesText ordersThenItems ++
          (ofTable "users").afterJoins ∧
      writtenCalls ordersThenItems ≠ ordersThenItems := by
  decide +kernel

end SQLQueryBuilder

end Brazier
