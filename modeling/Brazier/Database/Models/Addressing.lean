import Brazier.Database.Models.InsertedOnce

/-!
# Which row an operation addresses

`find`, `save` and `saveMany` put the id into a condition over the primary key of the class;
`update`, `delete_` and `deleteById` name the column `id` themselves. `rowAddressing_iff` says that
they agree exactly for the classes whose primary key has that name.
-/

namespace Brazier

namespace Model

/-- A query for the row whose column has the id, written as a literal. -/
def whereId (column literal : Text) (b : SQLQueryBuilder) : SQLQueryBuilder :=
  b.where (column ++ (" = " : Text) ++ literal) "AND"

/-- The update values of `update`. -/
def updateValues (pqEscapeLiteral : Text → Option Text) (cls : ModelClass) (data : TextMap) :
    TextMap :=
  escapeValues pqEscapeLiteral (data.filter fun key _ => isField cls key)

/-- Every operation that addresses a row by an id does so over the primary key, and `delete_` of an
object that `save` has just inserted removes its row and no other. -/
structure RowAddressing (pqEscapeLiteral : Text → Option Text) (cls : ModelClass) : Prop where
  find : ∀ id, find cls id =
    [.queryToVector ((whereId cls.primaryKey (intText id)
      (SQLQueryBuilder.ofTable cls.tableName)).setLimit 1).get []]
  save : ∀ attributes, isPresent attributes cls.primaryKey = true →
    (savedValues cls attributes).isEmpty = false →
      save pqEscapeLiteral cls attributes =
        [.execute (whereId cls.primaryKey (attributes.getD cls.primaryKey [])
          ((SQLQueryBuilder.ofTable cls.tableName).update
            (saveValues pqEscapeLiteral cls attributes))).get]
  saveMany : ∀ models, models ≠ [] →
    (∀ m ∈ models, isPresent m cls.primaryKey = true ∧ (updateData cls m).isEmpty = false) →
      saveMany pqEscapeLiteral cls models =
        [.execute (models.flatMap fun m =>
          (whereId cls.primaryKey
            (SQLString.escapeString pqEscapeLiteral (m.getD cls.primaryKey []))
            ((SQLQueryBuilder.ofTable cls.tableName).update
              (escapeValues pqEscapeLiteral (updateData cls m)))).get ++ ("; " : Text))]
  update : ∀ id data, (updateValues pqEscapeLiteral cls data).isEmpty = false →
    update pqEscapeLiteral cls id data =
      [.execute (whereId cls.primaryKey (SQLString.escapeString pqEscapeLiteral (intText id))
        ((SQLQueryBuilder.ofTable cls.tableName).update
          (updateValues pqEscapeLiteral cls data))).get]
  delete_ : ∀ attributes, isPresent attributes cls.primaryKey = true →
    delete_ pqEscapeLiteral cls attributes =
      [.execute (whereId cls.primaryKey
        (SQLString.escapeString pqEscapeLiteral (attributes.getD cls.primaryKey []))
        (SQLQueryBuilder.ofTable cls.tableName).delete).get]
  deleteById : ∀ id, deleteById pqEscapeLiteral cls id =
    [.execute (whereId cls.primaryKey (SQLString.escapeString pqEscapeLiteral (intText id))
      (SQLQueryBuilder.ofTable cls.tableName).delete).get]
  deletesInserted : ∀ (s : Stored) (key : Nat),
    isPresent s.attributes cls.primaryKey = false → (s.save cls (some key)).1 = true →
      ∃ request, deleteRequest (s.save cls (some key)).2.attributes = some request ∧
        (request.perform cls key (s.save cls (some key)).2.rows).2 =
          Function.update (s.save cls (some key)).2.rows key none

variable (pqEscapeLiteral : Text → Option Text) (cls : ModelClass)

/-! ## The operations that use the primary key -/

theorem save_addresses (attributes : TextMap)
    (hpresent : isPresent attributes cls.primaryKey = true)
    (hvalues : (savedValues cls attributes).isEmpty = false) :
    save pqEscapeLiteral cls attributes =
      [.execute (whereId cls.primaryKey (attributes.getD cls.primaryKey [])
        ((SQLQueryBuilder.ofTable cls.tableName).update
          (saveValues pqEscapeLiteral cls attributes))).get] := by
  rw [save_eq, saveRequest, hvalues, if_neg Bool.false_ne_true, if_pos hpresent]
  rfl

/-- The statement of one model in the batch update. -/
theorem batchUpdateOne_addresses {m : TextMap} (hpresent : isPresent m cls.primaryKey = true)
    (hdata : (updateData cls m).isEmpty = false) :
    batchUpdateOne pqEscapeLiteral cls m =
      (whereId cls.primaryKey
        (SQLString.escapeString pqEscapeLiteral (m.getD cls.primaryKey []))
        ((SQLQueryBuilder.ofTable cls.tableName).update
          (escapeValues pqEscapeLiteral (updateData cls m)))).get ++ ("; " : Text) := by
  obtain ⟨value, hvalue, -⟩ := (isPresent_iff _ _).mp hpresent
  unfold batchUpdateOne getAttribute whereId
  rw [Std.ExtTreeMap.getD_eq_getD_getElem?, hvalue]
  simp [hdata]

theorem saveMany_addresses (models : List TextMap) (hne : models ≠ [])
    (hmodels : ∀ m ∈ models,
      isPresent m cls.primaryKey = true ∧ (updateData cls m).isEmpty = false) :
    saveMany pqEscapeLiteral cls models =
      [.execute (models.flatMap fun m =>
        (whereId cls.primaryKey
          (SQLString.escapeString pqEscapeLiteral (m.getD cls.primaryKey []))
          ((SQLQueryBuilder.ofTable cls.tableName).update
            (escapeValues pqEscapeLiteral (updateData cls m)))).get ++ ("; " : Text))] := by
  have htexts : models.map (batchUpdateOne pqEscapeLiteral cls) = models.map fun m =>
      (whereId cls.primaryKey
        (SQLString.escapeString pqEscapeLiteral (m.getD cls.primaryKey []))
        ((SQLQueryBuilder.ofTable cls.tableName).update
          (escapeValues pqEscapeLiteral (updateData cls m)))).get ++ ("; " : Text) :=
    List.map_congr_left fun m hm =>
      batchUpdateOne_addresses pqEscapeLiteral cls (hmodels m hm).1 (hmodels m hm).2
  have hupdate : models.filter (fun m => isPresent m cls.primaryKey) = models :=
    List.filter_eq_self.mpr fun m hm => (hmodels m hm).1
  have hinsert : models.filter (fun m => !isPresent m cls.primaryKey) = [] :=
    List.filter_eq_nil_iff.mpr fun m hm => by simp [(hmodels m hm).1]
  cases models with
  | nil => exact absurd rfl hne
  | cons first rest =>
      unfold saveMany
      dsimp only
      rw [hupdate, hinsert, htexts, if_pos (Or.inl rfl), List.append_nil, List.flatMap_def,
        if_neg]
      intro hnil
      rw [List.map_cons, List.flatten_cons, List.append_assoc] at hnil
      exact absurd hnil (by simp)

/-! ## The operations that name a column -/

theorem deleteById_eq (id : Int) :
    deleteById pqEscapeLiteral cls id =
      [.execute (whereId "id" (SQLString.escapeString pqEscapeLiteral (intText id))
        (SQLQueryBuilder.ofTable cls.tableName).delete).get] := rfl

/-- The text of a deletion has its column in it. -/
theorem delete_column_injective {column column' literal : Text}
    (h : (whereId column literal (SQLQueryBuilder.ofTable cls.tableName).delete).get =
      (whereId column' literal (SQLQueryBuilder.ofTable cls.tableName).delete).get) :
    column = column' := by
  have htext : ∀ column : Text,
      (whereId column literal (SQLQueryBuilder.ofTable cls.tableName).delete).get =
        ("DELETE FROM " : Text) ++ cls.tableName ++
          ((" WHERE " : Text) ++ (column ++ (" = " : Text) ++ literal)) := by
    intro column
    exact SQLQueryBuilder.get_delete_where cls.tableName _ _
  rw [htext, htext] at h
  have hcondition := List.append_cancel_left (List.append_cancel_left h)
  exact List.append_cancel_right (List.append_cancel_right hcondition)

/-- `delete_` removes the row under the key of the object and no other. -/
theorem deletes_inserted (hid : cls.primaryKey = ("id" : Text)) (s : Stored) (key : Nat)
    (habsent : isPresent s.attributes cls.primaryKey = false)
    (htrue : (s.save cls (some key)).1 = true) :
    ∃ request, deleteRequest (s.save cls (some key)).2.attributes = some request ∧
      (request.perform cls key (s.save cls (some key)).2.rows).2 =
        Function.update (s.save cls (some key)).2.rows key none := by
  rcases s.save_cases cls (some key) with hsave | ⟨hpresent, -⟩ | ⟨-, key', hkey, hsave⟩
  · rw [hsave] at htrue
    cases htrue
  · rw [habsent] at hpresent
    cases hpresent
  · obtain rfl : key = key' := Option.some.inj hkey
    rw [hsave]
    have hfound : (s.insertedAt cls key).attributes[("id" : Text)]? = some (natText key) := by
      change (s.attributes.insert cls.primaryKey (natText key))[("id" : Text)]? = _
      rw [getElem?_insert, if_pos hid]
    have hpresent : isPresent (s.insertedAt cls key).attributes "id" = true :=
      (isPresent_iff _ _).mpr ⟨natText key, hfound, natText_ne_nil key⟩
    refine ⟨.delete "id" (natText key), ?_, ?_⟩
    · unfold deleteRequest
      rw [if_pos hpresent, Std.ExtTreeMap.getD_eq_getD_getElem?, hfound, Option.getD_some]
    · funext k
      unfold RowRequest.perform
      dsimp only
      by_cases hk : k = key
      · subst hk
        rw [Function.update_self]
        cases (s.insertedAt cls k).rows k with
        | none => rfl
        | some row => simp [Option.filter, cell, hid]
      · have hne : natText k ≠ natText key := fun h => hk (natText_injective h)
        rw [Function.update_of_ne hk]
        cases (s.insertedAt cls key).rows k with
        | none => rfl
        | some row => simp [Option.filter, cell, hid, hne]

/-- `deleteById` addresses a row over the primary key only where that is `id`. -/
theorem primaryKey_of_deleteById {id : Int}
    (h : deleteById pqEscapeLiteral cls id =
      [.execute (whereId cls.primaryKey (SQLString.escapeString pqEscapeLiteral (intText id))
        (SQLQueryBuilder.ofTable cls.tableName).delete).get]) :
    cls.primaryKey = ("id" : Text) := by
  rw [deleteById_eq] at h
  have htext := Database.Call.execute.inj (List.head_eq_of_cons_eq h)
  exact (delete_column_injective cls htext).symm

/-- All operations address the row over the primary key exactly when it is called `id`. -/
theorem rowAddressing_iff : RowAddressing pqEscapeLiteral cls ↔ cls.primaryKey = ("id" : Text) := by
  constructor
  · intro h
    exact primaryKey_of_deleteById pqEscapeLiteral cls (h.deleteById 0)
  · intro hid
    exact
      { find := fun id => rfl
        save := save_addresses pqEscapeLiteral cls
        saveMany := saveMany_addresses pqEscapeLiteral cls
        update := fun id data hdata => by
          rw [hid]
          unfold updateValues at hdata ⊢
          unfold Model.update
          dsimp only
          rw [if_neg (by rw [hdata]; exact Bool.false_ne_true)]
          rfl
        delete_ := fun attributes hpresent => by
          rw [hid] at hpresent ⊢
          rw [delete_eq, if_pos hpresent, Std.ExtTreeMap.getD_eq_getD_getElem?]
          rfl
        deleteById := fun id => by rw [deleteById_eq, hid]
        deletesInserted := deletes_inserted cls hid }

/-- A class whose primary key is called `user_id`. -/
theorem user_id_not_addressed :
    ¬ RowAddressing (fun value => some (("'" : Text) ++ value ++ ("'" : Text)))
      ⟨"users", "user_id", ["user_id".toList, "name".toList]⟩ := by
  intro h
  have hid := primaryKey_of_deleteById _ _ (h.deleteById 5)
  exact absurd hid (by decide)

end Model

end Brazier
