import Brazier.Database.Models.Model
import Mathlib.Data.List.Forall2

/-!
# Values in the statements of the models

A value is to occur in a statement only as an escaped literal. Blanking the literals means to
escape every value to one and the same literal. The values are hidden if the blanked statements of
an operation do not change with the values, as long as the keys and the outcomes of the tests for
empty values stay the same. `values_hidden_iff` says for which operations they are.
-/

namespace Brazier

namespace Model

/-- An operation of a model class on a connection. -/
inductive Operation where
  | save (attributes : TextMap)
  | update (id : Int) (data : TextMap)
  | delete_ (attributes : TextMap)
  | saveMany (models : List TextMap)
  | firstOrCreate (attributes values : TextMap)
  | belongsTo (related : ModelClass) (attributes : TextMap) (foreignKey ownerKey : Text)
  | hasMany (related : ModelClass) (attributes : TextMap) (foreignKey localKey : Text)

/-- The calls an operation makes. -/
def Operation.calls (pqEscapeLiteral : Text → Option Text) (cls : ModelClass) :
    Operation → List Database.Call
  | .save attributes => Model.save pqEscapeLiteral cls attributes
  | .update id data => Model.update pqEscapeLiteral cls id data
  | .delete_ attributes => Model.delete_ pqEscapeLiteral cls attributes
  | .saveMany models => Model.saveMany pqEscapeLiteral cls models
  | .firstOrCreate attributes values => Model.firstOrCreate cls attributes values
  | .belongsTo related attributes foreignKey ownerKey =>
      Model.belongsTo related attributes foreignKey ownerKey
  | .hasMany related attributes foreignKey localKey =>
      Model.hasMany related attributes foreignKey localKey

/-- The two maps have the same keys. -/
def SameKeys (a b : TextMap) : Prop :=
  ∀ key : Text, a[key]?.isSome = b[key]?.isSome

/-- The two models have the same attributes, and the same ones of them are empty. -/
structure SameAttributes (a b : TextMap) : Prop where
  keys : SameKeys a b
  present : ∀ key, isPresent a key = isPresent b key

/-- The operations differ in values only, and not in the outcome of a test that the operation
makes for an empty value. -/
inductive SameShape (cls : ModelClass) : Operation → Operation → Prop where
  | save {a b : TextMap} (keys : SameKeys a b)
      (id : isPresent a cls.primaryKey = isPresent b cls.primaryKey) :
      SameShape cls (.save a) (.save b)
  | update {a b : TextMap} (i j : Int) (keys : SameKeys a b) :
      SameShape cls (.update i a) (.update j b)
  | delete_ {a b : TextMap} (keys : SameKeys a b)
      (id : isPresent a ("id" : Text) = isPresent b ("id" : Text)) :
      SameShape cls (.delete_ a) (.delete_ b)
  | saveMany {as bs : List TextMap} (models : List.Forall₂ SameAttributes as bs) :
      SameShape cls (.saveMany as) (.saveMany bs)
  | firstOrCreate {a b v w : TextMap} (keys : SameKeys a b) (values : SameKeys v w) :
      SameShape cls (.firstOrCreate a v) (.firstOrCreate b w)
  | belongsTo {a b : TextMap} (related : ModelClass) (foreignKey ownerKey : Text)
      (keys : SameKeys a b) (key : isPresent a foreignKey = isPresent b foreignKey) :
      SameShape cls (.belongsTo related a foreignKey ownerKey)
        (.belongsTo related b foreignKey ownerKey)
  | hasMany {a b : TextMap} (related : ModelClass) (foreignKey localKey : Text)
      (keys : SameKeys a b) (key : isPresent a localKey = isPresent b localKey) :
      SameShape cls (.hasMany related a foreignKey localKey)
        (.hasMany related b foreignKey localKey)

/-- The calls of an operation with every literal blanked out. -/
def Operation.blanked (literal : Text) (cls : ModelClass) (op : Operation) :
    List Database.Call :=
  op.calls (fun _ => some literal) cls

/-- Blanked statements do not depend on the values. -/
def ValuesHidden (cls : ModelClass) (op : Operation) : Prop :=
  ∀ literal op', SameShape cls op op' → op'.blanked literal cls = op.blanked literal cls

/-- The operation does not come to one of the four places where a value is copied into the text:
the id of `save`, the values of `firstOrCreate`, the keys of `belongsTo` and `hasMany`. -/
def CopiesNothing (cls : ModelClass) : Operation → Prop
  | .save attributes => isPresent attributes cls.primaryKey = true →
      ∀ key : Text, attributes[key]?.isSome = true → key = cls.primaryKey
  | .firstOrCreate attributes _ => attributes = ∅
  | .belongsTo _ attributes foreignKey _ => isPresent attributes foreignKey = false
  | .hasMany _ attributes _ localKey => isPresent attributes localKey = false
  | _ => True

variable {cls : ModelClass} {literal : Text} {a b : TextMap}

/-! ## Blanked values -/

/-- Every value is blanked to the same literal. -/
theorem escape_blank (literal value : Text) :
    SQLString.escapeString (fun _ => some literal) value = literal := by
  simp only [SQLString.escapeString]

/-- Filtering by the key keeps the same keys. -/
theorem SameKeys.filter (h : SameKeys a b) (p : Text → Bool) :
    SameKeys (a.filter (fun key _ => p key)) (b.filter (fun key _ => p key)) := by
  intro key
  have hkey := h key
  rw [Std.ExtTreeMap.getElem?_filter', Std.ExtTreeMap.getElem?_filter']
  cases ha : a[key]? <;> cases hb : b[key]? <;> simp_all [Option.filter]
  cases p key <;> simp

/-- Maps with the same keys are the same when blanked. -/
theorem SameKeys.escapeValues (h : SameKeys a b) (literal : Text) :
    escapeValues (fun _ => some literal) a = escapeValues (fun _ => some literal) b := by
  refine Std.ExtTreeMap.ext_getElem? ?_
  intro key
  have hkey := h key
  rw [Model.escapeValues, Model.escapeValues, Std.ExtTreeMap.getElem?_map,
    Std.ExtTreeMap.getElem?_map]
  cases ha : a[key]? <;> cases hb : b[key]? <;> simp_all [escape_blank]

/-- A map is empty when it has no key. -/
theorem isEmpty_iff_no_key (a : TextMap) :
    a.isEmpty = true ↔ ∀ key : Text, a[key]?.isSome = false := by
  rw [Std.ExtTreeMap.isEmpty_iff]
  constructor
  · rintro rfl key
    simp
  · intro h
    refine Std.ExtTreeMap.ext_getElem? (fun key => ?_)
    have hnone : a[key]? = none :=
      Option.isNone_iff_eq_none.mp (Option.isSome_eq_false_iff.mp (h key))
    rw [hnone, Std.ExtTreeMap.getElem?_empty]

/-! ## Operations that escape every value -/

/-- `save` without an id. -/
theorem blanked_save (hkeys : SameKeys a b) (hid : isPresent a cls.primaryKey = false)
    (hid' : isPresent b cls.primaryKey = false) :
    (Operation.save b).blanked literal cls = (Operation.save a).blanked literal cls := by
  have hvalues : saveValues (fun _ => some literal) cls b =
      saveValues (fun _ => some literal) cls a :=
    ((hkeys.filter (fun key => key ≠ cls.primaryKey)).escapeValues literal).symm
  simp only [Operation.blanked, Operation.calls, Model.save, hvalues, hid, hid',
    Bool.false_eq_true, if_false]

/-- `update`. -/
theorem blanked_update (i j : Int) (hkeys : SameKeys a b) :
    (Operation.update j b).blanked literal cls = (Operation.update i a).blanked literal cls := by
  have hvalues := (hkeys.filter (isField cls)).escapeValues literal
  simp only [Operation.blanked, Operation.calls, Model.update, hvalues, escape_blank]

/-- `delete_`, by the test for an id. -/
theorem delete_eq (pqEscapeLiteral : Text → Option Text) (cls : ModelClass) (a : TextMap) :
    Model.delete_ pqEscapeLiteral cls a =
      if isPresent a ("id" : Text) then
        [.execute (((SQLQueryBuilder.ofTable cls.tableName).delete).where
          (("id = " : Text) ++
            SQLString.escapeString pqEscapeLiteral (a[("id" : Text)]?.getD [])) "AND").get]
      else [] := by
  unfold Model.delete_ isPresent Model.getAttribute
  cases a[("id" : Text)]? with
  | none => rfl
  | some id => cases id <;> rfl

/-- `delete_`. -/
theorem blanked_delete (hid : isPresent a ("id" : Text) = isPresent b ("id" : Text)) :
    (Operation.delete_ b).blanked literal cls = (Operation.delete_ a).blanked literal cls := by
  simp only [Operation.blanked, Operation.calls, delete_eq, hid, escape_blank]

/-- Whether a key is in the data after one more field. -/
theorem mem_add_field (cls : ModelClass) (a data : TextMap) (field key : Text) :
    (addField cls a data field)[key]?.isSome =
      (data[key]?.isSome ||
        (field ≠ cls.primaryKey && isPresent a field && decide (field = key))) := by
  unfold addField isPresent
  by_cases hpk : field = cls.primaryKey
  · simp [hpk]
  · cases Model.getAttribute a field with
    | error e => simp [hpk]
    | ok value =>
        cases value with
        | nil => simp [hpk]
        | cons c rest =>
            rw [if_neg hpk]
            by_cases hkey : field = key
            · subst hkey
              simp [hpk]
            · simp [hpk, hkey, Std.ExtTreeMap.getElem?_insert]

/-- The update data of models with the same attributes. -/
theorem same_keys_update_data (h : SameAttributes a b) :
    SameKeys (updateData cls a) (updateData cls b) := by
  have hfold : ∀ (fields : List Text) (x y : TextMap), SameKeys x y →
      SameKeys (fields.foldl (addField cls a) x) (fields.foldl (addField cls b) y) := by
    intro fields
    induction fields with
    | nil => exact fun _ _ hxy => hxy
    | cons field rest ih =>
        intro x y hxy
        refine ih _ _ (fun key => ?_)
        rw [mem_add_field, mem_add_field, hxy key, h.present field]
  exact hfold cls.fields ∅ ∅ (fun _ => rfl)

/-- One model of the batch update. -/
theorem blanked_batch_update_one (h : SameAttributes a b) :
    batchUpdateOne (fun _ => some literal) cls b =
      batchUpdateOne (fun _ => some literal) cls a := by
  have hdata : SameKeys (updateData cls a) (updateData cls b) := same_keys_update_data h
  have hvalues := hdata.escapeValues literal
  have hempty : (updateData cls b).isEmpty = (updateData cls a).isEmpty := by
    rw [Bool.eq_iff_iff, isEmpty_iff_no_key, isEmpty_iff_no_key]
    exact forall_congr' (fun key => by rw [hdata key])
  have hkey := h.keys cls.primaryKey
  unfold batchUpdateOne Model.getAttribute
  cases ha : a[cls.primaryKey]? <;> cases hb : b[cls.primaryKey]? <;>
    simp_all [escape_blank]

/-- One row of the batch insert. -/
theorem blanked_insert_row (h : SameKeys a b) (columns : List Text) :
    insertRow (fun _ => some literal) columns b = insertRow (fun _ => some literal) columns a := by
  have hcell : ∀ col, (do
        let value ← Model.getAttribute b col
        return SQLString.escapeString (fun _ => some literal) value) = (do
        let value ← Model.getAttribute a col
        return SQLString.escapeString (fun _ => some literal) value) := by
    intro col
    have hkey := h col
    unfold Model.getAttribute
    cases ha : a[col]? <;> cases hb : b[col]? <;> simp_all [escape_blank]
  unfold insertRow
  rw [funext hcell]

/-- Models that pass a test, seen through a function that does not tell related models apart. -/
theorem map_filter_congr {γ : Type} {R : TextMap → TextMap → Prop} {p : TextMap → Bool}
    {g : TextMap → γ} (hp : ∀ a b, R a b → p a = p b) (hg : ∀ a b, R a b → g b = g a)
    {as bs : List TextMap} (h : List.Forall₂ R as bs) :
    (bs.filter p).map g = (as.filter p).map g := by
  induction h with
  | nil => rfl
  | cons hab hrest ih =>
      rename_i a b as bs
      have hpab := hp a b hab
      cases hpb : p b <;> simp_all [hg a b hab]

/-- The batch insert depends on its rows. -/
theorem batch_insert_congr {pqEscapeLiteral : Text → Option Text} {columns : List Text}
    {as bs : List TextMap}
    (h : bs.map (insertRow pqEscapeLiteral columns) = as.map (insertRow pqEscapeLiteral columns)) :
    batchInsert pqEscapeLiteral cls columns bs = batchInsert pqEscapeLiteral cls columns as := by
  have hmap : ∀ models : List TextMap, models.mapM (insertRow pqEscapeLiteral columns) =
      (models.map (insertRow pqEscapeLiteral columns)).mapM id := fun _ => by simp
  unfold batchInsert
  rw [hmap bs, hmap as, h]

/-- `saveMany`. -/
theorem blanked_save_many {as bs : List TextMap} (h : List.Forall₂ SameAttributes as bs) :
    (Operation.saveMany bs).blanked literal cls = (Operation.saveMany as).blanked literal cls := by
  cases h with
  | nil => rfl
  | cons hfirst hrest =>
      rename_i first first' rest rest'
      have hall : List.Forall₂ SameAttributes (first :: rest) (first' :: rest') :=
        .cons hfirst hrest
      have hcolumns : insertColumns cls first' = insertColumns cls first := by
        unfold insertColumns
        simp only [hfirst.present]
      have hupdate := map_filter_congr (p := fun m => isPresent m cls.primaryKey)
        (g := batchUpdateOne (fun _ => some literal) cls)
        (fun _ _ hab => hab.present cls.primaryKey)
        (fun _ _ hab => blanked_batch_update_one hab) hall
      have hinsert := map_filter_congr (R := SameAttributes)
        (p := fun m => !isPresent m cls.primaryKey)
        (g := insertRow (fun _ => some literal) (insertColumns cls first))
        (fun _ _ hab => by rw [hab.present cls.primaryKey])
        (fun _ _ hab => blanked_insert_row hab.keys _) hall
      have hempty : (first' :: rest').filter (fun m => !isPresent m cls.primaryKey) = [] ↔
          (first :: rest).filter (fun m => !isPresent m cls.primaryKey) = [] := by
        rw [← List.map_eq_nil_iff, hinsert, List.map_eq_nil_iff]
      simp only [Operation.blanked, Operation.calls, Model.saveMany, hcolumns, hupdate, hempty,
        batch_insert_congr hinsert]

/-! ## Operations that copy a value -/

/-- `belongsTo`, by the test for a foreign key. -/
theorem belongs_to_eq (related : ModelClass) (a : TextMap) (foreignKey ownerKey : Text) :
    Model.belongsTo related a foreignKey ownerKey =
      if isPresent a foreignKey then
        Model.where related (ownerKey ++ (" = " : Text) ++ a[foreignKey]?.getD [])
      else [] := by
  unfold Model.belongsTo isPresent Model.getAttribute
  cases a[foreignKey]? with
  | none => rfl
  | some value => cases value <;> rfl

/-- `hasMany`, by the test for a local key. -/
theorem has_many_eq (related : ModelClass) (a : TextMap) (foreignKey localKey : Text) :
    Model.hasMany related a foreignKey localKey =
      if isPresent a localKey then
        Model.where related (foreignKey ++ (" = " : Text) ++ a[localKey]?.getD [])
      else [] := by
  unfold Model.hasMany isPresent Model.getAttribute
  cases a[localKey]? with
  | none => rfl
  | some value => cases value <;> rfl

/-- Different conditions make different statements. -/
theorem where_injective (cls : ModelClass) {condition condition' : Text}
    (h : Model.where cls condition = Model.where cls condition') : condition = condition' := by
  unfold Model.where at h
  rw [SQLQueryBuilder.get_select_where, SQLQueryBuilder.get_select_where] at h
  simpa using h

/-- A present attribute has a value that is not empty. -/
theorem isPresent_iff (a : TextMap) (key : Text) :
    isPresent a key = true ↔ ∃ value, a[key]? = some value ∧ value ≠ [] := by
  unfold isPresent Model.getAttribute
  cases a[key]? <;> simp

/-- The map with the value of a key made longer. -/
def lengthen (a : TextMap) (key : Text) : TextMap :=
  a.insert key (a[key]?.getD [] ++ ("0" : Text))

/-- Lookup in a lengthened map. -/
theorem getElem?_lengthen (a : TextMap) (key k : Text) :
    (lengthen a key)[k]? = if key = k then some (a[key]?.getD [] ++ ("0" : Text)) else a[k]? := by
  simp [lengthen, Std.ExtTreeMap.getElem?_insert]

/-- Lengthening a present value keeps the keys. -/
theorem same_keys_lengthen {key : Text} (h : isPresent a key = true) :
    SameKeys a (lengthen a key) := by
  obtain ⟨value, hvalue, -⟩ := (isPresent_iff a key).mp h
  intro k
  rw [getElem?_lengthen]
  by_cases hk : key = k
  · subst hk
    rw [if_pos rfl, hvalue]
    rfl
  · rw [if_neg hk]

/-- A lengthened value is present. -/
theorem isPresent_lengthen (a : TextMap) (key : Text) : isPresent (lengthen a key) key = true := by
  rw [isPresent_iff, getElem?_lengthen, if_pos rfl]
  exact ⟨_, rfl, by simp⟩

/-- Lengthening changes the value. -/
theorem lengthen_ne (a : TextMap) (key : Text) :
    (lengthen a key)[key]?.getD [] ≠ a[key]?.getD [] := by
  rw [getElem?_lengthen, if_pos rfl]
  simp

/-- `save` with an id and another attribute copies the id. -/
theorem not_hidden_save (hid : isPresent a cls.primaryKey = true) {key : Text}
    (hkey : a[key]?.isSome = true) (hne : key ≠ cls.primaryKey) :
    ¬ ValuesHidden cls (.save a) := by
  intro hidden
  have heq := hidden [] _ (.save (same_keys_lengthen hid)
    (hid.trans (isPresent_lengthen a cls.primaryKey).symm))
  have hvalues : saveValues (fun _ => some []) cls (lengthen a cls.primaryKey) =
      saveValues (fun _ => some []) cls a :=
    (((same_keys_lengthen hid).filter (fun key => key ≠ cls.primaryKey)).escapeValues []).symm
  have hnonempty : (saveValues (fun _ => some []) cls a).isEmpty = false := by
    rw [Bool.eq_false_iff]
    intro hempty
    have hnone := (isEmpty_iff_no_key _).mp hempty key
    rw [saveValues, Model.escapeValues, Std.ExtTreeMap.getElem?_map,
      Std.ExtTreeMap.getElem?_filter'] at hnone
    obtain ⟨value, hvalue⟩ := Option.isSome_iff_exists.mp hkey
    simp [hvalue, Option.filter, hne] at hnone
  have hid' := isPresent_lengthen a cls.primaryKey
  simp only [Operation.blanked, Operation.calls, Model.save, hvalues, hnonempty, hid, hid',
    Bool.false_eq_true, if_false, if_true, SQLQueryBuilder.get_update_where _ hnonempty] at heq
  simp only [List.cons.injEq, Database.Call.execute.injEq, List.append_cancel_left_eq,
    Std.ExtTreeMap.getD_eq_getD_getElem?, and_true] at heq
  exact lengthen_ne a cls.primaryKey heq

/-- Longer values make a longer condition. -/
theorem length_addCondition_lt {condition condition' : Text}
    (hnil : condition = [] ↔ condition' = []) (hle : condition.length ≤ condition'.length)
    (key value : Text) :
    (addCondition condition key value).length <
      (addCondition condition' key (value ++ ("0" : Text))).length := by
  unfold addCondition
  by_cases hempty : condition = []
  · rw [if_pos hempty, if_pos (hnil.mp hempty)]
    simp
  · rw [if_neg hempty, if_neg (fun h => hempty (hnil.mpr h))]
    simp
    omega

/-- Longer values make a longer condition, or there are none. -/
theorem length_condition (cols : List (Text × Text)) :
    ∀ condition condition' : Text, (condition = [] ↔ condition' = []) →
      condition.length ≤ condition'.length →
      cols = [] ∨
        (cols.foldl (fun c col => addCondition c col.1 col.2) condition).length <
          ((cols.map (fun col => (col.1, col.2 ++ ("0" : Text)))).foldl
            (fun c col => addCondition c col.1 col.2) condition').length := by
  induction cols with
  | nil => exact fun _ _ _ _ => Or.inl rfl
  | cons col rest ih =>
      intro condition condition' hnil hle
      have hlt := length_addCondition_lt hnil hle col.1 col.2
      have hne : ∀ c value : Text, addCondition c col.1 value ≠ [] := by
        intro c value
        simp [addCondition]
      right
      rcases ih _ _ (iff_of_false (hne condition col.2)
        (hne condition' (col.2 ++ ("0" : Text)))) hlt.le with rfl | hrest
      · exact hlt
      · exact hrest

/-- `firstOrCreate` with an attribute copies its value. -/
theorem not_hidden_first_or_create (v : TextMap) (hne : a ≠ ∅) :
    ¬ ValuesHidden cls (.firstOrCreate a v) := by
  intro hidden
  let longer : TextMap := a.map (fun _ value => value ++ ("0" : Text))
  have hkeys : SameKeys a longer := by
    intro key
    rw [Std.ExtTreeMap.getElem?_map, Option.isSome_map]
  have heq := where_injective cls
    (hidden [] _ (.firstOrCreate hkeys (fun _ => rfl : SameKeys v v)))
  have htoList : a.toList ≠ [] := by
    intro h
    exact hne (Std.ExtTreeMap.toList_eq_nil_iff.mp h)
  unfold firstOrCreateCondition at heq
  rw [Std.ExtTreeMap.foldl_eq_foldl_toList, Std.ExtTreeMap.foldl_eq_foldl_toList,
    Std.ExtTreeMap.toList_map] at heq
  rcases length_condition a.toList [] [] Iff.rfl le_rfl with h | h
  · exact htoList h
  · rw [heq] at h
    exact absurd h (lt_irrefl _)

/-- `belongsTo` and `hasMany` copy the value of a present key. -/
theorem where_lengthen_ne (related : ModelClass) (a : TextMap) (key column : Text) :
    Model.where related (column ++ (" = " : Text) ++ (lengthen a key)[key]?.getD []) ≠
      Model.where related (column ++ (" = " : Text) ++ a[key]?.getD []) := by
  intro h
  have hcondition := where_injective related h
  rw [List.append_cancel_left_eq] at hcondition
  exact lengthen_ne a key hcondition

/-- A lookup by the value of a key hides the value exactly when there is none to look up. -/
theorem hidden_lookup_iff {related : ModelClass} {key column : Text}
    {lookup : TextMap → List Database.Call}
    (hlookup : ∀ a, lookup a = if isPresent a key then
      Model.where related (column ++ (" = " : Text) ++ a[key]?.getD []) else []) (a : TextMap) :
    (∀ b, SameKeys a b → isPresent a key = isPresent b key → lookup b = lookup a) ↔
      isPresent a key = false := by
  constructor
  · intro hidden
    by_contra hne
    have hpresent : isPresent a key = true := Bool.not_eq_false _ ▸ hne
    have heq := hidden (lengthen a key) (same_keys_lengthen hpresent)
      (hpresent.trans (isPresent_lengthen a key).symm)
    rw [hlookup, hlookup, hpresent, isPresent_lengthen, if_pos rfl, if_pos rfl] at heq
    exact where_lengthen_ne related a key column heq
  · intro hpresent b _ hkey
    rw [hlookup, hlookup, ← hkey, hpresent, if_neg Bool.false_ne_true, if_neg Bool.false_ne_true]

/-- A model with nothing but its primary key is not saved. -/
theorem save_of_only_id (pqEscapeLiteral : Text → Option Text)
    (h : ∀ key : Text, a[key]?.isSome = true → key = cls.primaryKey) :
    Model.save pqEscapeLiteral cls a = [] := by
  have hempty : (saveValues pqEscapeLiteral cls a).isEmpty = true := by
    rw [isEmpty_iff_no_key]
    intro key
    rw [saveValues, Model.escapeValues, Std.ExtTreeMap.getElem?_map, Option.isSome_map,
      Std.ExtTreeMap.getElem?_filter']
    cases hkey : a[key]? with
    | none => rfl
    | some value =>
        have hpk := h key (by rw [hkey]; rfl)
        simp [Option.filter, hpk]
  exact if_pos hempty

/-- The blanked statements of an operation do not depend on its values exactly when it copies
none of them into the text. -/
theorem values_hidden_iff (cls : ModelClass) (op : Operation) :
    ValuesHidden cls op ↔ CopiesNothing cls op := by
  cases op with
  | save a =>
      constructor
      · intro hidden hid key hkey
        by_contra hne
        exact not_hidden_save hid hkey hne hidden
      · intro hcopies literal op' hshape
        cases hshape with
        | @save _ b hkeys hid =>
            cases hpresent : isPresent a cls.primaryKey with
            | false => exact blanked_save hkeys hpresent (hid.symm.trans hpresent)
            | true =>
                have honly := hcopies hpresent
                have honly' : ∀ key : Text, b[key]?.isSome = true → key = cls.primaryKey :=
                  fun key hkey => honly key ((hkeys key).trans hkey)
                simp only [Operation.blanked, Operation.calls, save_of_only_id _ honly,
                  save_of_only_id _ honly']
  | update i a =>
      refine iff_of_true ?_ trivial
      intro literal op' hshape
      cases hshape with
      | update _ j hkeys => exact blanked_update i j hkeys
  | delete_ a =>
      refine iff_of_true ?_ trivial
      intro literal op' hshape
      cases hshape with
      | delete_ _ hid => exact blanked_delete hid
  | saveMany as =>
      refine iff_of_true ?_ trivial
      intro literal op' hshape
      cases hshape with
      | saveMany hmodels => exact blanked_save_many hmodels
  | firstOrCreate a v =>
      constructor
      · intro hidden
        by_contra hne
        exact not_hidden_first_or_create v hne hidden
      · rintro (rfl : a = ∅) literal op' hshape
        cases hshape with
        | @firstOrCreate _ b _ w hkeys _ =>
            have hb : b = ∅ := by
              rw [← Std.ExtTreeMap.isEmpty_iff, isEmpty_iff_no_key]
              intro key
              rw [← hkeys key]
              simp
            simp only [Operation.blanked, Operation.calls, Model.firstOrCreate, hb]
  | belongsTo related a foreignKey ownerKey =>
      rw [CopiesNothing,
        ← hidden_lookup_iff (fun b => belongs_to_eq related b foreignKey ownerKey) a]
      constructor
      · intro hidden b hkeys hkey
        exact hidden [] _ (.belongsTo related foreignKey ownerKey hkeys hkey)
      · intro hlookup literal op' hshape
        cases hshape with
        | belongsTo _ _ _ hkeys hkey => exact hlookup _ hkeys hkey
  | hasMany related a foreignKey localKey =>
      rw [CopiesNothing, ← hidden_lookup_iff (fun b => has_many_eq related b foreignKey localKey) a]
      constructor
      · intro hidden b hkeys hkey
        exact hidden [] _ (.hasMany related foreignKey localKey hkeys hkey)
      · intro hlookup literal op' hshape
        cases hshape with
        | hasMany _ _ _ hkeys hkey => exact hlookup _ hkeys hkey

/-- The class of users. -/
def users : ModelClass := ⟨"users", "id", ["id", "login"]⟩

/-- A model whose id is a condition. -/
def anyRow : TextMap := ((∅ : TextMap).insert "id" "7 OR 1 = 1").insert "login" "ann"

/-- The id is read as a condition, so that every row is updated, and no literal can be blanked
out. -/
theorem id_is_syntax :
    ¬ ValuesHidden users (.save anyRow) ∧
    (Operation.save anyRow).calls quoteLiteral users =
      [.execute "UPDATE users SET login = 'ann' WHERE id = 7 OR 1 = 1"] := by
  have hid : isPresent anyRow users.primaryKey = true := by decide
  have hlogin : (anyRow[("login" : Text)]?).isSome = true := by decide
  exact ⟨not_hidden_save hid hlogin (by decide), by decide +kernel⟩

end Model

end Brazier
