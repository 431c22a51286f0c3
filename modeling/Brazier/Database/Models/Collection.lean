import Brazier.Database.Models.SaveMany
import Mathlib.Logic.Function.Basic

/-!
# Deleting a collection

`Collection::delete_` of `include/brazier/Database/Collection.hpp` counts an exception of an item's
`delete_` as a failure. `Model::delete_` catches all its exceptions and returns on its other
failures.
-/

namespace Brazier

namespace Collection

/-- The `Database` objects. One without a connection is `none`. -/
abbrev Connections := Nat → Option Database

/-- A model in a collection, with its `database`. -/
structure Item where
  attributes : TextMap
  database : Option Nat

/-- How the `try` block of a model's `delete_` ends, unless it throws. -/
inductive Deletion where
  | deleted
  | noConnection
  | missingId
  deriving DecidableEq

variable (pqEscapeLiteral : Text → Option Text) (cls : ModelClass)

/-- The object that a model uses: its own, or the default one. -/
def Item.connection (item : Item) : Nat := item.database.getD 0

/-- The text of the `DELETE` for an id. -/
def deleteSql (id : Text) : Text :=
  (((SQLQueryBuilder.ofTable cls.tableName).delete).where
    (("id = " : Text) ++ SQLString.escapeString pqEscapeLiteral id) "AND").get

/-- The `try` block of a model's `delete_`. -/
def tryDelete (conns : Connections) (item : Item) : Except Text Deletion × Connections :=
  match conns item.connection with
  | none => (.ok .noConnection, conns)
  | some db =>
      match Model.getAttribute item.attributes "id" with
      | .error e => (.error e, conns)
      | .ok [] => (.ok .missingId, conns)
      | .ok id =>
          let (result, db) := db.execute (deleteSql pqEscapeLiteral cls id)
          (result.map fun _ => .deleted, Function.update conns item.connection (some db))

/-- `delete_` of a model: what the block throws is logged. -/
def Item.delete_ (conns : Connections) (item : Item) : Except Text Unit × Connections :=
  match tryDelete pqEscapeLiteral cls conns item with
  | (.error _, conns) => (.ok (), conns)
  | (.ok _, conns) => (.ok (), conns)

/-- One round of the loop in `delete_`. -/
def deleteNext (acc : Bool × Connections) (item : Item) : Bool × Connections :=
  match item.delete_ pqEscapeLiteral cls acc.2 with
  | (.ok (), conns) => (acc.1, conns)
  | (.error _, conns) => (false, conns)

/-- `Collection::delete_`. -/
def delete_ (conns : Connections) (items : List Item) : Bool × Connections :=
  if items = [] then (false, conns) else items.foldl (deleteNext pqEscapeLiteral cls) (true, conns)

/-- The attempts for the items, one after the other: how each ends, and the objects at the end. -/
def attempts (conns : Connections) : List Item → List (Except Text Deletion) × Connections
  | [] => ([], conns)
  | item :: rest =>
      let first := tryDelete pqEscapeLiteral cls conns item
      let others := attempts first.2 rest
      (first.1 :: others.1, others.2)

/-- The delete of every item succeeds: it has a connection and an id, and the server does its
statement. -/
def EachDeleted (conns : Connections) : List Item → Prop
  | [] => True
  | item :: rest =>
      (∃ db, conns item.connection = some db ∧ db.doesNext = true) ∧
        Model.isPresent item.attributes "id" = true ∧
        EachDeleted (tryDelete pqEscapeLiteral cls conns item).2 rest

variable {pqEscapeLiteral : Text → Option Text} {cls : ModelClass}

/-- An item is deleted when it has a connection and an id and the server does the statement. -/
theorem tryDelete_deleted_iff (conns : Connections) (item : Item) :
    (tryDelete pqEscapeLiteral cls conns item).1 = .ok .deleted ↔
      (∃ db, conns item.connection = some db ∧ db.doesNext = true) ∧
        Model.isPresent item.attributes "id" = true := by
  unfold tryDelete Model.isPresent
  cases hconn : conns item.connection with
  | none =>
      refine iff_of_false (fun h => nomatch h) ?_
      simp
  | some db =>
      cases hget : Model.getAttribute item.attributes "id" with
      | error e =>
          refine iff_of_false (fun h => nomatch h) ?_
          simp
      | ok id =>
          cases id with
          | nil =>
              refine iff_of_false (fun h => nomatch h) ?_
              simp
          | cons c rest =>
              have hdone := db.isOk_execute (deleteSql pqEscapeLiteral cls (c :: rest))
              simp only [Option.some.injEq, exists_eq_left', ← hdone]
              cases (db.execute (deleteSql pqEscapeLiteral cls (c :: rest))).1 with
              | error e => simp [Except.map, Except.isOk, Except.toBool]
              | ok _ => simp [Except.map, Except.isOk, Except.toBool]

/-- `delete_` of a model does not throw, and leaves what its block leaves. -/
theorem item_delete_eq (conns : Connections) (item : Item) :
    item.delete_ pqEscapeLiteral cls conns =
      (.ok (), (tryDelete pqEscapeLiteral cls conns item).2) := by
  unfold Item.delete_
  cases tryDelete pqEscapeLiteral cls conns item with
  | mk result conns' => cases result <;> rfl

/-- The loop makes every attempt and changes no result. -/
theorem foldl_deleteNext (items : List Item) (success : Bool) (conns : Connections) :
    items.foldl (deleteNext pqEscapeLiteral cls) (success, conns) =
      (success, (attempts pqEscapeLiteral cls conns items).2) := by
  induction items generalizing conns with
  | nil => rfl
  | cons item rest ih =>
      have hround : deleteNext pqEscapeLiteral cls (success, conns) item =
          (success, (tryDelete pqEscapeLiteral cls conns item).2) := by
        rw [deleteNext, item_delete_eq]
      rw [List.foldl_cons, hround, ih]
      rfl

/-- Every attempt succeeds exactly when every item is deleted. -/
theorem attempts_deleted_iff (conns : Connections) (items : List Item) :
    (∀ attempt ∈ (attempts pqEscapeLiteral cls conns items).1, attempt = .ok .deleted) ↔
      EachDeleted pqEscapeLiteral cls conns items := by
  induction items generalizing conns with
  | nil => exact iff_of_true (fun attempt h => nomatch h) trivial
  | cons item rest ih =>
      show (∀ attempt ∈ (tryDelete pqEscapeLiteral cls conns item).1 ::
        (attempts pqEscapeLiteral cls (tryDelete pqEscapeLiteral cls conns item).2 rest).1, _) ↔ _
      rw [List.forall_mem_cons, tryDelete_deleted_iff, ih, EachDeleted, and_assoc]

/-- `delete_` of a collection with items returns `true`, and leaves what all attempts leave. -/
theorem delete_eq {items : List Item} (hne : items ≠ []) (conns : Connections) :
    delete_ pqEscapeLiteral cls conns items =
      (true, (attempts pqEscapeLiteral cls conns items).2) := by
  rw [delete_, if_neg hne, foldl_deleteNext]

/-- Every item is attempted. The result tells whether all attempts have succeeded exactly when they
have. -/
theorem delete_reports_iff {items : List Item} (hne : items ≠ []) (conns : Connections) :
    (delete_ pqEscapeLiteral cls conns items).2 =
        (attempts pqEscapeLiteral cls conns items).2 ∧
      (((delete_ pqEscapeLiteral cls conns items).1 = true ↔
          ∀ attempt ∈ (attempts pqEscapeLiteral cls conns items).1, attempt = .ok .deleted) ↔
        EachDeleted pqEscapeLiteral cls conns items) := by
  rw [delete_eq hne, ← attempts_deleted_iff]
  refine ⟨rfl, ?_⟩
  simp only [true_iff]

/-- A connection for every object. -/
def connected : Connections := fun _ => some (Database.connect [] [])

/-- The user with id 7. -/
def userSeven : Item := ⟨(∅ : TextMap).insert "id" "7", none⟩

/-- A collection of this user. -/
theorem delete_reports_userSeven :
    (delete_ quoteLiteral Model.users connected [userSeven]).2 =
        (attempts quoteLiteral Model.users connected [userSeven]).2 ∧
      (((delete_ quoteLiteral Model.users connected [userSeven]).1 = true ↔
          ∀ attempt ∈ (attempts quoteLiteral Model.users connected [userSeven]).1,
            attempt = .ok .deleted) ↔
        EachDeleted quoteLiteral Model.users connected [userSeven]) :=
  delete_reports_iff (List.cons_ne_nil _ _) connected

/-- A user without an id is not deleted, and the collection reports success. -/
theorem missing_id_reported_deleted :
    (delete_ quoteLiteral Model.users connected [⟨∅, none⟩]).1 = true ∧
      (attempts quoteLiteral Model.users connected [⟨∅, none⟩]).1 =
        [.error ("Attribute 'id' not found." : Text)] := by
  refine ⟨?_, ?_⟩
  · rw [delete_eq (List.cons_ne_nil _ _)]
  · decide +kernel

end Collection

end Brazier
