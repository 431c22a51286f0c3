import Mathlib.Data.List.Induction

/-!
# Records that are overwritten in order

A write gives values to some fields of the records whose keys it selects. `run_eq` says what a list
of writes leaves in a table: under every field the last value that was written, and `run_eq_run_iff`
when two lists of writes leave the same.
-/

namespace ProofLib

variable {κ γ ν : Type*}

/-- A record: a key that is never written, and fields. -/
@[ext]
structure Record (κ γ ν : Type*) where
  key : κ
  fields : γ → Option ν

/-- A write. -/
structure Write (κ γ ν : Type*) where
  selects : κ → Bool
  values : γ → Option ν

namespace Write

/-- The value for a field of the record under a key. -/
def valueFor (write : Write κ γ ν) (key : κ) (field : γ) : Option ν :=
  if write.selects key then write.values field else none

/-- A write on a record. -/
def on (write : Write κ γ ν) (record : Record κ γ ν) : Record κ γ ν :=
  { record with
    fields := fun field => (write.valueFor record.key field).or (record.fields field) }

/-- The writes on a table, in order. -/
def run (writes : List (Write κ γ ν)) (table : List (Record κ γ ν)) : List (Record κ γ ν) :=
  writes.foldl (fun table write => table.map write.on) table

/-- The last value that is written to a field. -/
def lastValue (writes : List (Write κ γ ν)) (key : κ) (field : γ) : Option ν :=
  (writes.filterMap fun write => write.valueFor key field).getLast?

/-- A record, as the writes leave it. -/
def after (writes : List (Write κ γ ν)) (record : Record κ γ ν) : Record κ γ ν :=
  { record with
    fields := fun field => (lastValue writes record.key field).or (record.fields field) }

theorem run_append (earlier later : List (Write κ γ ν)) (table : List (Record κ γ ν)) :
    run (earlier ++ later) table = run later (run earlier table) :=
  List.foldl_append

/-- The last value comes from the last write, if that gives one. -/
theorem lastValue_concat (writes : List (Write κ γ ν)) (write : Write κ γ ν) (key : κ) (field : γ) :
    lastValue (writes ++ [write]) key field =
      (write.valueFor key field).or (lastValue writes key field) := by
  have hlast : ([write].filterMap fun write => write.valueFor key field) =
      (write.valueFor key field).toList := by
    rw [List.filterMap_cons, List.filterMap_nil]
    cases write.valueFor key field <;> rfl
  rw [lastValue, List.filterMap_append, hlast]
  cases write.valueFor key field with
  | none =>
      rw [Option.toList_none, List.append_nil, Option.none_or]
      rfl
  | some value =>
      rw [Option.toList_some, List.getLast?_concat, Option.some_or]

/-- One more write on a record. -/
theorem on_after (writes : List (Write κ γ ν)) (write : Write κ γ ν) (record : Record κ γ ν) :
    write.on (after writes record) = after (writes ++ [write]) record := by
  refine Record.ext rfl (funext fun field => ?_)
  show (write.valueFor record.key field).or _ = (lastValue _ record.key field).or _
  rw [lastValue_concat, Option.or_assoc]
  rfl

/-- The writes leave every record with the last values. -/
theorem run_eq (writes : List (Write κ γ ν)) (table : List (Record κ γ ν)) :
    run writes table = table.map (after writes) := by
  induction writes using List.reverseRecOn with
  | nil => exact (List.map_id table).symm
  | append_singleton writes write ih =>
      rw [run_append, ih]
      show (table.map (after writes)).map write.on = _
      rw [List.map_map]
      exact List.map_congr_left fun record _ => on_after writes write record

theorem length_run (writes : List (Write κ γ ν)) (table : List (Record κ γ ν)) :
    (run writes table).length = table.length := by
  rw [run_eq, List.length_map]

/-- Two lists of writes leave the same when every field ends with the same value. -/
theorem run_eq_run_iff (writes writes' : List (Write κ γ ν)) (table : List (Record κ γ ν)) :
    run writes table = run writes' table ↔ ∀ record ∈ table, ∀ field,
      (lastValue writes record.key field).or (record.fields field) =
        (lastValue writes' record.key field).or (record.fields field) := by
  rw [run_eq, run_eq, List.map_inj_left]
  constructor
  · intro h record hrecord field
    exact congrFun (congrArg Record.fields (h record hrecord)) field
  · intro h record hrecord
    exact Record.ext rfl (funext (h record hrecord))

end Write

end ProofLib
