import Brazier.Filesystem.FileDriver
import Std.Data.ExtTreeMap

/-!
# The storage manager

`StorageManager` of `src/Filesystem/StorageManager.cpp`: drivers under their names, and the name of
the default one. The drivers are file drivers, and every registration is of a driver of its own, so
a driver is told from the others by its name. `registerAll` is a run of registrations:
`getElem?_registerAll` says which drivers it leaves.
-/

namespace Brazier

open ProofLib

/-- What initialization asks of the library and the system. `openLog` is `Logger::init` with
`Logger::registerSignalHandlers`. -/
structure Platform (σ : Type) where
  openLog : σ → Except Thrown Unit × σ
  existsAt : Text → σ → Except LibraryError Bool
  createDirectories : Text → σ → Except LibraryError Unit × σ
  hardwareConcurrency : Nat

namespace FileDriver

variable {σ : Type}

/-- What `setRootPath` does with the directory. -/
def ensureDirectory (platform : Platform σ) (path : Text) : Throwing σ Thrown Unit := fun s =>
  match platform.existsAt path s with
  | .error e => (.error (.library e), s)
  | .ok true => (.ok (), s)
  | .ok false =>
      let (result, s') := platform.createDirectories path s
      (result.mapError .library, s')

/-- `setRootPath`, of a driver that is lost when it throws. -/
def setRootPath (platform : Platform σ) (path : Text) (driver : FileDriver) :
    Throwing σ Thrown FileDriver := do
  ensureDirectory platform path
  return { driver with rootPath := path }

end FileDriver

/-- The drivers by their names, and the name of the default driver. -/
structure StorageManager where
  drivers : Std.ExtTreeMap Text FileDriver compare := ∅
  defaultDriverName : Text := ""

namespace StorageManager

/-- `registerDriver`. -/
def registerDriver (manager : StorageManager) (name : Text) (driver : FileDriver) :
    StorageManager :=
  { manager with drivers := manager.drivers.insert name driver }

/-- `hasDriver`. -/
def hasDriver (manager : StorageManager) (name : Text) : Bool := manager.drivers.contains name

/-- The exception where no driver has the name. -/
def notFound (name : Text) : Thrown := .runtimeError (("Driver not found: " : Text) ++ name)

/-- `setDefaultDriver`. -/
def setDefaultDriver (name : Text) : Throwing StorageManager Thrown Unit := do
  let manager ← get
  if manager.hasDriver name then
    modify fun manager => { manager with defaultDriverName := name }
  else throw (notFound name)

/-- `getDriver`. -/
def getDriver (manager : StorageManager) (name : Text) : Except Thrown FileDriver :=
  match manager.drivers[name]? with
  | none => .error (notFound name)
  | some driver => .ok driver

/-- `getDefaultDriver`. -/
def getDefaultDriver (manager : StorageManager) : Except Thrown FileDriver :=
  manager.getDriver manager.defaultDriverName

/-- Registrations one after the other. -/
def registerAll (drivers : List (Text × FileDriver)) (manager : StorageManager) : StorageManager :=
  drivers.foldl (fun manager entry => manager.registerDriver entry.1 entry.2) manager

variable {manager : StorageManager} {name : Text}

/-! ## Single calls -/

theorem getDriver_eq_ok {driver : FileDriver} :
    manager.getDriver name = .ok driver ↔ manager.drivers[name]? = some driver := by
  rw [getDriver]
  cases manager.drivers[name]? <;> simp

theorem hasDriver_iff : manager.hasDriver name = true ↔ manager.drivers[name]? ≠ none := by
  rw [hasDriver, ← Std.ExtTreeMap.mem_iff_contains, Std.ExtTreeMap.mem_iff_isSome_getElem?,
    Option.isSome_iff_ne_none]

theorem getElem?_registerDriver (manager : StorageManager) (name : Text) (driver : FileDriver)
    (key : Text) : (manager.registerDriver name driver).drivers[key]? =
      if name = key then some driver else manager.drivers[key]? := by
  rw [registerDriver, Std.ExtTreeMap.getElem?_insert]
  simp

/-- A driver that is there can be made the default one. -/
theorem setDefaultDriver_outcome (h : manager.hasDriver name = true) :
    (setDefaultDriver name).outcome manager =
      (.ok (), { manager with defaultDriverName := name }) := by
  rw [setDefaultDriver, outcome_get_bind, if_pos h]
  rfl

/-! ## Runs of registrations -/

theorem registerAll_concat (drivers : List (Text × FileDriver)) (entry : Text × FileDriver)
    (manager : StorageManager) : registerAll (drivers ++ [entry]) manager =
      (registerAll drivers manager).registerDriver entry.1 entry.2 :=
  List.foldl_concat _ _ _ _

/-- Registrations leave the name of the default driver. -/
@[simp] theorem defaultDriverName_registerAll (drivers : List (Text × FileDriver))
    (manager : StorageManager) :
    (registerAll drivers manager).defaultDriverName = manager.defaultDriverName := by
  induction drivers using List.reverseRecOn with
  | nil => rfl
  | append_singleton drivers entry ih =>
      rw [registerAll_concat]
      exact ih

/-- With every name registered once, a manager without drivers gets those that are registered. -/
theorem getElem?_registerAll {drivers : List (Text × FileDriver)}
    (hnodup : (drivers.map Prod.fst).Nodup) (hempty : manager.drivers = ∅) {driver : FileDriver} :
    (registerAll drivers manager).drivers[name]? = some driver ↔ (name, driver) ∈ drivers := by
  induction drivers using List.reverseRecOn with
  | nil => simp [registerAll, hempty]
  | append_singleton drivers entry ih =>
      rw [List.map_append, List.nodup_append] at hnodup
      obtain ⟨hdrivers, -, hdisjoint⟩ := hnodup
      rw [registerAll_concat, getElem?_registerDriver, List.mem_append, List.mem_singleton,
        ← ih hdrivers]
      by_cases hname : entry.1 = name
      · subst hname
        have hother : (registerAll drivers manager).drivers[entry.1]? ≠ some driver := by
          rw [Ne, ih hdrivers]
          intro hmem
          exact hdisjoint _ (List.mem_map_of_mem (f := Prod.fst) hmem) entry.1 (by simp) rfl
        rw [if_pos rfl, or_iff_right hother, Prod.ext_iff]
        simp [eq_comm]
      · rw [if_neg hname, or_iff_left]
        rintro rfl
        exact hname rfl

/-- The names that drivers are registered under. -/
theorem hasDriver_registerAll {drivers : List (Text × FileDriver)} (hempty : manager.drivers = ∅) :
    (registerAll drivers manager).hasDriver name = true ↔ name ∈ drivers.map Prod.fst := by
  rw [hasDriver_iff]
  induction drivers using List.reverseRecOn with
  | nil => simp [registerAll, hempty]
  | append_singleton drivers entry ih =>
      rw [registerAll_concat, getElem?_registerDriver, List.map_append, List.mem_append, ← ih]
      by_cases hname : entry.1 = name
      · simp [hname]
      · simp [hname, Ne.symm hname]

end StorageManager

end Brazier
