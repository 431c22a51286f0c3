import Brazier.Config.Getters
import Brazier.Filesystem.StorageManager
import Mathlib.Data.List.Forall2

/-!
# The drivers that initialization registers

`Server::initialize` of `src/Server.cpp` and `HttpsServer::initialize` of `src/HttpsServer.cpp`.
Both begin with the same lines, which register a file driver for every item that is read under
`filesystem.drivers` and then choose the default driver. What follows them is a parameter: it
leaves the storage manager alone. `initializeStorage_eq_ok` says when the common part returns, and
with which manager.
-/

namespace Brazier

open ProofLib

variable {ν σ α : Type}

/-- What initialization throws: what the configuration or the library does. The exceptions of
`json` are type errors of the configuration. -/
inductive InitError where
  | config (e : ConfigError)
  | thrown (e : Thrown)
  deriving DecidableEq

/-- The storage manager, and what there is besides. -/
structure Installation (σ : Type) where
  storage : StorageManager
  outside : σ

/-- A part of initialization. -/
abbrev Init (σ : Type) := Throwing (Installation σ) InitError

/-- The items of a value, as `items()` enumerates them: the members of an object, the elements of an
array under their indices, nothing of null, and any other value itself under the empty key. -/
def items (elements : ν → Option (List (Json ν))) : Json ν → List (Text × Json ν)
  | ⟨.node members, h⟩ => members.members h
  | ⟨.leaf .null, _⟩ => []
  | ⟨.leaf (.string text), h⟩ => [("", ⟨.leaf (.string text), h⟩)]
  | ⟨.leaf (.other value), h⟩ =>
      match elements value with
      | none => [("", ⟨.leaf (.other value), h⟩)]
      | some values => values.zipIdx.map fun item => (natText item.2, item.1)

/-- `cfg.value("root", "./")`. -/
def itemRoot (cfg : Json ν) : Except ConfigError Text :=
  match cfg.1 with
  | .leaf _ => .error .typeError
  | .node members =>
      match members.get ("root" : Text) with
      | none => .ok "./"
      | some (.leaf (.string root)) => .ok root
      | some _ => .error .typeError

/-- A value that is computed from the configuration. -/
def configured (x : Except ConfigError α) : Init σ α := fun st => (x.mapError .config, st)

/-- An operation that leaves the storage manager alone. -/
def outside (x : Throwing σ InitError α) : Init σ α := fun st =>
  let (result, s) := x.outcome st.outside
  (result, { st with outside := s })

/-- A call of the library. -/
def calling (x : Throwing σ Thrown α) : Init σ α := fun st =>
  let (result, s) := x.outcome st.outside
  (result.mapError .thrown, { st with outside := s })

/-- A call of the storage manager. -/
def onStorage (x : Throwing StorageManager Thrown α) : Init σ α := fun st =>
  let (result, storage) := x.outcome st.storage
  (result.mapError .thrown, { st with storage })

section Initialize

variable (platform : Platform σ)

/-- The body of the loop over the items. -/
def registerItem (item : Text × Json ν) : Init σ Unit := do
  if item.1 = "default" then
    return
  let root ← configured (itemRoot item.2)
  let driver ← calling (FileDriver.setRootPath platform root {})
  modify fun st => { st with
    storage := st.storage.registerDriver item.1 (driver.initAsync platform.hardwareConcurrency) }

variable (J : JsonText ν) (elements : ν → Option (List (Json ν))) (hash : Enumeration)
  (order : List (Text × Text)) (globalConfig : ConfigManager)

/-- What both servers begin with, where the map of the configuration is enumerated in this order. -/
def initializeStorage : Init σ Unit := do
  calling platform.openLog
  let drivers ← configured (ConfigManager.getJson J hash order "filesystem.drivers")
  (items elements drivers).forM (registerItem platform)
  let default ← configured
    (ConfigManager.getNested J .string hash order globalConfig "filesystem.default" "local")
  let st ← get
  if st.storage.hasDriver default then onStorage (StorageManager.setDefaultDriver default)
  else pure ()

/-- A `try` block, with the handler that both servers have. Undefined behaviour is not caught. -/
def trying (body : Init σ Unit) : Init σ Bool :=
  tryCatch (body >>= fun _ => pure true) fun e =>
    if e = .config .undefined then throw e else pure false

/-- `initialize` of `Server`. -/
def Server.initializeServer (initializeConnections initRoutes : Throwing σ InitError Unit) :
    Init σ Bool :=
  trying do
    initializeStorage platform J elements hash order globalConfig
    outside initializeConnections
    outside initRoutes

/-- `initialize` of `HttpsServer`. -/
def HttpsServer.initializeServer (loadConfiguration configureTls openAcceptors
    initializeConnections initRoutes : Throwing σ InitError Unit) : Init σ Bool :=
  trying do
    initializeStorage platform J elements hash order globalConfig
    outside loadConfiguration
    outside configureTls
    outside openAcceptors
    outside initializeConnections
    outside initRoutes

end Initialize

/-! ## What is behind the common part -/

/-- The operation leaves the storage manager. -/
def LeavesStorage (x : Init σ α) : Prop := ∀ st, (x.outcome st).2.storage = st.storage

theorem leavesStorage_outside (x : Throwing σ InitError α) : LeavesStorage (outside x) :=
  fun _ => rfl

/-- Operations that leave the manager do so one after the other. -/
theorem LeavesStorage.bind {β : Type} {x : Init σ β} {f : β → Init σ α} (hx : LeavesStorage x)
    (hf : ∀ b, LeavesStorage (f b)) : LeavesStorage (x >>= f) := by
  intro st
  have hfirst := hx st
  cases hrun : x.outcome st with
  | mk r st' =>
      rw [hrun] at hfirst
      cases r with
      | ok b =>
          rw [outcome_bind_ok hrun, hf b st']
          exact hfirst
      | error e =>
          rw [outcome_bind_error hrun]
          exact hfirst

/-- An operation that is followed by others leaves the manager to them, or has thrown. -/
theorem storage_bind {x rest : Init σ Unit} (hrest : LeavesStorage rest) (st : Installation σ) :
    (Throwing.outcome (x >>= fun _ => rest) st).2.storage = (x.outcome st).2.storage := by
  cases hrun : x.outcome st with
  | mk r st' =>
      cases r with
      | ok u =>
          rw [outcome_bind_ok hrun]
          exact hrest st'
      | error e => rw [outcome_bind_error hrun]

/-- The handler leaves the manager. -/
theorem storage_trying (body : Init σ Unit) (st : Installation σ) :
    ((trying body).outcome st).2.storage = (body.outcome st).2.storage := by
  have hhandler : ∀ (e : InitError) (st : Installation σ),
      (Throwing.outcome (if e = .config .undefined then throw e else pure false : Init σ Bool)
        st).2 = st := by
    intro e st
    split <;> rfl
  rw [trying, outcome_tryCatch_snd _ hhandler, outcome_bind_pure body (fun _ => true)]

section Behind

variable {platform : Platform σ} {J : JsonText ν} {elements : ν → Option (List (Json ν))}
  {hash : Enumeration} {order : List (Text × Text)} {globalConfig : ConfigManager}

/-- `Server::initialize` leaves the manager as the common part does. -/
theorem Server.storage_initializeServer
    (initializeConnections initRoutes : Throwing σ InitError Unit) (st : Installation σ) :
    ((Server.initializeServer platform J elements hash order globalConfig initializeConnections
      initRoutes).outcome st).2.storage =
      ((initializeStorage platform J elements hash order globalConfig).outcome st).2.storage := by
  rw [Server.initializeServer, storage_trying]
  exact storage_bind ((leavesStorage_outside _).bind fun _ => leavesStorage_outside _) st

/-- `HttpsServer::initialize` leaves the manager as the common part does. -/
theorem HttpsServer.storage_initializeServer (loadConfiguration configureTls openAcceptors
    initializeConnections initRoutes : Throwing σ InitError Unit) (st : Installation σ) :
    ((HttpsServer.initializeServer platform J elements hash order globalConfig loadConfiguration
      configureTls openAcceptors initializeConnections initRoutes).outcome st).2.storage =
      ((initializeStorage platform J elements hash order globalConfig).outcome st).2.storage := by
  rw [HttpsServer.initializeServer, storage_trying]
  refine storage_bind ?_ st
  exact (leavesStorage_outside _).bind fun _ => (leavesStorage_outside _).bind fun _ =>
    (leavesStorage_outside _).bind fun _ => (leavesStorage_outside _).bind fun _ =>
      leavesStorage_outside _

end Behind

/-! ## The common part -/

/-- The driver that is made for a root. -/
def newDriver (platform : Platform σ) (root : Text) : FileDriver :=
  ({ rootPath := root } : FileDriver).initAsync platform.hardwareConcurrency

/-- The names of the items but `default`, with the roots that are read in them. -/
def RootsRead (items : List (Text × Json ν)) (pairs : List (Text × Text)) : Prop :=
  List.Forall₂ (fun item pair => item.1 = pair.1 ∧ itemRoot item.2 = .ok pair.2)
    (items.filter fun item => item.1 ≠ ("default" : Text)) pairs

/-- The registrations of drivers with these names and roots. -/
def registrations (platform : Platform σ) (pairs : List (Text × Text)) :
    List (Text × FileDriver) :=
  pairs.map fun pair => (pair.1, newDriver platform pair.2)

/-- The directories of the roots are there, or are made, one after the other. -/
def ensureAll (platform : Platform σ) (roots : List Text) : Throwing σ Thrown Unit :=
  roots.forM (FileDriver.ensureDirectory platform)

section Common

variable {platform : Platform σ} {J : JsonText ν} {elements : ν → Option (List (Json ν))}
  {hash : Enumeration} {order : List (Text × Text)} {globalConfig : ConfigManager}

/-- A computed value is there, and nothing has changed. -/
theorem configured_eq_ok {x : Except ConfigError α} {a : α} {st st' : Installation σ} :
    (configured x : Init σ α).outcome st = (.ok a, st') ↔ x = .ok a ∧ st' = st := by
  show (x.mapError InitError.config, st) = (.ok a, st') ↔ _
  cases x with
  | ok b => simp [Except.mapError, eq_comm]
  | error e => simp [Except.mapError]

/-- A call of the library returns, and leaves the storage manager. -/
theorem calling_eq_ok {x : Throwing σ Thrown α} {a : α} {st st' : Installation σ} :
    (calling x : Init σ α).outcome st = (.ok a, st') ↔
      ∃ s', x.outcome st.outside = (.ok a, s') ∧ st' = ⟨st.storage, s'⟩ := by
  show ((x.outcome st.outside).1.mapError InitError.thrown,
    (⟨st.storage, (x.outcome st.outside).2⟩ : Installation σ)) = (.ok a, st') ↔ _
  cases hrun : x.outcome st.outside with
  | mk r s' =>
      cases r with
      | ok b => simp [Except.mapError, and_assoc, eq_comm]
      | error e => simp [Except.mapError]

/-- `setRootPath` returns when the directory is there. -/
theorem setRootPath_eq_ok {root : Text} {driver driver' : FileDriver} {s s' : σ} :
    (FileDriver.setRootPath platform root driver).outcome s = (.ok driver', s') ↔
      (FileDriver.ensureDirectory platform root).outcome s = (.ok (), s') ∧
        driver' = { driver with rootPath := root } := by
  rw [FileDriver.setRootPath, outcome_bind_eq_ok]
  constructor
  · rintro ⟨_, mid, hensure, hend⟩
    cases hend
    exact ⟨hensure, rfl⟩
  · rintro ⟨hensure, rfl⟩
    exact ⟨(), s', hensure, rfl⟩

/-- The item `default` is passed over. -/
theorem registerItem_default {item : Text × Json ν} (h : item.1 = ("default" : Text))
    (st : Installation σ) : (registerItem platform item).outcome st = (.ok (), st) := by
  rw [registerItem, if_pos h]
  rfl

/-- Any other item gets its driver when its root can be read and its directory is there. -/
theorem registerItem_eq_ok {item : Text × Json ν} (h : item.1 ≠ ("default" : Text))
    {st st' : Installation σ} :
    (registerItem platform item).outcome st = (.ok (), st') ↔
      ∃ root s', itemRoot item.2 = .ok root ∧
        (FileDriver.ensureDirectory platform root).outcome st.outside = (.ok (), s') ∧
        st' = ⟨st.storage.registerDriver item.1 (newDriver platform root), s'⟩ := by
  rw [registerItem, if_neg h, outcome_bind_eq_ok]
  simp only [outcome_bind_eq_ok, configured_eq_ok, calling_eq_ok, setRootPath_eq_ok]
  constructor
  · rintro ⟨root, _, ⟨hroot, rfl⟩, driver, mid, ⟨s', ⟨hensure, rfl⟩, rfl⟩, hend⟩
    cases hend
    exact ⟨root, s', hroot, hensure, rfl⟩
  · rintro ⟨root, s', hroot, hensure, rfl⟩
    exact ⟨root, st, ⟨hroot, rfl⟩, _, _, ⟨s', ⟨hensure, rfl⟩, rfl⟩, rfl⟩

/-- The item `default` has no root to be read. -/
theorem rootsRead_default {item : Text × Json ν} (h : item.1 = ("default" : Text))
    {rest : List (Text × Json ν)} {pairs : List (Text × Text)} :
    RootsRead (item :: rest) pairs ↔ RootsRead rest pairs := by
  have hskip : decide (item.1 ≠ ("default" : Text)) ≠ true := fun hne => of_decide_eq_true hne h
  rw [RootsRead, RootsRead, List.filter_cons, if_neg hskip]

/-- The root of any other item is read first. -/
theorem rootsRead_cons {item : Text × Json ν} (h : item.1 ≠ ("default" : Text))
    {rest : List (Text × Json ν)} {pairs : List (Text × Text)} :
    RootsRead (item :: rest) pairs ↔ ∃ root more, itemRoot item.2 = .ok root ∧
      RootsRead rest more ∧ pairs = (item.1, root) :: more := by
  rw [RootsRead, List.filter_cons, if_pos (decide_eq_true h), List.forall₂_cons_left_iff]
  constructor
  · rintro ⟨⟨name, root⟩, more, ⟨hpair, hroot⟩, hmore, rfl⟩
    exact ⟨root, more, hroot, hmore, by rw [hpair]⟩
  · rintro ⟨root, more, hroot, hmore, rfl⟩
    exact ⟨(item.1, root), more, ⟨rfl, hroot⟩, hmore, rfl⟩

/-- The loop returns when all roots can be read and all directories are there. It has then
registered the drivers in the order of the items. -/
theorem registerItems_eq_ok {list : List (Text × Json ν)} {u : Unit} {st st' : Installation σ} :
    (list.forM (registerItem platform)).outcome st = (.ok u, st') ↔
      ∃ pairs s', RootsRead list pairs ∧
        (ensureAll platform (pairs.map Prod.snd)).outcome st.outside = (.ok (), s') ∧
        st' = ⟨StorageManager.registerAll (registrations platform pairs) st.storage, s'⟩ := by
  induction list generalizing st with
  | nil =>
      constructor
      · intro h
        obtain rfl : st = st' := congrArg Prod.snd h
        exact ⟨[], st.outside, List.Forall₂.nil, rfl, rfl⟩
      · rintro ⟨pairs, s', hread, hensure, rfl⟩
        cases hread
        cases hensure
        rfl
  | cons item rest ih =>
      have hcons : (item :: rest).forM (registerItem platform) =
          registerItem platform item >>= fun _ => rest.forM (registerItem platform) := rfl
      rw [hcons, outcome_bind_eq_ok]
      by_cases hname : item.1 = ("default" : Text)
      · constructor
        · rintro ⟨_, mid, hitem, hrest⟩
          rw [registerItem_default hname] at hitem
          cases hitem
          obtain ⟨pairs, s', hpairs, hensure, rfl⟩ := ih.mp hrest
          exact ⟨pairs, s', (rootsRead_default hname).mpr hpairs, hensure, rfl⟩
        · rintro ⟨pairs, s', hpairs, hensure, rfl⟩
          exact ⟨(), st, registerItem_default hname st,
            ih.mpr ⟨pairs, s', (rootsRead_default hname).mp hpairs, hensure, rfl⟩⟩
      · constructor
        · rintro ⟨_, mid, hitem, hrest⟩
          obtain ⟨root, s1, hroot, hfirst, rfl⟩ := (registerItem_eq_ok hname).mp hitem
          obtain ⟨pairs, s', hpairs, hensure, rfl⟩ := ih.mp hrest
          refine ⟨(item.1, root) :: pairs, s',
            (rootsRead_cons hname).mpr ⟨root, pairs, hroot, hpairs, rfl⟩, ?_, rfl⟩
          exact outcome_bind_eq_ok.mpr ⟨(), s1, hfirst, hensure⟩
        · rintro ⟨pairs, s', hpairs, hensure, rfl⟩
          obtain ⟨root, more, hroot, hmore, rfl⟩ := (rootsRead_cons hname).mp hpairs
          obtain ⟨_, s1, hfirst, hothers⟩ := outcome_bind_eq_ok.mp hensure
          exact ⟨(), _, (registerItem_eq_ok hname).mpr ⟨root, s1, hroot, hfirst, rfl⟩,
            ih.mpr ⟨more, s', hmore, hothers, rfl⟩⟩

/-- The manager with the default driver that has been looked up, if there is a driver of that
name. -/
def chooseDefault (name : Text) (manager : StorageManager) : StorageManager :=
  if manager.hasDriver name then { manager with defaultDriverName := name } else manager

/-- The choice of the default driver does not throw: the driver is there, or it is not set. -/
theorem chooseDefault_eq_ok {st st' : Installation σ} (default : Text) :
    Throwing.outcome (if st.storage.hasDriver default then
        onStorage (StorageManager.setDefaultDriver default)
      else pure () : Init σ Unit) st = (.ok (), st') ↔
    st' = ⟨chooseDefault default st.storage, st.outside⟩ := by
  rw [chooseDefault]
  split
  · next hhas =>
      show (((StorageManager.setDefaultDriver default).outcome st.storage).1.mapError
        InitError.thrown, (⟨((StorageManager.setDefaultDriver default).outcome st.storage).2,
          st.outside⟩ : Installation σ)) = _ ↔ _
      rw [StorageManager.setDefaultDriver_outcome hhas]
      simp [Except.mapError, eq_comm]
  · constructor
    · intro h
      cases h
      rfl
    · rintro rfl
      rfl

/-- The common part returns when the log can be opened, the drivers can be read and registered, and
the name of the default driver can be read. -/
theorem initializeStorage_eq_ok {st st' : Installation σ} :
    (initializeStorage platform J elements hash order globalConfig).outcome st = (.ok (), st') ↔
      ∃ drivers pairs default s s',
        (platform.openLog st.outside) = (.ok (), s) ∧
        ConfigManager.getJson J hash order "filesystem.drivers" = .ok drivers ∧
        RootsRead (items elements drivers) pairs ∧
        (ensureAll platform (pairs.map Prod.snd)).outcome s = (.ok (), s') ∧
        ConfigManager.getNested J .string hash order globalConfig "filesystem.default" "local" =
          .ok default ∧
        st' = ⟨chooseDefault default
          (StorageManager.registerAll (registrations platform pairs) st.storage), s'⟩ := by
  rw [initializeStorage]
  simp only [outcome_bind_eq_ok, configured_eq_ok, calling_eq_ok, registerItems_eq_ok]
  constructor
  · rintro ⟨_, _, ⟨s, hlog, rfl⟩, drivers, _, ⟨hdrivers, rfl⟩, _, _,
      ⟨pairs, s', hread, hensure, rfl⟩, default, _, ⟨hdefault, rfl⟩, _, _, hget, hend⟩
    cases hget
    refine ⟨drivers, pairs, default, s, s', hlog, hdrivers, hread, hensure, hdefault, ?_⟩
    exact (chooseDefault_eq_ok _).mp hend
  · rintro ⟨drivers, pairs, default, s, s', hlog, hdrivers, hread, hensure, hdefault, rfl⟩
    exact ⟨(), _, ⟨s, hlog, rfl⟩, drivers, _, ⟨hdrivers, rfl⟩, (), _,
      ⟨pairs, s', hread, hensure, rfl⟩, default, _, ⟨hdefault, rfl⟩, _, _, rfl,
      (chooseDefault_eq_ok _).mpr rfl⟩

end Common

end Brazier
