import Brazier.Filesystem.Initialization
import Mathlib.Data.List.Nodup

/-!
# The drivers of a configuration

A configuration names its drivers under `filesystem.drivers`, each with its root, and the default
one there under `default`. `serversHonour_iff_readAsGiven` says that the servers honour it when the
two lookups of initialization read what it gives.
-/

namespace Brazier

open ProofLib

variable {ν σ : Type}

/-- The root of a driver in the document. -/
def givenRoot (cfg : Json ν) : Option Text :=
  match cfg.1.getAt ["root"] with
  | some (.leaf (.string root)) => some root
  | _ => none

/-- The names of the drivers and their roots, in order. -/
def givenRoots (drivers : Json ν) : List (Text × Text) :=
  (drivers.members.getD []).filterMap fun member =>
    if member.1 = ("default" : Text) then none else (givenRoot member.2).map (member.1, ·)

/-- The place of the drivers in a document. -/
def driversPlace : List Text := ["filesystem", "drivers"]

/-- The document has these drivers: each name but `default` has an object with a root, and `default`
is one of the other names. -/
structure Configures (document drivers : Json ν) (chosen : Text) : Prop where
  place : document.1.getAt driversPlace = some drivers.1
  roots : ∀ name t, drivers.1.getAt [name] = some t → name ≠ ("default" : Text) →
    ∃ root, t.getAt ["root"] = some (.leaf (.string root))
  default : drivers.1.getAt ["default"] = some (.leaf (.string chosen))
  named : drivers.1.getAt [chosen] ≠ none ∧ chosen ≠ ("default" : Text)

/-- Every driver that is given is there with its root, and the default driver is the chosen one. -/
structure Honoured (drivers : Json ν) (chosen : Text) (storage : StorageManager) : Prop where
  registered : ∀ pair ∈ givenRoots drivers, ∃ driver,
    storage.getDriver pair.1 = .ok driver ∧ driver.rootPath = pair.2
  default : storage.defaultDriverName = chosen ∧ ∃ driver,
    storage.getDefaultDriver = .ok driver ∧ storage.getDriver chosen = .ok driver

section Processing

variable (J : JsonText ν) (elements : ν → Option (List (Json ν))) (hash : Enumeration)
  (order : List (Text × Text)) (globalConfig : ConfigManager) (platform : Platform σ)
  (drivers : Json ν) (chosen : Text)

/-- Both servers, started with a storage manager as it is constructed, get through the common part,
and whatever follows, the configuration is honoured. -/
def ServersHonour (s : σ) : Prop :=
  (∃ st', (initializeStorage platform J elements hash order globalConfig).outcome ⟨{}, s⟩ =
    (.ok (), st')) ∧
  (∀ initializeConnections initRoutes, Honoured drivers chosen
    ((Server.initializeServer platform J elements hash order globalConfig initializeConnections
      initRoutes).outcome ⟨{}, s⟩).2.storage) ∧
  ∀ loadConfiguration configureTls openAcceptors initializeConnections initRoutes,
    Honoured drivers chosen
      ((HttpsServer.initializeServer platform J elements hash order globalConfig loadConfiguration
        configureTls openAcceptors initializeConnections initRoutes).outcome ⟨{}, s⟩).2.storage

/-- The log can be opened, and the directories of the roots are there or can be made, one after the
other. -/
def Prepared (platform : Platform σ) (roots : List Text) (s : σ) : Prop :=
  ∃ s₁ s₂, platform.openLog s = (.ok (), s₁) ∧ (ensureAll platform roots).outcome s₁ = (.ok (), s₂)

/-- The default driver for the name that is looked up: there is none unless a driver has it. -/
def effectiveDefault (names : List Text) (name : Text) : Text := if name ∈ names then name else ""

/-- What is read of the configuration has the drivers that are given, and leads to the default
driver that is chosen. -/
def ReadAsGiven (s : σ) : Prop :=
  ∃ read pairs default, ConfigManager.getJson J hash order "filesystem.drivers" = .ok read ∧
    RootsRead (items elements read) pairs ∧ (∀ pair ∈ givenRoots drivers, pair ∈ pairs) ∧
    Prepared platform (pairs.map Prod.snd) s ∧
    ConfigManager.getNested J .string hash order globalConfig "filesystem.default" "local" =
      .ok default ∧
    effectiveDefault (pairs.map Prod.fst) default = chosen

end Processing

/-! ## The drivers of a document -/

/-- The members of an object, by their places. -/
theorem mem_members_iff {j : Json ν} {members : List (Text × Json ν)}
    (h : j.members = some members) {name : Text} {value : Json ν} :
    (name, value) ∈ members ↔ j.1.getAt [name] = some value.1 := by
  obtain ⟨t, ht⟩ := j
  cases t with
  | leaf leaf => cases h
  | node forest =>
      cases h
      have hforest : forest.Sorted := ht
      refine (Forest.mem_members hforest).trans ?_
      show _ ↔ (forest.get name).bind (fun t => t.getAt []) = some value.1
      cases forest.get name <;> simp

/-- An object that has something at a place has members. -/
theorem members_of_getAt {j : Json ν} {name : Text} {path : List Text}
    (h : j.1.getAt (name :: path) ≠ none) : ∃ members, j.members = some members := by
  obtain ⟨t, ht⟩ := j
  cases t with
  | leaf leaf => exact absurd rfl h
  | node forest => exact ⟨_, rfl⟩

/-- The keys of the members of an object ascend. -/
theorem members_pairwise {j : Json ν} {members : List (Text × Json ν)}
    (h : j.members = some members) :
    members.Pairwise fun member member' => member.1 < member'.1 := by
  obtain ⟨t, ht⟩ := j
  cases t with
  | leaf leaf => cases h
  | node forest =>
      cases h
      exact Forest.members_ascend _

/-- The items of an object are its members. -/
theorem items_eq_members {elements : ν → Option (List (Json ν))} {j : Json ν}
    {members : List (Text × Json ν)} (h : j.members = some members) :
    items elements j = members := by
  obtain ⟨t, ht⟩ := j
  cases t with
  | leaf leaf => cases h
  | node forest =>
      cases h
      rfl

theorem givenRoot_eq_some {cfg : Json ν} {root : Text} :
    givenRoot cfg = some root ↔ cfg.1.getAt ["root"] = some (.leaf (.string root)) := by
  rw [givenRoot]
  split
  · next text heq =>
      rw [heq]
      simp
  · next hother =>
      constructor
      · intro h
        cases h
      · intro h
        exact absurd h (hother root)

/-- A name with its root, by its place. -/
theorem mem_givenRoots {drivers : Json ν} {name root : Text} :
    (name, root) ∈ givenRoots drivers ↔ name ≠ ("default" : Text) ∧
      drivers.1.getAt [name, "root"] = some (.leaf (.string root)) := by
  rw [givenRoots, List.mem_filterMap]
  constructor
  · rintro ⟨⟨key, cfg⟩, hmem, hpair⟩
    cases hmembers : drivers.members with
    | none =>
        rw [hmembers] at hmem
        cases hmem
    | some members =>
        rw [hmembers] at hmem
        split at hpair
        · cases hpair
        · next hname =>
            obtain ⟨root', hroot, heq⟩ := Option.map_eq_some_iff.mp hpair
            cases heq
            rw [Tree.getAt_cons_of_getAt ((mem_members_iff hmembers).mp hmem)]
            exact ⟨hname, givenRoot_eq_some.mp hroot⟩
  · rintro ⟨hname, hroot⟩
    obtain ⟨t, ht, hroot⟩ := Tree.exists_getAt_of_cons hroot
    have hsome : drivers.1.getAt [name] ≠ none := by simp [ht]
    obtain ⟨members, hmembers⟩ := members_of_getAt hsome
    refine ⟨(name, ⟨t, drivers.2.getAt ht⟩), ?_, ?_⟩
    · rw [hmembers]
      exact (mem_members_iff hmembers).mpr ht
    · rw [if_neg hname, givenRoot_eq_some.mpr hroot]
      rfl

/-- The names of the drivers ascend. -/
theorem givenRoots_pairwise (drivers : Json ν) :
    (givenRoots drivers).Pairwise fun pair pair' => pair.1 < pair'.1 := by
  cases hmembers : drivers.members with
  | none =>
      rw [givenRoots, hmembers]
      exact List.Pairwise.nil
  | some members =>
      rw [givenRoots, hmembers]
      refine List.Pairwise.filterMap _ ?_ (members_pairwise hmembers)
      intro member member' hlt pair hpair pair' hpair'
      have hfirst : ∀ (member : Text × Json ν) (pair : Text × Text),
          (if member.1 = ("default" : Text) then none
            else (givenRoot member.2).map (member.1, ·)) = some pair → pair.1 = member.1 := by
        intro member pair h
        split at h
        · cases h
        · obtain ⟨root, _, rfl⟩ := Option.map_eq_some_iff.mp h
          rfl
      rw [hfirst member pair hpair, hfirst member' pair' hpair']
      exact hlt

/-- The root of an item that has something under `root`. -/
theorem itemRoot_of_getAt {cfg : Json ν} {t : Tree Text (Leaf ν)}
    (h : cfg.1.getAt ["root"] = some t) {root : Text} :
    itemRoot cfg = .ok root ↔ t = .leaf (.string root) := by
  rw [itemRoot]
  cases hcfg : cfg.1 with
  | leaf leaf =>
      rw [hcfg] at h
      cases h
  | node members =>
      have hget : members.get ("root" : Text) = some t := by
        rw [hcfg, Tree.getAt_node_cons] at h
        simpa using h
      dsimp only
      rw [hget]
      cases t with
      | node sub => simp
      | leaf leaf =>
          cases leaf with
          | null => simp
          | string text => simp
          | other value => simp

/-! ## What initialization leaves -/

/-- Every item has a key of its own. -/
theorem nodup_items (elements : ν → Option (List (Json ν))) (j : Json ν) :
    ((items elements j).map Prod.fst).Nodup := by
  obtain ⟨t, ht⟩ := j
  cases t with
  | node forest =>
      refine List.Pairwise.map Prod.fst ?_ (Forest.members_ascend ht)
      exact fun member member' hlt => ne_of_lt hlt
  | leaf leaf =>
      cases leaf with
      | null => exact List.nodup_nil
      | string text => exact List.nodup_singleton _
      | other value =>
          rw [items]
          cases elements value with
          | none => exact List.nodup_singleton _
          | some values =>
              have hkeys : (values.zipIdx.map fun item : Json ν × Nat =>
                  (natText item.2, item.1)).map Prod.fst =
                    (List.range' 0 values.length).map natText := by
                rw [List.map_map, ← List.zipIdx_map_snd 0 values, List.map_map]
                rfl
              dsimp only
              rw [hkeys]
              exact (List.nodup_range').map natText_injective

/-- The roots are read under the keys of the items. -/
theorem RootsRead.names {list : List (Text × Json ν)} {pairs : List (Text × Text)}
    (h : RootsRead list pairs) : pairs.map Prod.fst =
      (list.filter fun item => item.1 ≠ ("default" : Text)).map Prod.fst := by
  rw [RootsRead] at h
  generalize (list.filter fun item => item.1 ≠ ("default" : Text)) = others at h ⊢
  induction h with
  | nil => rfl
  | cons hpair _ ih => rw [List.map_cons, List.map_cons, ih, hpair.1]

/-- A root that is read was read in an item. -/
theorem RootsRead.of_mem {list : List (Text × Json ν)} {pairs : List (Text × Text)}
    (h : RootsRead list pairs) {name root : Text} (hpair : (name, root) ∈ pairs) :
    ∃ cfg, (name, cfg) ∈ list ∧ itemRoot cfg = .ok root := by
  have hitem : ∃ item ∈ list.filter fun item => item.1 ≠ ("default" : Text),
      item.1 = name ∧ itemRoot item.2 = .ok root := by
    rw [RootsRead] at h
    generalize (list.filter fun item => item.1 ≠ ("default" : Text)) = others at h ⊢
    induction h with
    | nil => cases hpair
    | cons hfirst _ ih =>
        rcases List.mem_cons.mp hpair with heq | hrest
        · cases heq
          exact ⟨_, List.mem_cons_self, hfirst⟩
        · obtain ⟨item, hmem, hread⟩ := ih hrest
          exact ⟨item, List.mem_cons_of_mem _ hmem, hread⟩
  obtain ⟨⟨key, cfg⟩, hmem, rfl, hroot⟩ := hitem
  exact ⟨cfg, List.mem_of_mem_filter hmem, hroot⟩

/-- The roots of the items are read in one way. -/
theorem RootsRead.unique {list : List (Text × Json ν)} {pairs pairs' : List (Text × Text)}
    (h : RootsRead list pairs) (h' : RootsRead list pairs') : pairs = pairs' := by
  rw [RootsRead] at h h'
  generalize (list.filter fun item => item.1 ≠ ("default" : Text)) = others at h h'
  induction h generalizing pairs' with
  | nil =>
      cases h'
      rfl
  | cons hpair _ ih =>
      cases h' with
      | cons hpair' hrest' =>
          have hroot := hpair.2.symm.trans hpair'.2
          rw [ih hrest', Prod.ext (hpair.1.symm.trans hpair'.1) (Except.ok.inj hroot)]

/-- The key of an item, with its root. -/
def readPair (item : Text × Json ν) : Text × Text :=
  (item.1, (itemRoot item.2).toOption.getD [])

theorem readPair_of_ok {item : Text × Json ν} {root : Text} (h : itemRoot item.2 = .ok root) :
    readPair item = (item.1, root) := by
  rw [readPair, h]
  rfl

/-- When the items are, but for `default`, those of some names with their roots, and both ascend,
these are what is read. -/
theorem rootsRead_of_ascending {list : List (Text × Json ν)} {pairs : List (Text × Text)}
    (hlist : list.Pairwise fun item item' => item.1 < item'.1)
    (hpairs : pairs.Pairwise fun pair pair' => pair.1 < pair'.1)
    (hread : ∀ name cfg, (name, cfg) ∈ list → name ≠ ("default" : Text) →
      ∃ root, (name, root) ∈ pairs ∧ itemRoot cfg = .ok root)
    (hthere : ∀ name root, (name, root) ∈ pairs → name ≠ ("default" : Text) ∧
      ∃ cfg, (name, cfg) ∈ list ∧ itemRoot cfg = .ok root) : RootsRead list pairs := by
  have hitem : ∀ item ∈ list.filter fun item => item.1 ≠ ("default" : Text),
      ∃ root, (item.1, root) ∈ pairs ∧ itemRoot item.2 = .ok root := by
    intro ⟨name, cfg⟩ hmem
    obtain ⟨hmem, hname⟩ := List.mem_filter.mp hmem
    exact hread name cfg hmem (of_decide_eq_true hname)
  have hsame : (list.filter fun item => item.1 ≠ ("default" : Text)).map readPair = pairs := by
    have hfiltered := List.Pairwise.map (R := fun item item' => item.1 < item'.1)
      (S := fun pair pair' => pair.1 < pair'.1) readPair (fun _ _ hlt => hlt)
      (hlist.filter fun item => item.1 ≠ ("default" : Text))
    have hnodup : ∀ {pairs : List (Text × Text)},
        (pairs.Pairwise fun pair pair' => pair.1 < pair'.1) → pairs.Nodup := by
      intro pairs h
      refine List.Pairwise.imp (fun {pair pair'} hlt heq => ?_) h
      rw [heq] at hlt
      exact lt_irrefl _ hlt
    refine List.Perm.eq_of_pairwise (fun pair pair' _ _ hlt hgt => ?_) hfiltered hpairs
      ((List.perm_ext_iff_of_nodup (hnodup hfiltered) (hnodup hpairs)).mpr fun pair => ?_)
    · exact absurd hgt (lt_asymm hlt)
    · rw [List.mem_map]
      constructor
      · rintro ⟨item, hmem, rfl⟩
        obtain ⟨root, hpair, hroot⟩ := hitem item hmem
        rw [readPair_of_ok hroot]
        exact hpair
      · intro hmem
        obtain ⟨hname, cfg, hcfg, hroot⟩ := hthere pair.1 pair.2 hmem
        exact ⟨(pair.1, cfg), List.mem_filter.mpr ⟨hcfg, decide_eq_true hname⟩,
          readPair_of_ok hroot⟩
  rw [RootsRead, ← hsame, List.forall₂_map_right_iff, List.forall₂_same]
  intro item hmem
  obtain ⟨root, -, hroot⟩ := hitem item hmem
  rw [readPair_of_ok hroot]
  exact ⟨rfl, hroot⟩

/-- The registrations have the names of the pairs. -/
theorem registrations_names (platform : Platform σ) (pairs : List (Text × Text)) :
    (registrations platform pairs).map Prod.fst = pairs.map Prod.fst := by
  rw [registrations, List.map_map]
  rfl

/-- A driver that is registered has been made for the root. -/
theorem mem_registrations {platform : Platform σ} {pairs : List (Text × Text)} {name : Text}
    {driver : FileDriver} : (name, driver) ∈ registrations platform pairs ↔
      ∃ root, (name, root) ∈ pairs ∧ driver = newDriver platform root := by
  rw [registrations, List.mem_map]
  constructor
  · rintro ⟨⟨key, root⟩, hmem, heq⟩
    cases heq
    exact ⟨root, hmem, rfl⟩
  · rintro ⟨root, hmem, rfl⟩
    exact ⟨(name, root), hmem, rfl⟩

/-- The manager that the common part leaves. -/
def storageOf (platform : Platform σ) (pairs : List (Text × Text)) (default : Text) :
    StorageManager :=
  chooseDefault default (StorageManager.registerAll (registrations platform pairs) {})

section Storage

variable {platform : Platform σ} {pairs : List (Text × Text)} {default : Text}

/-- It has the drivers that were registered. -/
theorem getDriver_storageOf (hnodup : (pairs.map Prod.fst).Nodup) {name : Text}
    {driver : FileDriver} : (storageOf platform pairs default).getDriver name = .ok driver ↔
      ∃ root, (name, root) ∈ pairs ∧ driver = newDriver platform root := by
  have hsame : (storageOf platform pairs default).drivers =
      (StorageManager.registerAll (registrations platform pairs) {}).drivers := by
    rw [storageOf, chooseDefault]
    split <;> rfl
  rw [StorageManager.getDriver_eq_ok, hsame, StorageManager.getElem?_registerAll
    (by rwa [registrations_names]) rfl, mem_registrations]

/-- Its default driver is the effective one. -/
theorem defaultDriverName_storageOf : (storageOf platform pairs default).defaultDriverName =
    effectiveDefault (pairs.map Prod.fst) default := by
  rw [storageOf, chooseDefault, effectiveDefault, ← registrations_names platform pairs]
  by_cases hname : default ∈ (registrations platform pairs).map Prod.fst
  · rw [if_pos hname, if_pos ((StorageManager.hasDriver_registerAll rfl).mpr hname)]
  · rw [if_neg hname, if_neg fun hhas => hname ((StorageManager.hasDriver_registerAll rfl).mp hhas)]
    exact StorageManager.defaultDriverName_registerAll _ _

/-- It honours the configuration when the roots are registered as they are given, and the effective
default driver is the chosen one. -/
theorem honoured_storageOf {document drivers : Json ν} {chosen : Text}
    (hconf : Configures document drivers chosen) (hnodup : (pairs.map Prod.fst).Nodup) :
    Honoured drivers chosen (storageOf platform pairs default) ↔
      (∀ pair ∈ givenRoots drivers, pair ∈ pairs) ∧
        effectiveDefault (pairs.map Prod.fst) default = chosen := by
  constructor
  · rintro ⟨hregistered, hdefault, -⟩
    refine ⟨fun ⟨name, root⟩ hgiven => ?_, ?_⟩
    · obtain ⟨driver, hdriver, hroot⟩ := hregistered _ hgiven
      obtain ⟨root', hmem, rfl⟩ := (getDriver_storageOf hnodup).mp hdriver
      obtain rfl : root' = root := hroot
      exact hmem
    · exact defaultDriverName_storageOf.symm.trans hdefault
  · rintro ⟨hmem, hdefault⟩
    have hname : (storageOf platform pairs default).defaultDriverName = chosen := by
      rw [defaultDriverName_storageOf, hdefault]
    refine ⟨fun ⟨name, root⟩ hgiven => ?_, hname, ?_⟩
    · exact ⟨newDriver platform root, (getDriver_storageOf hnodup).mpr ⟨root, hmem _ hgiven, rfl⟩,
        rfl⟩
    · obtain ⟨t, ht⟩ := Option.ne_none_iff_exists'.mp hconf.named.1
      obtain ⟨root, hroot⟩ := hconf.roots chosen t ht hconf.named.2
      have hplace : drivers.1.getAt [chosen, "root"] = some (.leaf (.string root)) :=
        (Tree.getAt_cons_of_getAt ht _).trans hroot
      have hdriver : (storageOf platform pairs default).getDriver chosen =
          .ok (newDriver platform root) :=
        (getDriver_storageOf hnodup).mpr
          ⟨root, hmem _ (mem_givenRoots.mpr ⟨hconf.named.2, hplace⟩), rfl⟩
      refine ⟨newDriver platform root, ?_, hdriver⟩
      rw [StorageManager.getDefaultDriver, hname]
      exact hdriver

end Storage

/-- The servers honour a configuration when it is read as it is given. -/
theorem serversHonour_iff_readAsGiven {J : JsonText ν} {elements : ν → Option (List (Json ν))}
    {hash : Enumeration} {order : List (Text × Text)} {globalConfig : ConfigManager}
    {platform : Platform σ} {document drivers : Json ν} {chosen : Text}
    (hconf : Configures document drivers chosen) {s : σ} :
    ServersHonour J elements hash order globalConfig platform drivers chosen s ↔
      ReadAsGiven J elements hash order globalConfig platform drivers chosen s := by
  rw [ServersHonour]
  simp only [Server.storage_initializeServer, HttpsServer.storage_initializeServer]
  constructor
  · rintro ⟨⟨st', hrun⟩, hhonoured, -⟩
    have hhonoured := hhonoured (pure ()) (pure ())
    rw [hrun] at hhonoured
    obtain ⟨read, pairs, default, s₁, s₂, hlog, hread, hroots, hensure, hdefault, rfl⟩ :=
      initializeStorage_eq_ok.mp hrun
    have hnodup : (pairs.map Prod.fst).Nodup := by
      rw [hroots.names]
      exact (nodup_items elements read).sublist (List.filter_sublist.map Prod.fst)
    obtain ⟨hmem, hname⟩ := (honoured_storageOf hconf hnodup).mp hhonoured
    exact ⟨read, pairs, default, hread, hroots, hmem, ⟨s₁, s₂, hlog, hensure⟩, hdefault, hname⟩
  · rintro ⟨read, pairs, default, hread, hroots, hmem, ⟨s₁, s₂, hlog, hensure⟩, hdefault, hname⟩
    have hnodup : (pairs.map Prod.fst).Nodup := by
      rw [hroots.names]
      exact (nodup_items elements read).sublist (List.filter_sublist.map Prod.fst)
    have hrun : (initializeStorage platform J elements hash order globalConfig).outcome ⟨{}, s⟩ =
        (.ok (), ⟨storageOf platform pairs default, s₂⟩) :=
      initializeStorage_eq_ok.mpr
        ⟨read, pairs, default, s₁, s₂, hlog, hread, hroots, hensure, hdefault, rfl⟩
    have hhonoured : Honoured drivers chosen (storageOf platform pairs default) :=
      (honoured_storageOf hconf hnodup).mpr ⟨hmem, hname⟩
    rw [hrun]
    exact ⟨⟨_, rfl⟩, fun _ _ => hhonoured, fun _ _ _ _ _ => hhonoured⟩

end Brazier
