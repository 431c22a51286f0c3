import Brazier.Config.SubtreeReads
import Brazier.Filesystem.ConfiguredDrivers

/-!
# The default driver of a configuration

Initialization looks the default driver up under `filesystem.default`, and takes `local` where
nothing is found, though a configuration names it under `filesystem.drivers.default`. In a plain
document nothing else is spelled like the drivers, and they come back from the map of the
configuration. `default_honoured_iff` says which configurations are honoured.
-/

namespace Brazier

open ProofLib ConfigManager

variable {ν σ : Type}

/-- The dotted key of a path below `filesystem.drivers`, without `filesystem.drivers` and its
dot. -/
def subKeyOf (path : List Text) : Text := joinWith ['.'] path

/-- Nothing else in the document is spelled like the drivers, none of their keys is cut at its dots
into a path above that of another one, and nothing is spelled like what is below
`filesystem.default`. -/
structure PlainDocument (document : Json ν) : Prop where
  alone : ∀ path leaf, document.1.getAt path = some (.leaf leaf) →
    InSubtree "filesystem.drivers" (joinKeys [] path) → driversPlace <+: path
  prefix_free : ∀ path path' leaf leaf',
    document.1.getAt (driversPlace ++ path) = some (.leaf leaf) →
    document.1.getAt (driversPlace ++ path') = some (.leaf leaf') →
    getlines '.' (subKeyOf path) <+: getlines '.' (subKeyOf path') → path = path'
  nothing_below : ∀ path leaf, document.1.getAt path = some (.leaf leaf) →
    ¬ Below "filesystem.default" (joinKeys [] path)

/-- What the drivers, the platform and the map of the configuration have to be like: no name has a
dot, no root is itself a JSON text, the directories can be prepared, and the text at
`filesystem.default`, or `local`, leads to the default driver that is chosen. -/
structure Honourable (J : JsonText ν) (globalConfig : ConfigManager) (platform : Platform σ)
    (drivers : Json ν) (chosen : Text) (s : σ) : Prop where
  names : ∀ pair ∈ givenRoots drivers, '.' ∉ pair.1
  roots : ∀ pair ∈ givenRoots drivers, J.parse pair.2 = none
  prepared : Prepared platform ((givenRoots drivers).map Prod.snd) s
  default : effectiveDefault ((givenRoots drivers).map Prod.fst)
    ((globalConfig.config[("filesystem.default" : Text)]?).getD "local") = chosen

/-! ## What is loaded -/

/-- Flattening returns when every leaf has a text. -/
theorem flattenResult_eq_ok {J : JsonText ν} {leaves : List (List Text × Leaf ν)} :
    flattenResult J leaves = .ok () ↔ ∀ leaf ∈ leaves, leafText J leaf.2 ≠ none := by
  induction leaves with
  | nil => simp [flattenResult]
  | cons leaf rest ih =>
      rw [flattenResult, List.forall_mem_cons]
      cases leafText J leaf.2 with
      | none => simp
      | some text => simp [ih]

/-- What is in the map after a document was loaded: its leaves. -/
theorem loadFromJson_eq_ok {J : JsonText ν} {document : Json ν} {start globalConfig : ConfigManager}
    (hload : (loadFromJson J document).outcome start = (.ok (), globalConfig)) :
    (∀ leaf ∈ document.1.leaves, leafText J leaf.2 ≠ none) ∧
      globalConfig.config = insertAll (leafPairs J [] document.1.leaves) ∅ := by
  rw [loadFromJson, outcome_bind_ok (outcome_modify _ _),
    onConfig_outcome _ (flattenJson_enters (J := J) document [] ∅)] at hload
  have htexts := flattenResult_eq_ok.mp (congrArg Prod.fst hload)
  have hflatten := (flattenJson_enters (J := J) document [] ∅).symm.trans
    (flattenJson_outcome document [] ∅ htexts)
  refine ⟨htexts, ?_⟩
  have hmanager : _ = globalConfig := congrArg Prod.snd hload
  rw [← hmanager]
  exact congrArg Prod.snd hflatten

/-- The key of a place below the drivers. -/
theorem joinKeys_drivers {path : List Text} (hpath : path ≠ []) :
    joinKeys [] (driversPlace ++ path) =
      ("filesystem.drivers" : Text) ++ '.' :: subKeyOf path := by
  have hstart : joinKeys [] (driversPlace ++ path) =
      joinKeys "filesystem.drivers" path := by
    show joinKeys (newPrefix (newPrefix [] "filesystem") "drivers") path = _
    have hjoined : newPrefix (newPrefix [] "filesystem") "drivers" =
        ("filesystem.drivers" : Text) := by decide
    rw [hjoined]
  obtain ⟨key, path, rfl⟩ := List.exists_cons_of_ne_nil hpath
  rw [hstart, joinKeys_eq_joinWith (by decide)]
  show ("filesystem.drivers" : Text) ++ ['.'] ++ joinWith ['.'] (key :: path) = _
  rw [List.append_assoc]
  rfl

/-- A place below the drivers, in the document. -/
theorem Configures.getAt {document drivers : Json ν} {chosen : Text}
    (hconf : Configures document drivers chosen) (path : List Text) :
    document.1.getAt (driversPlace ++ path) = drivers.1.getAt path := by
  refine (Tree.getAt_append document.1 driversPlace path).trans ?_
  rw [hconf.place]
  rfl

/-- The drivers are no leaf. -/
theorem Configures.path_ne_nil {document drivers : Json ν} {chosen : Text}
    (hconf : Configures document drivers chosen) {path : List Text} {leaf : Leaf ν}
    (hleaf : drivers.1.getAt path = some (.leaf leaf)) : path ≠ [] := by
  rintro rfl
  rw [Tree.getAt_nil] at hleaf
  have hdefault := hconf.default
  rw [Option.some.inj hleaf] at hdefault
  cases hdefault

/-- The key of a leaf of the drivers is not empty: under an empty name there is an object. -/
theorem Configures.subKeyOf_ne_nil {document drivers : Json ν} {chosen : Text}
    (hconf : Configures document drivers chosen) {path : List Text} {leaf : Leaf ν}
    (hleaf : drivers.1.getAt path = some (.leaf leaf)) : subKeyOf path ≠ [] := by
  obtain ⟨name, rest, rfl⟩ := List.exists_cons_of_ne_nil (hconf.path_ne_nil hleaf)
  cases rest with
  | nil =>
      show name ≠ []
      rintro rfl
      obtain ⟨root, hroot⟩ := hconf.roots [] _ hleaf (by decide)
      cases hroot
  | cons next rest =>
      show name ++ ['.'] ++ joinWith ['.'] (next :: rest) ≠ []
      simp

/-- The key of `default` is not cut. -/
theorem getlines_default : getlines '.' (subKeyOf ["default"]) = [("default" : Text)] :=
  getlines_part (by decide) (by decide)

/-! ## Plain documents -/

/-- A plain document that configures drivers was loaded, and its map is enumerated in this order. -/
structure PlainLoaded (J : JsonText ν) (document drivers : Json ν) (chosen : Text)
    (start globalConfig : ConfigManager) (order : List (Text × Text)) : Prop where
  plain : PlainDocument document
  configures : Configures document drivers chosen
  load : (loadFromJson J document).outcome start = (.ok (), globalConfig)
  order : order.Perm globalConfig.config.toList

namespace PlainLoaded

variable {J : JsonText ν} {document drivers : Json ν} {chosen : Text}
  {start globalConfig : ConfigManager} {order : List (Text × Text)}
  (h : PlainLoaded J document drivers chosen start globalConfig order)

include h

/-- What is in the map stands in the document. -/
theorem of_loaded {key value : Text} (hvalue : globalConfig.config[key]? = some value) :
    ∃ path leaf, document.1.getAt path = some (.leaf leaf) ∧ key = joinKeys [] path ∧
      leafText J leaf = some value := by
  obtain ⟨htexts, hconfig⟩ := loadFromJson_eq_ok h.load
  rw [hconfig] at hvalue
  rcases of_getElem?_insertAll hvalue with hmem | hempty
  · exact (mem_leafPairs htexts).mp hmem
  · simp at hempty

/-- Nothing is in the map at `filesystem.drivers`. -/
theorem drivers_no_key :
    globalConfig.config[("filesystem.drivers" : Text)]? = none := by
  by_contra hsome
  obtain ⟨value, hvalue⟩ := Option.ne_none_iff_exists'.mp hsome
  obtain ⟨path, leaf, hleaf, hkey, -⟩ := h.of_loaded hvalue
  obtain ⟨rest, rfl⟩ := h.plain.alone path leaf hleaf (Or.inl hkey.symm)
  have hrest : drivers.1.getAt rest = some (.leaf leaf) := by
    rw [← h.configures.getAt]
    exact hleaf
  have hjoin := joinKeys_drivers (h.configures.path_ne_nil hrest)
  have hlong := congrArg List.length (hkey.trans hjoin)
  rw [List.length_append, List.length_cons] at hlong
  omega

/-- A leaf under a key below `filesystem.drivers` is one of the drivers. -/
theorem of_key_below {path : List Text} {leaf : Leaf ν} {subKey : Text}
    (hleaf : document.1.getAt path = some (.leaf leaf))
    (hkey : ("filesystem.drivers" : Text) ++ '.' :: subKey = joinKeys [] path) :
    ∃ rest, path = driversPlace ++ rest ∧ drivers.1.getAt rest = some (.leaf leaf) ∧
      subKey = subKeyOf rest := by
  have hbelow : InSubtree "filesystem.drivers"
      (("filesystem.drivers" : Text) ++ '.' :: subKey) := by
    refine Or.inr ⟨subKey, ?_⟩
    rw [List.append_assoc]
    rfl
  obtain ⟨rest, rfl⟩ := h.plain.alone path leaf hleaf (hkey ▸ hbelow)
  have hrest : drivers.1.getAt rest = some (.leaf leaf) := by
    rw [← h.configures.getAt]
    exact hleaf
  have hjoin := hkey.trans (joinKeys_drivers (h.configures.path_ne_nil hrest))
  exact ⟨rest, rfl, hrest, (List.cons.inj (List.append_cancel_left hjoin)).2⟩

/-- The keys below `filesystem.drivers` are those of the leaves of the drivers. -/
theorem drivers_below {subKey value : Text} :
    globalConfig.config[("filesystem.drivers" : Text) ++ '.' :: subKey]? = some value ↔
      ∃ path leaf, drivers.1.getAt path = some (.leaf leaf) ∧ subKey = subKeyOf path ∧
        leafText J leaf = some value := by
  constructor
  · intro hvalue
    obtain ⟨path, leaf, hleaf, hkey, htext⟩ := h.of_loaded hvalue
    obtain ⟨rest, -, hrest, hsub⟩ := h.of_key_below hleaf hkey
    exact ⟨rest, leaf, hrest, hsub, htext⟩
  · rintro ⟨path, leaf, hleaf, rfl, htext⟩
    obtain ⟨htexts, hconfig⟩ := loadFromJson_eq_ok h.load
    rw [hconfig]
    have hplace : document.1.getAt (driversPlace ++ path) = some (.leaf leaf) := by
      rw [h.configures.getAt]
      exact hleaf
    have hkey := (joinKeys_drivers (h.configures.path_ne_nil hleaf)).symm
    refine getElem?_insertAll
      ((mem_leafPairs htexts).mpr ⟨_, leaf, hplace, hkey, htext⟩) fun v hv => ?_
    -- a second leaf under the key is the same one
    obtain ⟨path', leaf', hleaf', hkey', htext'⟩ := (mem_leafPairs htexts).mp hv
    obtain ⟨rest, rfl, -, hsub⟩ := h.of_key_below hleaf' hkey'
    have hpath := h.plain.prefix_free path rest leaf leaf' hplace hleaf' (hsub ▸ List.prefix_rfl)
    subst hpath
    rw [hplace] at hleaf'
    cases hleaf'
    rw [htext] at htext'
    exact (Option.some.inj htext').symm

/-- The entries below `filesystem.drivers` are the leaves of the drivers, with their keys cut at the
dots. -/
theorem mem_entries {e : Entry Text (Leaf ν)} :
    e ∈ (filteredBelow "filesystem.drivers" order).map (pathEntry J) ↔
      ∃ path leaf text, drivers.1.getAt path = some (.leaf leaf) ∧ leafText J leaf = some text ∧
        e = (getlines '.' (subKeyOf path), valueJson J text) := by
  rw [List.mem_map]
  constructor
  · rintro ⟨⟨subKey, value⟩, hmem, rfl⟩
    rw [mem_filteredBelow, h.order.mem_iff, mem_toList_iff, h.drivers_below] at hmem
    obtain ⟨path, leaf, hleaf, rfl, htext⟩ := hmem
    exact ⟨path, leaf, value, hleaf, htext, rfl⟩
  · rintro ⟨path, leaf, text, hleaf, htext, rfl⟩
    refine ⟨(subKeyOf path, text), ?_, rfl⟩
    rw [mem_filteredBelow, h.order.mem_iff, mem_toList_iff, h.drivers_below]
    exact ⟨path, leaf, hleaf, rfl, htext⟩

/-- The entries below `filesystem.drivers` are consistent: none is below another one. -/
theorem consistent :
    Consistent ((filteredBelow "filesystem.drivers" order).map (pathEntry J)) := by
  intro e he e' he' rest hrest
  obtain ⟨path, leaf, text, hleaf, htext, rfl⟩ := h.mem_entries.mp he
  obtain ⟨path', leaf', text', hleaf', htext', rfl⟩ := h.mem_entries.mp he'
  replace hrest : getlines '.' (subKeyOf path') = getlines '.' (subKeyOf path) ++ rest := hrest
  have hpath : path = path' := by
    refine h.plain.prefix_free path path' leaf leaf' ?_ ?_ (hrest ▸ List.prefix_append _ _)
    · rw [h.configures.getAt]
      exact hleaf
    · rw [h.configures.getAt]
      exact hleaf'
  subst hpath
  obtain rfl : rest = [] := List.self_eq_append_right.mp hrest
  rw [hleaf] at hleaf'
  cases hleaf'
  rw [htext] at htext'
  cases htext'
  exact Tree.getAt_nil _

/-- `getJson` returns what the leaves of the drivers build. -/
theorem getJson_drivers (hash : Enumeration) :
    ∃ read, getJson J hash order "filesystem.drivers" = .ok read ∧ Grown Leaf.isNull
      ((filteredBelow "filesystem.drivers" order).map (pathEntry J)) read := by
  have hnone : ∀ entry ∈ order, entry.1 ≠ ("filesystem.drivers" : Text) := by
    rintro ⟨key, value⟩ hmem rfl
    have hvalue := mem_toList_iff.mp (h.order.mem_iff.mp hmem)
    rw [h.drivers_no_key] at hvalue
    cases hvalue
  have hnodup : ((filteredBelow "filesystem.drivers" order).map Prod.fst).Nodup :=
    nodup_filteredBelow (nodup_keys_of_perm h.order)
  have hperm := hash.enumerate_perm hnodup
  have hsome : filteredBelow "filesystem.drivers" order ≠ [] := by
    intro hnil
    have hdefault := h.mem_entries.mpr ⟨_, _, chosen, h.configures.default, rfl, rfl⟩
    rw [hnil] at hdefault
    cases hdefault
  obtain ⟨read, hassign, hgrown⟩ := assignAll_consistent Leaf.isNull Leaf.null
    (h.consistent.mono fun e he => ((hperm.map (pathEntry J)).mem_iff).mp he) rfl
  refine ⟨read, ?_, hgrown.congr fun e => (hperm.map (pathEntry J)).mem_iff⟩
  rw [getJson, getJsonFrom_of_not_mem hnone, List.nil_append,
    if_neg (by simpa using hsome)]
  refine unflattenMap_eq_ok.mpr ⟨?_, hassign⟩
  rintro ⟨subKey, value⟩ hmem
  rw [hperm.mem_iff, mem_filteredBelow, h.order.mem_iff, mem_toList_iff, h.drivers_below] at hmem
  obtain ⟨path, leaf, hleaf, rfl, -⟩ := hmem
  exact h.configures.subKeyOf_ne_nil hleaf

/-! ## What is read of the drivers -/

section Read

variable {read : Json ν} (hgrown : Grown Leaf.isNull
    ((filteredBelow "filesystem.drivers" order).map (pathEntry J)) read)

include hgrown

/-- What is read is an object: it has `default`. -/
theorem members_read : ∃ members, read.members = some members := by
  have hentry := hgrown.at_entry _ (h.mem_entries.mpr
    ⟨["default"], .string chosen, chosen, h.configures.default, rfl, rfl⟩)
  rw [getlines_default] at hentry
  exact members_of_getAt (by rw [hentry]; simp)

/-- The root of a driver is read under the name of the driver when that has no dot. -/
theorem getAt_read {name root : Text} (hgiven : (name, root) ∈ givenRoots drivers)
    (hdot : '.' ∉ name) : read.1.getAt [name, "root"] = some (valueJson J root).1 := by
  obtain ⟨-, hroot⟩ := mem_givenRoots.mp hgiven
  have hcut : getlines '.' (subKeyOf [name, "root"]) = [name, "root"] := by
    have hkey : subKeyOf [name, "root"] = name ++ '.' :: ("root" : Text) := by
      show name ++ ['.'] ++ ("root" : Text) = _
      rw [List.append_assoc]
      rfl
    rw [hkey, getlines_append_delim hdot, getlines_part (by decide) (by decide)]
  have hentry := hgrown.at_entry _ (h.mem_entries.mpr
    ⟨[name, "root"], .string root, root, hroot, rfl, rfl⟩)
  rw [hcut] at hentry
  exact hentry

/-- A name that is read is the first part of the key of a leaf. -/
theorem of_read {name : Text} (hread : read.1.getAt [name] ≠ none) :
    ∃ path leaf rest, drivers.1.getAt path = some (.leaf leaf) ∧
      getlines '.' (subKeyOf path) = name :: rest := by
  have hview : read.1.view [name] ≠ none := by
    rw [Tree.view]
    simpa using hread
  obtain ⟨e, he, hrelated⟩ := hgrown.covered [name] hview (by simp)
  obtain ⟨path, leaf, text, hleaf, -, rfl⟩ := h.mem_entries.mp he
  obtain ⟨part, parts, hparts⟩ := List.exists_cons_of_ne_nil
    (getlines_ne_nil '.' (h.configures.subKeyOf_ne_nil hleaf))
  refine ⟨path, leaf, parts, hleaf, ?_⟩
  dsimp only at hrelated
  rw [hparts, List.cons_prefix_cons, List.cons_prefix_cons] at hrelated
  rcases hrelated with ⟨rfl, -⟩ | ⟨rfl, -⟩
  · exact hparts
  · exact hparts

/-- Where the names have no dots, every name that is read but `default` is one of them. -/
theorem given_of_read (hnames : ∀ pair ∈ givenRoots drivers, '.' ∉ pair.1)
    {name : Text} (hread : read.1.getAt [name] ≠ none) (hname : name ≠ ("default" : Text)) :
    ∃ root, (name, root) ∈ givenRoots drivers := by
  obtain ⟨path, leaf, parts, hleaf, hparts⟩ :=
    h.of_read hgrown hread
  obtain ⟨first, rest, rfl⟩ := List.exists_cons_of_ne_nil (h.configures.path_ne_nil hleaf)
  obtain ⟨t, ht, hrest⟩ := Tree.exists_getAt_of_cons hleaf
  by_cases hfirst : first = ("default" : Text)
  · -- below `default` there is nothing, so the name would be `default`
    subst hfirst
    rw [h.configures.default] at ht
    cases ht
    cases rest with
    | nil =>
        rw [getlines_default] at hparts
        exact absurd (List.cons.inj hparts).1.symm hname
    | cons key rest => cases hrest
  · obtain ⟨root, hroot⟩ := h.configures.roots first t ht hfirst
    have hgiven : (first, root) ∈ givenRoots drivers :=
      mem_givenRoots.mpr ⟨hfirst, (Tree.getAt_cons_of_getAt ht _).trans hroot⟩
    cases rest with
    | nil =>
        rw [Tree.getAt_nil] at hrest
        cases hrest
        cases hroot
    | cons key rest =>
        have hkey : subKeyOf (first :: key :: rest) = first ++ '.' :: subKeyOf (key :: rest) := by
          show first ++ ['.'] ++ _ = _
          rw [List.append_assoc]
          rfl
        rw [hkey, getlines_append_delim (hnames _ hgiven)] at hparts
        exact ⟨root, (List.cons.inj hparts).1 ▸ hgiven⟩

/-- Where no name has a dot and no root is a JSON text, the roots are read as they are given. -/
theorem rootsRead (elements : ν → Option (List (Json ν)))
    (hnames : ∀ pair ∈ givenRoots drivers, '.' ∉ pair.1)
    (hroots : ∀ pair ∈ givenRoots drivers, J.parse pair.2 = none) :
    RootsRead (items elements read) (givenRoots drivers) := by
  obtain ⟨members, hmembers⟩ := h.members_read hgrown
  have hgiven : ∀ name root cfg, (name, root) ∈ givenRoots drivers → (name, cfg) ∈ members →
      itemRoot cfg = .ok root := by
    intro name root cfg hgiven hmem
    have hplace := (mem_members_iff hmembers).mp hmem
    have hroot := h.getAt_read hgrown hgiven (hnames _ hgiven)
    have hsplit := Tree.getAt_cons_of_getAt hplace ["root"]
    refine (itemRoot_of_getAt (hsplit.symm.trans hroot)).mpr ?_
    rw [valueJson, hroots _ hgiven]
    rfl
  rw [items_eq_members hmembers]
  refine rootsRead_of_ascending (members_pairwise hmembers) (givenRoots_pairwise drivers) ?_ ?_
  · intro name cfg hmem hname
    have hplace := (mem_members_iff hmembers).mp hmem
    obtain ⟨root, hroot⟩ := h.given_of_read hgrown hnames
      (by rw [hplace]; simp) hname
    exact ⟨root, hroot, hgiven name root cfg hroot hmem⟩
  · intro name root hroot
    have hat := h.getAt_read hgrown hroot (hnames _ hroot)
    obtain ⟨t, ht, -⟩ := Tree.exists_getAt_of_cons hat
    have hmem : (name, ⟨t, read.2.getAt ht⟩) ∈ members := (mem_members_iff hmembers).mpr ht
    exact ⟨(mem_givenRoots.mp hroot).1, _, hmem, hgiven name root _ hroot hmem⟩

/-- A root that is read as it is given belongs to a name without dots, and is no JSON text. -/
theorem of_root_read {elements : ν → Option (List (Json ν))}
    {pairs : List (Text × Text)} (hread : RootsRead (items elements read) pairs) {name root : Text}
    (hgiven : (name, root) ∈ givenRoots drivers) (hmem : (name, root) ∈ pairs) :
    '.' ∉ name ∧ J.parse root = none := by
  obtain ⟨members, hmembers⟩ := h.members_read hgrown
  rw [items_eq_members hmembers] at hread
  obtain ⟨cfg, hcfg, hroot⟩ := hread.of_mem hmem
  have hplace := (mem_members_iff hmembers).mp hcfg
  have hdot : '.' ∉ name := by
    obtain ⟨path, leaf, rest, -, hparts⟩ := h.of_read hgrown
      (by rw [hplace]; simp : read.1.getAt [name] ≠ none)
    exact not_mem_of_getlines (hparts ▸ List.mem_cons_self)
  have hsplit := Tree.getAt_cons_of_getAt hplace ["root"]
  have hvalue := (itemRoot_of_getAt (hsplit.symm.trans
    (h.getAt_read hgrown hgiven hdot))).mp hroot
  refine ⟨hdot, ?_⟩
  -- a string that is read from a text is shorter than the text
  cases hparse : J.parse root with
  | none => rfl
  | some j =>
      rw [valueJson, hparse] at hvalue
      have hshorter := J.string_lt root j [] root hparse (by rw [Tree.getAt_nil, ← hvalue])
      omega

end Read

/-- The name that is looked up is the text at `filesystem.default`, or `local`. -/
theorem getNested_default (hash : Enumeration) :
    getNested J .string hash order globalConfig "filesystem.default" "local" =
      .ok ((globalConfig.config[("filesystem.default" : Text)]?).getD "local") := by
  rw [getNested]
  cases hkey : globalConfig.config[("filesystem.default" : Text)]? with
  | some text => rfl
  | none =>
      have hnil : filteredBelow "filesystem.default" order = [] := by
        refine List.eq_nil_iff_forall_not_mem.mpr ?_
        rintro ⟨subKey, value⟩ hmem
        rw [mem_filteredBelow, h.order.mem_iff, mem_toList_iff] at hmem
        obtain ⟨path, leaf, hleaf, hpath, -⟩ := h.of_loaded hmem
        refine h.plain.nothing_below path leaf hleaf (hpath ▸ ⟨subKey, ?_⟩)
        rw [List.append_assoc]
        rfl
      dsimp only
      rw [hnil]
      rfl

/-- What is read of a plain document is what it gives when its names and roots, the platform and
the text that leads to the default driver allow it. -/
theorem readAsGiven_iff {elements : ν → Option (List (Json ν))} {hash : Enumeration}
    {platform : Platform σ} {s : σ} :
    ReadAsGiven J elements hash order globalConfig platform drivers chosen s ↔
      Honourable J globalConfig platform drivers chosen s := by
  obtain ⟨read, hread, hgrown⟩ := h.getJson_drivers hash
  have hdefault := h.getNested_default hash
  constructor
  · rintro ⟨read', pairs, default, hread', hroots, hmem, hprepared, hdefault', hchosen⟩
    rw [hread] at hread'
    cases hread'
    rw [hdefault] at hdefault'
    cases hdefault'
    have hgiven : ∀ pair ∈ givenRoots drivers, '.' ∉ pair.1 ∧ J.parse pair.2 = none :=
      fun pair hpair => h.of_root_read hgrown hroots hpair (hmem _ hpair)
    have hsame := hroots.unique (h.rootsRead hgrown elements
      (fun pair hpair => (hgiven pair hpair).1) fun pair hpair => (hgiven pair hpair).2)
    subst hsame
    exact ⟨fun pair hpair => (hgiven pair hpair).1, fun pair hpair => (hgiven pair hpair).2,
      hprepared, hchosen⟩
  · rintro ⟨hnames, hroots, hprepared, hchosen⟩
    exact ⟨read, givenRoots drivers, _, hread,
      h.rootsRead hgrown elements hnames hroots, fun _ hpair => hpair,
      hprepared, hdefault, hchosen⟩

end PlainLoaded

/-- After a document was loaded that configures drivers, the servers honour it when it is read as it
is given. For a plain document that is so when no name of a driver has a dot, no root is a JSON
text, the directories can be prepared, and the text at `filesystem.default`, or `local`, leads to
the default driver that is named under `filesystem.drivers`. -/
theorem default_honoured_iff (J : JsonText ν) (elements : ν → Option (List (Json ν)))
    (hash : Enumeration) (platform : Platform σ) {document drivers : Json ν} {chosen : Text}
    (hconf : Configures document drivers chosen) {start globalConfig : ConfigManager}
    (hload : (loadFromJson J document).outcome start = (.ok (), globalConfig))
    {order : List (Text × Text)} (horder : order.Perm globalConfig.config.toList) (s : σ) :
    (ServersHonour J elements hash order globalConfig platform drivers chosen s ↔
      ReadAsGiven J elements hash order globalConfig platform drivers chosen s) ∧
    (PlainDocument document →
      (ServersHonour J elements hash order globalConfig platform drivers chosen s ↔
        Honourable J globalConfig platform drivers chosen s)) := by
  have hread : ServersHonour J elements hash order globalConfig platform drivers chosen s ↔
      ReadAsGiven J elements hash order globalConfig platform drivers chosen s :=
    serversHonour_iff_readAsGiven hconf
  refine ⟨hread, fun hplain => hread.trans ?_⟩
  have hloaded : PlainLoaded J document drivers chosen start globalConfig order :=
    ⟨hplain, hconf, hload, horder⟩
  exact hloaded.readAsGiven_iff

/-! ## A configuration with two drivers -/

/-- The drivers `local` and `root`. -/
def twoDrivers (chosen : Text) : Forest Text (Leaf Bool) :=
  .leaf ("default" : Text) (.string chosen)
    (.node ("local" : Text) (.leaf ("root" : Text) (.string "./storage") .nil)
      (.node ("root" : Text) (.leaf ("root" : Text) (.string "./") .nil) .nil))

theorem twoDrivers_sorted (chosen : Text) : (twoDrivers chosen).Sorted := by
  simp [twoDrivers, Forest.Sorted, Forest.keys]
  decide

/-- The document with these drivers alone. -/
def twoDriversDocument (chosen : Text) : Json Bool :=
  ⟨.node (.node ("filesystem" : Text) (.node ("drivers" : Text) (twoDrivers chosen) .nil) .nil), by
    simp [Tree.Sorted, Forest.Sorted, Forest.keys, twoDrivers_sorted]⟩

/-- The manager into which it is loaded. -/
def loadedDrivers (chosen : Text) : ConfigManager :=
  ((loadFromJson PlainJson.jsonText (twoDriversDocument chosen)).outcome .empty).2

/-- A platform on which every directory is there. -/
def readyPlatform : Platform Unit where
  openLog s := (.ok (), s)
  existsAt _ _ := .ok true
  createDirectories _ s := (.ok (), s)
  hardwareConcurrency := 4

theorem configures_twoDrivers {chosen : Text}
    (hchosen : chosen = ("local" : Text) ∨ chosen = ("root" : Text)) :
    Configures (twoDriversDocument chosen) ⟨.node (twoDrivers chosen), twoDrivers_sorted chosen⟩
      chosen := by
  refine ⟨rfl, ?_, rfl, ?_⟩
  · intro name t ht hname
    rw [Tree.getAt_node_cons, twoDrivers, Forest.get, if_neg hname] at ht
    obtain ⟨u, hu, ht⟩ := Option.bind_eq_some_iff.mp ht
    rw [Tree.getAt_nil] at ht
    cases ht
    rw [Forest.get, Forest.get, Forest.get] at hu
    split at hu
    · cases hu
      exact ⟨"./storage", rfl⟩
    · split at hu
      · cases hu
        exact ⟨"./", rfl⟩
      · cases hu
  · rcases hchosen with rfl | rfl <;> decide

/-- The places of the leaves below the place of the drivers. -/
def twoPlaces : List (List Text) := [["default"], ["local", "root"], ["root", "root"]]

theorem mem_twoPlaces {chosen : Text} {path : List Text} {leaf : Leaf Bool}
    (h : (twoDriversDocument chosen).1.getAt path = some (.leaf leaf)) :
    ∃ place ∈ twoPlaces, path = driversPlace ++ place := by
  have hmem := List.mem_map_of_mem (f := Prod.fst) ((twoDriversDocument chosen).2.mem_leaves.mpr h)
  have hleaves : (twoDriversDocument chosen).1.leaves.map Prod.fst =
      twoPlaces.map (driversPlace ++ ·) := rfl
  rw [hleaves] at hmem
  obtain ⟨place, hplace, heq⟩ := List.mem_map.mp hmem
  exact ⟨place, hplace, heq.symm⟩

theorem plain_twoDrivers (chosen : Text) : PlainDocument (twoDriversDocument chosen) where
  alone path leaf hleaf _ := by
    obtain ⟨place, -, rfl⟩ := mem_twoPlaces hleaf
    exact List.prefix_append _ _
  prefix_free path path' leaf leaf' hleaf hleaf' hbefore := by
    have hfree : ∀ place ∈ twoPlaces, ∀ place' ∈ twoPlaces,
        getlines '.' (subKeyOf place) <+: getlines '.' (subKeyOf place') → place = place' := by
      decide
    obtain ⟨place, hplace, heq⟩ := mem_twoPlaces hleaf
    obtain ⟨place', hplace', heq'⟩ := mem_twoPlaces hleaf'
    obtain rfl := List.append_cancel_left heq
    obtain rfl := List.append_cancel_left heq'
    exact hfree path hplace path' hplace' hbefore
  nothing_below path leaf hleaf := by
    have hout : ∀ place ∈ twoPlaces,
        ¬ Below "filesystem.default" (joinKeys [] (driversPlace ++ place)) := by
      decide
    obtain ⟨place, hplace, rfl⟩ := mem_twoPlaces hleaf
    exact hout place hplace

/-- With `local` as the default driver both servers honour the configuration. -/
theorem local_honoured :
    ServersHonour PlainJson.jsonText (fun _ => none) sortedEnumeration
      (loadedDrivers "local").config.toList (loadedDrivers "local") readyPlatform
      ⟨.node (twoDrivers "local"), twoDrivers_sorted "local"⟩ "local" () := by
  refine ((default_honoured_iff PlainJson.jsonText (fun _ => none) sortedEnumeration readyPlatform
    (configures_twoDrivers (Or.inl rfl))
    (rfl : (loadFromJson PlainJson.jsonText (twoDriversDocument "local")).outcome .empty =
      (.ok (), loadedDrivers "local")) (List.Perm.refl _) ()).2 (plain_twoDrivers "local")).mpr ?_
  refine ⟨by decide, by decide, ⟨(), (), rfl, rfl⟩, by decide⟩

/-- The servers choose `local`, whatever the default driver is to be. -/
theorem initializeStorage_twoDrivers {chosen : Text}
    (hchosen : chosen = ("local" : Text) ∨ chosen = ("root" : Text)) :
    (initializeStorage readyPlatform PlainJson.jsonText (fun _ => none) sortedEnumeration
      (loadedDrivers chosen).config.toList (loadedDrivers chosen)).outcome ⟨{}, ()⟩ =
        (.ok (),
          ⟨storageOf readyPlatform [("local", "./storage"), ("root", "./")] "local", ()⟩) := by
  have h : PlainLoaded PlainJson.jsonText (twoDriversDocument chosen)
      ⟨.node (twoDrivers chosen), twoDrivers_sorted chosen⟩ chosen .empty (loadedDrivers chosen)
      (loadedDrivers chosen).config.toList :=
    ⟨plain_twoDrivers chosen, configures_twoDrivers hchosen, rfl, List.Perm.refl _⟩
  obtain ⟨read, hread, hgrown⟩ := h.getJson_drivers sortedEnumeration
  have hroots := h.rootsRead hgrown (fun _ => none)
    (show ∀ pair ∈ ([("local", "./storage"), ("root", "./")] : List (Text × Text)), '.' ∉ pair.1 by
      decide)
    (show ∀ pair ∈ ([("local", "./storage"), ("root", "./")] : List (Text × Text)),
      PlainJson.jsonText.parse pair.2 = none by decide)
  have hdefault := h.getNested_default sortedEnumeration
  have hnone : (loadedDrivers chosen).config[("filesystem.default" : Text)]? = none := by
    rcases hchosen with rfl | rfl <;> decide
  rw [hnone] at hdefault
  exact initializeStorage_eq_ok.mpr
    ⟨read, _, _, (), (), rfl, hread, hroots, rfl, hdefault, rfl⟩

/-- With `root` as the default driver the one with the root of `local` is returned. -/
theorem root_not_honoured :
    Configures (twoDriversDocument "root") ⟨.node (twoDrivers "root"), twoDrivers_sorted "root"⟩
      "root" ∧
    (loadFromJson PlainJson.jsonText (twoDriversDocument "root")).outcome .empty =
      (.ok (), loadedDrivers "root") ∧
    (∀ initializeConnections initRoutes,
      let storage := ((Server.initializeServer readyPlatform PlainJson.jsonText (fun _ => none)
        sortedEnumeration (loadedDrivers "root").config.toList (loadedDrivers "root")
        initializeConnections initRoutes).outcome ⟨{}, ()⟩).2.storage
      storage.getDefaultDriver = .ok (newDriver readyPlatform "./storage") ∧
        storage.getDriver "root" = .ok (newDriver readyPlatform "./")) ∧
    ¬ ServersHonour PlainJson.jsonText (fun _ => none) sortedEnumeration
      (loadedDrivers "root").config.toList (loadedDrivers "root") readyPlatform
      ⟨.node (twoDrivers "root"), twoDrivers_sorted "root"⟩ "root" () := by
  have hrun := initializeStorage_twoDrivers (Or.inr rfl)
  refine ⟨configures_twoDrivers (Or.inr rfl), rfl, ?_, ?_⟩
  · intro initializeConnections initRoutes
    rw [Server.storage_initializeServer, hrun]
    decide
  · rintro ⟨-, hserver, -⟩
    have hhonoured := hserver (pure ()) (pure ())
    rw [Server.storage_initializeServer, hrun] at hhonoured
    exact absurd hhonoured.default.1 (by decide)

end Brazier
