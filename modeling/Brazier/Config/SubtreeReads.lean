import Brazier.Config.ReaderAgreement

/-!
# Reading a subtree

`getNestedJson` selects the keys that begin with the text of the path and cuts off one character
more than the path has. In a map of dotted keys the result is the document of the entries below the
path, unless another key begins with the text of the path and puts something into the document that
is not there already. The path itself and a key of one character more have no place in it at all.
-/

namespace Brazier

open ProofLib

namespace ConfigManager

variable {ν : Type} {J : JsonText ν} {config : TextMap} {path : Text}

/-- The texts between the dots of a key. -/
def dotSegments (key : Text) : List Text := getlines '.' (key ++ ['.'])

/-- The keys consist of segments that are not empty, and none stands in front of another one. -/
structure Dotted (config : TextMap) : Prop where
  segment_ne_nil : ∀ key : Text, config[key]? ≠ none → ∀ segment ∈ dotSegments key, segment ≠ []
  prefix_free : ∀ key key' : Text, config[key]? ≠ none → config[key']? ≠ none →
    dotSegments key <+: dotSegments key' → key = key'

/-- `getNestedJson` returns the document of the entries below the path, however `config_` and the
map that it fills are enumerated. -/
def ReadsSubtree (J : JsonText ν) (config : TextMap) (path : Text) : Prop :=
  ∀ hash order, order.Perm config.toList → ∃ j, getNestedJson J hash order path = .ok j ∧
    ∀ order', order'.Perm (filteredBelow path config.toList) → unflattenMap J order' = .ok j

/-- A key that begins with the text of the path is below it, or has at least two characters more and
a value that the document of the entries below the path has at the place of what follows the first
of them. -/
def OthersRepeat (J : JsonText ν) (config : TextMap) (path : Text) : Prop :=
  ∀ key value : Text, config[key]? = some value → path <+: key → ¬ Below path key →
    ∃ c rest j, key = path ++ c :: rest ∧ rest ≠ [] ∧
      unflattenMap J (filteredBelow path config.toList) = .ok j ∧
      j.1.getAt (getlines '.' rest) = some (valueJson J value).1

/-! ## Dotted keys -/

/-- A dot at the end adds a part that is empty, or ends the last part. -/
theorem dotSegments_cases (key : Text) :
    dotSegments key = getlines '.' key ∨ dotSegments key = getlines '.' key ++ [[]] := by
  rw [dotSegments]
  induction key with
  | nil => exact Or.inr rfl
  | cons c key ih =>
      rw [List.cons_append, getlines, getlines]
      split
      · rcases ih with ih | ih
        · exact Or.inl (by rw [ih])
        · exact Or.inr (by rw [ih]; rfl)
      · cases hparts : getlines '.' key with
        | nil =>
            have hkey : key = [] := by
              by_contra hne
              exact getlines_ne_nil '.' hne hparts
            subst hkey
            exact Or.inl rfl
        | cons part parts =>
            rw [hparts] at ih
            rcases ih with ih | ih
            · exact Or.inl (by rw [ih])
            · exact Or.inr (by rw [ih]; rfl)

/-- The segments of a key below a path are those of the path and those of the rest. -/
theorem dotSegments_below (path rest : Text) :
    dotSegments (path ++ '.' :: rest) = dotSegments path ++ dotSegments rest := by
  rw [dotSegments, List.append_assoc, List.cons_append, getlines_append_dot]
  rfl

/-- Segments that are not empty are the parts of the key. -/
theorem getlines_eq_dotSegments {key : Text} (h : ∀ segment ∈ dotSegments key, segment ≠ []) :
    getlines '.' key = dotSegments key := by
  rcases dotSegments_cases key with hsame | hmore
  · exact hsame.symm
  · exact absurd rfl (h [] (by rw [hmore]; simp))

/-- An entry below the path, with the path and the dot cut off. -/
theorem mem_below {subKey value : Text} :
    (subKey, value) ∈ filteredBelow path config.toList ↔
      config[path ++ '.' :: subKey]? = some value := by
  rw [mem_filteredBelow, mem_toList_iff]

namespace Dotted

/-- The segments of what follows the path are not empty. -/
theorem subKey_segments (h : Dotted config) {subKey value : Text}
    (hmem : (subKey, value) ∈ filteredBelow path config.toList) :
    ∀ segment ∈ dotSegments subKey, segment ≠ [] := by
  intro segment hsegment
  have hkey := mem_below.mp hmem
  refine h.segment_ne_nil _ (by rw [hkey]; simp) segment ?_
  rw [dotSegments_below]
  exact List.mem_append_right _ hsegment

/-- What follows the path is not empty. -/
theorem subKey_ne_nil (h : Dotted config) {subKey value : Text}
    (hmem : (subKey, value) ∈ filteredBelow path config.toList) : subKey ≠ [] := by
  rintro rfl
  exact h.subKey_segments hmem [] (by decide) rfl

/-- The entries below the path are consistent: none is below another one. -/
theorem consistent (h : Dotted config) :
    Consistent ((filteredBelow path config.toList).map (pathEntry J)) := by
  intro e he e' he' rest hrest
  obtain ⟨⟨subKey, value⟩, hmem, rfl⟩ := List.mem_map.mp he
  obtain ⟨⟨subKey', value'⟩, hmem', rfl⟩ := List.mem_map.mp he'
  have hkey := mem_below.mp hmem
  have hkey' := mem_below.mp hmem'
  replace hrest : getlines '.' subKey' = getlines '.' subKey ++ rest := hrest
  rw [getlines_eq_dotSegments (h.subKey_segments hmem),
    getlines_eq_dotSegments (h.subKey_segments hmem')] at hrest
  have hsame : path ++ '.' :: subKey = path ++ '.' :: subKey' := by
    refine h.prefix_free _ _ (by rw [hkey]; simp) (by rw [hkey']; simp) ?_
    rw [dotSegments_below, dotSegments_below, hrest, ← List.append_assoc]
    exact List.prefix_append _ _
  obtain rfl : subKey = subKey' := by simpa using hsame
  obtain rfl : rest = [] := List.self_eq_append_right.mp hrest
  rw [hkey] at hkey'
  cases hkey'
  exact Tree.getAt_nil _

/-- The entries below the path give a document, the same one in every order. -/
theorem built (h : Dotted config) (J : JsonText ν) (path : Text) :
    ∃ j, (∀ order, order.Perm (filteredBelow path config.toList) →
        unflattenMap J order = .ok j) ∧
      Grown Leaf.isNull ((filteredBelow path config.toList).map (pathEntry J)) j := by
  have hconsistent : Consistent ((filteredBelow path config.toList).map (pathEntry J)) :=
    h.consistent
  obtain ⟨j, _, hgrown⟩ := assignAll_consistent Leaf.isNull Leaf.null hconsistent rfl
  refine ⟨j, fun order horder => unflattenMap_eq_ok.mpr ⟨?_, ?_⟩, hgrown⟩
  · intro ⟨subKey, value⟩ hmem
    exact h.subKey_ne_nil (horder.mem_iff.mp hmem)
  · have hmem := fun e => (horder.map (pathEntry J)).mem_iff (a := e)
    obtain ⟨u, hassign, hgrown'⟩ := assignAll_consistent Leaf.isNull Leaf.null
      (hconsistent.mono fun e he => (hmem e).mp he) rfl
    refine hassign.trans (congrArg some ?_)
    by_cases hnil : order = []
    · subst hnil
      cases hassign
      obtain ⟨value, hblank, rfl⟩ := hgrown.bare (by rw [← horder.nil_eq]; rfl)
      cases value with
      | null => rfl
      | string text => cases hblank
      | other v => cases hblank
    · exact hgrown'.unique (by simpa using hnil) (hgrown.congr fun e => (hmem e).symm)

end Dotted

/-! ## What the loop selects -/

/-- What is inserted when no key is the path: the keys that begin with it, with one character more
cut off. -/
def cutAfter (path : Text) (order : List (Text × Text)) : List (Text × Text) :=
  (order.filter (fun entry => path.isPrefixOf entry.1)).map
    (fun entry => (entry.1.drop (path.length + 1), entry.2))

/-- The path is a key: `substr` throws. -/
theorem filteredFrom_error {order filtered : List (Text × Text)} {value : Text}
    (hmem : (path, value) ∈ order) : filteredFrom path filtered order = .error .outOfRange := by
  induction order generalizing filtered with
  | nil => cases hmem
  | cons entry rest ih =>
      obtain ⟨key, v⟩ := entry
      rw [filteredFrom]
      rw [List.mem_cons] at hmem
      rcases hmem with heq | hrest
      · cases heq
        rw [if_pos (List.isPrefixOf_iff_prefix.mpr (List.prefix_refl path)), if_pos (by omega)]
      · split
        · split
          · rfl
          · exact ih hrest
        · exact ih hrest

/-- The path is no key: the loop ends. -/
theorem filteredFrom_ok {order filtered : List (Text × Text)}
    (hnone : ∀ entry ∈ order, entry.1 ≠ path) :
    filteredFrom path filtered order = .ok (filtered ++ cutAfter path order) := by
  induction order generalizing filtered with
  | nil => simp [filteredFrom, cutAfter]
  | cons entry rest ih =>
      obtain ⟨key, v⟩ := entry
      obtain ⟨hkey, hrest⟩ := List.forall_mem_cons.mp hnone
      rw [filteredFrom, cutAfter, List.filter_cons]
      split
      · next hstarts =>
          obtain ⟨more, rfl⟩ := List.isPrefixOf_iff_prefix.mp hstarts
          have hmore : more ≠ [] := by
            rintro rfl
            exact hkey (List.append_nil path)
          have hlen := List.length_pos_iff.mpr hmore
          rw [if_neg (by rw [List.length_append]; omega), ih hrest]
          simp [cutAfter]
      · rw [ih hrest]
        rfl

/-- What is inserted, by the characters behind the path. -/
theorem mem_cutAfter {subKey value : Text} {order : List (Text × Text)}
    (hnone : ∀ entry ∈ order, entry.1 ≠ path) :
    (subKey, value) ∈ cutAfter path order ↔ ∃ c, (path ++ c :: subKey, value) ∈ order := by
  rw [cutAfter, List.mem_map]
  constructor
  · rintro ⟨⟨key, v⟩, hmem, heq⟩
    obtain ⟨hmem, hstarts⟩ := List.mem_filter.mp hmem
    obtain ⟨more, rfl⟩ := List.isPrefixOf_iff_prefix.mp hstarts
    obtain ⟨c, rest, rfl⟩ : ∃ c rest, more = c :: rest := by
      refine List.exists_cons_of_ne_nil ?_
      rintro rfl
      exact hnone _ hmem (List.append_nil path)
    obtain ⟨hcut, rfl⟩ : (path ++ c :: rest).drop (path.length + 1) = subKey ∧ v = value :=
      Prod.ext_iff.mp heq
    have hsub : rest = subKey := by simpa using hcut
    exact ⟨c, by rwa [← hsub]⟩
  · rintro ⟨c, hmem⟩
    refine ⟨(path ++ c :: subKey, value), List.mem_filter.mpr ⟨hmem, ?_⟩, by simp⟩
    exact List.isPrefixOf_iff_prefix.mpr (List.prefix_append path _)

/-- Where the path is no key, the selected part is built. -/
theorem getNestedJson_of_not_mem {hash : Enumeration} {order : List (Text × Text)}
    (hpath : path ≠ []) (hnone : ∀ entry ∈ order, entry.1 ≠ path) :
    getNestedJson J hash order path =
      (unflattenMap J (hash.enumerate (cutAfter path order))).mapError .unflatten := by
  rw [getNestedJson, if_neg (by simpa using hpath), filteredFrom_ok hnone]
  rfl

/-- Where the path is a key, `getNestedJson` throws. -/
theorem getNestedJson_of_mem {hash : Enumeration} {order : List (Text × Text)} {value : Text}
    (hpath : path ≠ []) (hmem : (path, value) ∈ order) :
    getNestedJson J hash order path = .error .outOfRange := by
  rw [getNestedJson, if_neg (by simpa using hpath), filteredFrom_error hmem]
  rfl

/-! ## The document that is returned -/

/-- A key that begins with a path and one more character is below the path when that is a dot. -/
theorem below_append_cons {c : Char} {rest : Text} : Below path (path ++ c :: rest) ↔ c = '.' := by
  rw [Below, List.prefix_append_right_inj, List.cons_prefix_cons, eq_comm]
  simp

/-- An entry that the enumeration of the filled map has was selected. -/
theorem of_mem_enumerate {hash : Enumeration} {order : List (Text × Text)} {subKey value : Text}
    (horder : order.Perm config.toList) (hnone : ∀ entry ∈ order, entry.1 ≠ path)
    (hmem : (subKey, value) ∈ hash.enumerate (cutAfter path order)) :
    ∃ c, config[path ++ c :: subKey]? = some value := by
  rw [(hash.perm _).mem_iff, mem_toList_iff] at hmem
  rcases of_getElem?_insertAll hmem with hcut | hempty
  · obtain ⟨c, hc⟩ := (mem_cutAfter hnone).mp hcut
    exact ⟨c, mem_toList_iff.mp (horder.mem_iff.mp hc)⟩
  · simp at hempty

/-- A key below the path is in the filled map, maybe with the value of another key. -/
theorem mem_enumerate_of_below {hash : Enumeration} {order : List (Text × Text)}
    {subKey value : Text} (horder : order.Perm config.toList)
    (hnone : ∀ entry ∈ order, entry.1 ≠ path)
    (hmem : (subKey, value) ∈ filteredBelow path config.toList) :
    ∃ value', (subKey, value') ∈ hash.enumerate (cutAfter path order) := by
  have hcut : (subKey, value) ∈ cutAfter path order :=
    (mem_cutAfter hnone).mpr ⟨'.', horder.mem_iff.mpr (mem_toList_iff.mpr (mem_below.mp hmem))⟩
  have hsome := getElem?_insertAll_isSome ∅
    (Or.inl (List.mem_map_of_mem (f := Prod.fst) hcut))
  obtain ⟨value', hvalue'⟩ := Option.ne_none_iff_exists'.mp hsome
  exact ⟨value', (hash.perm _).mem_iff.mpr (mem_toList_iff.mpr hvalue')⟩

section Repeats

variable (hrepeat : OthersRepeat J config path)
include hrepeat

/-- The path is no key. -/
theorem OthersRepeat.not_key {order : List (Text × Text)} (horder : order.Perm config.toList) :
    ∀ entry ∈ order, entry.1 ≠ path := by
  rintro ⟨key, value⟩ hmem rfl
  have hkey := mem_toList_iff.mp (horder.mem_iff.mp hmem)
  have hout : ¬ Below key key := by
    intro hbelow
    have hlen : (key ++ ['.']).length ≤ key.length := hbelow.length_le
    rw [List.length_append, List.length_singleton] at hlen
    omega
  obtain ⟨c, rest, _, heq, _⟩ := hrepeat key value hkey (List.prefix_refl key) hout
  exact absurd (List.self_eq_append_right.mp heq) (by simp)

/-- Every value in the filled map stands in the document of the entries below the path. -/
theorem OthersRepeat.getAt_enumerate (h : Dotted config) {hash : Enumeration}
    {order : List (Text × Text)} (horder : order.Perm config.toList) {j : Json ν}
    (hbuilt : unflattenMap J (filteredBelow path config.toList) = .ok j)
    (hgrown : Grown Leaf.isNull ((filteredBelow path config.toList).map (pathEntry J)) j)
    {subKey value : Text} (hmem : (subKey, value) ∈ hash.enumerate (cutAfter path order)) :
    subKey ≠ [] ∧ j.1.getAt (getlines '.' subKey) = some (valueJson J value).1 := by
  obtain ⟨c, hc⟩ := of_mem_enumerate horder (hrepeat.not_key horder) hmem
  by_cases hdot : c = '.'
  · subst hdot
    have hbelow := mem_below.mpr hc
    exact ⟨h.subKey_ne_nil hbelow,
      hgrown.at_entry _ (List.mem_map_of_mem (f := pathEntry J) hbelow)⟩
  · obtain ⟨c', rest, j', hkey, hrest, hbuilt', hat⟩ := hrepeat _ value hc
      (List.prefix_append path _) (fun hbelow => hdot (below_append_cons.mp hbelow))
    obtain ⟨_, rfl⟩ := List.cons.inj (List.append_cancel_left hkey)
    rw [hbuilt] at hbuilt'
    cases hbuilt'
    exact ⟨hrest, hat⟩

/-- What the others put into the document is there already. -/
theorem OthersRepeat.readsSubtree (h : Dotted config) (hpath : path ≠ []) :
    ReadsSubtree J config path := by
  intro hash order horder
  obtain ⟨j, hbuilt, hgrown⟩ := h.built J path
  have hnone := hrepeat.not_key horder
  have hat : ∀ subKey value : Text, (subKey, value) ∈ hash.enumerate (cutAfter path order) →
      subKey ≠ [] ∧ j.1.getAt (getlines '.' subKey) = some (valueJson J value).1 :=
    fun _ _ => hrepeat.getAt_enumerate h horder (hbuilt _ (List.Perm.refl _)) hgrown
  refine ⟨j, ?_, hbuilt⟩
  rw [getNestedJson_of_not_mem hpath hnone]
  have hthere : ∀ subKey value : Text, (subKey, value) ∈ filteredBelow path config.toList →
      ∃ value', (subKey, value') ∈ hash.enumerate (cutAfter path order) :=
    fun _ _ => mem_enumerate_of_below horder hnone
  generalize hash.enumerate (cutAfter path order) = filled at hat hthere ⊢
  have hcons : Consistent (filled.map (pathEntry J)) := by
    intro e he e' he' rest hrest
    obtain ⟨⟨subKey, value⟩, hmem, rfl⟩ := List.mem_map.mp he
    obtain ⟨⟨subKey', value'⟩, hmem', rfl⟩ := List.mem_map.mp he'
    replace hrest : getlines '.' subKey' = getlines '.' subKey ++ rest := hrest
    have hplace := (hat subKey' value' hmem').2
    rw [hrest, Tree.getAt_append, (hat subKey value hmem).2] at hplace
    exact hplace
  obtain ⟨u, hassign, hgrown'⟩ := assignAll_consistent Leaf.isNull Leaf.null hcons rfl
  have hsame : u = j := by
    by_cases hnil : filled = []
    · have hnobelow : filteredBelow path config.toList = [] := by
        refine List.eq_nil_iff_forall_not_mem.mpr fun entry hmem => ?_
        obtain ⟨value', hmem'⟩ := hthere _ _ hmem
        rw [hnil] at hmem'
        cases hmem'
      have hbare := hbuilt _ (List.Perm.refl _)
      rw [hnobelow] at hbare
      subst hnil
      cases hassign
      cases hbare
      rfl
    · refine hgrown'.unique (by simpa using hnil) ⟨?_, ?_, fun h => absurd h (by simpa using hnil)⟩
      · intro e he
        obtain ⟨⟨subKey, value⟩, hmem, rfl⟩ := List.mem_map.mp he
        exact (hat subKey value hmem).2
      · intro p hp hpne
        obtain ⟨e, he, hrelated⟩ := hgrown.covered p hp hpne
        obtain ⟨⟨subKey, value⟩, hmem, rfl⟩ := List.mem_map.mp he
        obtain ⟨value', hmem'⟩ := hthere _ _ hmem
        exact ⟨_, List.mem_map_of_mem (f := pathEntry J) hmem', hrelated⟩
  subst hsame
  rw [unflattenMap_eq_ok.mpr ⟨fun entry hmem => (hat entry.1 entry.2 hmem).1, hassign⟩]
  rfl

end Repeats

/-- An enumeration that puts an entry at the end. -/
def lastEnumeration (entry : Text × Text) : Enumeration where
  enumerate insertions :=
    if entry ∈ (insertAll insertions ∅).toList then
      (insertAll insertions ∅).toList.erase entry ++ [entry]
    else (insertAll insertions ∅).toList
  perm insertions := by
    split
    · next hmem =>
        exact (List.perm_append_singleton _ _).trans (List.perm_cons_erase hmem).symm
    · exact List.Perm.refl _

theorem lastEnumeration_concat (entry : Text × Text) (insertions : List (Text × Text)) :
    ∃ others, (lastEnumeration entry).enumerate (insertions ++ [entry]) = others ++ [entry] := by
  have hmem : entry ∈ (insertAll (insertions ++ [entry]) ∅).toList := by
    rw [mem_toList_iff, insertAll_concat, getElem?_insert, if_pos rfl]
  exact ⟨_, if_pos hmem⟩

/-- Cutting a key that is enumerated last. -/
theorem cutAfter_concat (path : Text) (before : List (Text × Text)) (c : Char) (rest value : Text) :
    cutAfter path (before ++ [(path ++ c :: rest, value)]) =
      cutAfter path before ++ [(rest, value)] := by
  have hstarts : path.isPrefixOf (path ++ c :: rest) = true :=
    List.isPrefixOf_iff_prefix.mpr (List.prefix_append path _)
  simp [cutAfter, List.filter_append, hstarts]

/-- Whatever else begins with the text of the path repeats what is there. -/
theorem ReadsSubtree.othersRepeat (hpath : path ≠ []) (hreads : ReadsSubtree J config path) :
    OthersRepeat J config path := by
  intro key value hkey hstarts hout
  obtain ⟨more, rfl⟩ := hstarts
  -- the key is enumerated last, and so is what is left of it
  obtain ⟨before, horder⟩ := exists_order_last hkey
  have hlast : (path ++ more, value) ∈ before ++ [(path ++ more, value)] := by simp
  cases more with
  | nil =>
      rw [List.append_nil] at hlast horder
      obtain ⟨j, hj, _⟩ := hreads sortedEnumeration _ horder
      rw [getNestedJson_of_mem hpath hlast] at hj
      cases hj
  | cons c rest =>
      obtain ⟨j, hj, hbuilt⟩ := hreads (lastEnumeration (rest, value)) _ horder
      have hnone : ∀ entry ∈ before ++ [(path ++ c :: rest, value)], entry.1 ≠ path := by
        rintro ⟨key', value'⟩ hmem rfl
        rw [getNestedJson_of_mem hpath hmem] at hj
        cases hj
      obtain ⟨others, hfilled⟩ := lastEnumeration_concat (rest, value) (cutAfter path before)
      rw [getNestedJson_of_not_mem hpath hnone, cutAfter_concat, hfilled] at hj
      cases hresult : unflattenMap J (others ++ [(rest, value)]) with
      | error e =>
          rw [hresult] at hj
          cases hj
      | ok result =>
          rw [hresult] at hj
          cases hj
          exact ⟨c, rest, j, rfl, (unflattenMap_eq_ok.mp hresult).1 (rest, value) (by simp),
            hbuilt _ (List.Perm.refl _), getAt_of_last hresult⟩

/-- In a map of dotted keys `getNestedJson` reads the subtree of a path that is not empty, and
nothing else, exactly when what else begins with the text of the path repeats what is in the
subtree. -/
theorem getNestedJson_reads_subtree_iff (J : JsonText ν) (config : TextMap) (h : Dotted config)
    (path : Text) (hpath : path ≠ []) : ReadsSubtree J config path ↔ OthersRepeat J config path :=
  ⟨fun hreads => hreads.othersRepeat hpath, fun hrepeat => hrepeat.readsSubtree h hpath⟩

/-- A map with two keys that share their beginning. -/
def siblingConfig : TextMap := insertAll [("db.host", "localhost"), ("dbx.port", "6432")] ∅

theorem siblingConfig_keys {key : Text} (hkey : siblingConfig[key]? ≠ none) :
    key = "db.host" ∨ key = "dbx.port" := by
  obtain ⟨value, hvalue⟩ := Option.ne_none_iff_exists'.mp hkey
  rcases of_getElem?_insertAll hvalue with hmem | hempty
  · simp only [List.mem_cons, Prod.mk.injEq, List.not_mem_nil, or_false] at hmem
    exact hmem.imp And.left And.left
  · simp at hempty

theorem siblingConfig_dotted : Dotted siblingConfig where
  segment_ne_nil key hkey := by
    rcases siblingConfig_keys hkey with rfl | rfl <;> decide
  prefix_free key key' hkey hkey' := by
    rcases siblingConfig_keys hkey with rfl | rfl <;>
      rcases siblingConfig_keys hkey' with rfl | rfl <;> decide

theorem getNestedJson_reads_dbx : ReadsSubtree PlainJson.jsonText siblingConfig "dbx" := by
  refine (getNestedJson_reads_subtree_iff PlainJson.jsonText siblingConfig siblingConfig_dotted
    "dbx" (by decide)).mpr ?_
  intro key value hkey hstarts hout
  rcases siblingConfig_keys (by rw [hkey]; simp) with rfl | rfl
  · exact absurd hstarts (by decide)
  · exact absurd (by decide) hout

/-- The port of the sibling is read as a member without a name. -/
theorem getNestedJson_leaves_subtree :
    Dotted siblingConfig ∧ ¬ ReadsSubtree PlainJson.jsonText siblingConfig "db" := by
  refine ⟨siblingConfig_dotted, fun hreads => ?_⟩
  have hport : siblingConfig[("dbx.port" : Text)]? = some ("6432" : Text) := by decide +kernel
  obtain ⟨_, rest, j, hkey, _, hbuilt, hat⟩ :=
    hreads.othersRepeat (by decide) "dbx.port" "6432" hport (by decide) (by decide)
  obtain ⟨_, rfl⟩ : 'x' = _ ∧ (".port" : Text) = rest :=
    List.cons.inj (@List.append_cancel_left _ "db" _ _ hkey)
  have hbelow : filteredBelow "db" siblingConfig.toList =
      ([("host", "localhost")] : List (Text × Text)) := by decide +kernel
  rw [hbelow] at hbuilt
  cases hbuilt
  cases hat

end ConfigManager

end Brazier
