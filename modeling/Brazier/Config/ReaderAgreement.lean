import Brazier.Config.Getters
import Brazier.Config.HashOrder
import Mathlib.Data.List.Nodup

/-!
# Two readers of a path

`getNested` of a `json` and `getJson` look up the same path. They agree below a key, and where
nothing is stored. They differ at a key whose text is not JSON: `getNested` logs the error of the
parser and returns the default value, `getJson` returns the text as a string. A key that is the path
with a dot behind it leaves both without a part to store its value under.
-/

namespace Brazier

open ProofLib

/-- A map has every key once. -/
theorem nodup_keys_toList (map : TextMap) : (map.toList.map Prod.fst).Nodup := by
  refine List.pairwise_map.mpr (Std.ExtTreeMap.distinct_keys_toList.imp fun hne heq => hne ?_)
  rw [heq]
  exact Std.ReflCmp.compare_self

theorem nodup_keys_of_perm {config : TextMap} {order : List (Text × Text)}
    (horder : order.Perm config.toList) : (order.map Prod.fst).Nodup :=
  (horder.map Prod.fst).nodup_iff.mpr (nodup_keys_toList config)

/-- Pairs with different keys are the entries of the map they fill. -/
theorem toList_insertAll_perm {pairs : List (Text × Text)} (hnodup : (pairs.map Prod.fst).Nodup) :
    (insertAll pairs ∅).toList.Perm pairs := by
  refine (List.perm_ext_iff_of_nodup (List.Nodup.of_map Prod.fst (nodup_keys_toList _))
    (List.Nodup.of_map Prod.fst hnodup)).mpr ?_
  intro ⟨key, value⟩
  rw [mem_toList_iff]
  constructor
  · intro hfound
    rcases of_getElem?_insertAll hfound with hmem | hempty
    · exact hmem
    · simp at hempty
  · intro hmem
    refine getElem?_insertAll hmem fun v hv => ?_
    exact (Prod.ext_iff.mp (List.inj_on_of_nodup_map hnodup hv hmem rfl)).2

/-- A map that was filled with different keys is enumerated as these entries. -/
theorem Enumeration.enumerate_perm (hash : Enumeration) {pairs : List (Text × Text)}
    (hnodup : (pairs.map Prod.fst).Nodup) : (hash.enumerate pairs).Perm pairs :=
  (hash.perm pairs).trans (toList_insertAll_perm hnodup)

namespace ConfigManager

variable {ν : Type} {J : JsonText ν} {hash : Enumeration} {order : List (Text × Text)}
  {path : Text}

/-! ## The loop of `getJson` -/

/-- The key is enumerated: its value is returned. -/
theorem getJsonFrom_of_mem {value : Text} {filtered : List (Text × Text)}
    (hnodup : (order.map Prod.fst).Nodup) (hmem : (path, value) ∈ order) :
    getJsonFrom J hash path filtered order = .ok (valueJson J value) := by
  induction order generalizing filtered with
  | nil => cases hmem
  | cons entry rest ih =>
      obtain ⟨configKey, v⟩ := entry
      rw [List.map_cons, List.nodup_cons] at hnodup
      rw [List.mem_cons] at hmem
      rw [getJsonFrom]
      rcases hmem with heq | hrest
      · cases heq
        rw [if_pos rfl]
      · have hne : configKey ≠ path := by
          rintro rfl
          exact hnodup.1 (List.mem_map.mpr ⟨_, hrest, rfl⟩)
        rw [if_neg hne]
        split <;> exact ih hnodup.2 hrest

/-- The key is not enumerated: what is below it is collected. -/
theorem getJsonFrom_of_not_mem {filtered : List (Text × Text)}
    (hnone : ∀ entry ∈ order, entry.1 ≠ path) :
    getJsonFrom J hash path filtered order =
      if (filtered ++ filteredBelow path order).isEmpty then .ok emptyObject
      else unflattenMap J (hash.enumerate (filtered ++ filteredBelow path order)) := by
  induction order generalizing filtered with
  | nil =>
      rw [getJsonFrom]
      simp [filteredBelow]
  | cons entry rest ih =>
      obtain ⟨configKey, v⟩ := entry
      rw [List.forall_mem_cons] at hnone
      rw [getJsonFrom, if_neg hnone.1]
      split
      · next hbelow =>
          have hcons : filteredBelow path ((configKey, v) :: rest) =
              (configKey.drop (path.length + 1), v) :: filteredBelow path rest := by
            rw [filteredBelow, List.filter_cons, if_pos hbelow]
            rfl
          rw [ih hnone.2, hcons, List.append_assoc]
          rfl
      · next hbelow =>
          have hcons : filteredBelow path ((configKey, v) :: rest) = filteredBelow path rest := by
            rw [filteredBelow, List.filter_cons, if_neg hbelow]
            rfl
          rw [ih hnone.2, hcons]

/-! ## The part of the map below a path -/

/-- Cutting the path off keeps different keys different. -/
theorem nodup_filteredBelow (hnodup : (order.map Prod.fst).Nodup) :
    ((filteredBelow path order).map Prod.fst).Nodup := by
  have hpairs : ∀ pairs : List (Text × Text), (filteredBelow path pairs).map Prod.fst =
      ((pairs.map Prod.fst).filter (fun key => (path ++ ['.']).isPrefixOf key)).map
        (fun key => key.drop (path.length + 1)) := by
    intro pairs
    simp [filteredBelow, List.filter_map, Function.comp_def]
  rw [hpairs]
  refine List.Nodup.map_on ?_ (hnodup.filter _)
  intro key hkey key' hkey' hcut
  obtain ⟨rest, rfl⟩ := List.isPrefixOf_iff_prefix.mp (List.mem_filter.mp hkey).2
  obtain ⟨rest', rfl⟩ := List.isPrefixOf_iff_prefix.mp (List.mem_filter.mp hkey').2
  have hlen : path.length + 1 = (path ++ ['.']).length := by simp
  rw [hlen, List.drop_left, List.drop_left] at hcut
  rw [hcut]

/-- The entry of a key below the path. -/
def belowPath (path : Text) (entry : Text × Text) : Text × Text := (path ++ '.' :: entry.1, entry.2)

/-- With the path in front again, what was selected is a part of the map. -/
theorem filteredBelow_restored (path : Text) (order : List (Text × Text)) :
    (filteredBelow path order).map (belowPath path) =
      order.filter (fun entry => (path ++ ['.']).isPrefixOf entry.1) := by
  rw [filteredBelow, List.map_map]
  refine (List.map_congr_left fun entry hentry => ?_).trans (List.map_id _)
  obtain ⟨key, value⟩ := entry
  obtain ⟨rest, rfl⟩ := List.isPrefixOf_iff_prefix.mp (List.mem_filter.mp hentry).2
  have hlen : path.length + 1 = (path ++ ['.']).length := by simp
  show (path ++ '.' :: (path ++ ['.'] ++ rest).drop (path.length + 1), value) = _
  rw [hlen, List.drop_left]
  simp

/-- Below the path an entry is assigned below the parts of the path. -/
theorem pathEntry_belowPath (entry : Text × Text) :
    pathEntry J (belowPath path entry) =
      (getlines '.' (path ++ ['.']) ++ (pathEntry J entry).1, (pathEntry J entry).2) := by
  rw [pathEntry, belowPath, getlines_append_dot]
  rfl

/-- Where `unflattenMap` builds the map in every order, it builds the part below a path, unless a
key is the path with a dot behind it. -/
theorem unflattenMap_below {config : TextMap}
    (hbuilds : ∀ order, order.Perm config.toList → ∃ j, unflattenMap J order = .ok j)
    (horder : order.Perm config.toList) (hdot : config[path ++ ['.']]? = none) :
    ∃ j, unflattenMap J (hash.enumerate (filteredBelow path order)) = .ok j := by
  have hnodup := nodup_keys_of_perm horder
  have hperm : (hash.enumerate (filteredBelow path order)).Perm (filteredBelow path order) :=
    hash.enumerate_perm (nodup_filteredBelow hnodup)
  have hkeys : ∀ entry ∈ hash.enumerate (filteredBelow path order), entry.1 ≠ [] := by
    rintro ⟨subKey, value⟩ hmem rfl
    rw [hperm.mem_iff, mem_filteredBelow, horder.mem_iff, mem_toList_iff, hdot] at hmem
    cases hmem
  -- the order that begins with the part below the path
  have hwhole : ((hash.enumerate (filteredBelow path order)).map (belowPath path) ++
      order.filter (fun entry => !(path ++ ['.']).isPrefixOf entry.1)).Perm config.toList := by
    refine List.Perm.trans ?_ horder
    refine ((hperm.map (belowPath path)).append_right _).trans ?_
    rw [filteredBelow_restored]
    exact List.filter_append_perm _ order
  obtain ⟨j, hj⟩ := hbuilds _ hwhole
  obtain ⟨_, hassign⟩ := unflattenMap_eq_ok.mp hj
  have hentries : ((hash.enumerate (filteredBelow path order)).map (belowPath path)).map
      (pathEntry J) = ((hash.enumerate (filteredBelow path order)).map (pathEntry J)).map
        (fun e => (getlines '.' (path ++ ['.']) ++ e.1, e.2)) := by
    rw [List.map_map, List.map_map]
    exact List.map_congr_left fun entry _ => pathEntry_belowPath entry
  rw [List.map_append, hentries] at hassign
  obtain ⟨s, hs⟩ := assignAll_of_below (getlines_ne_nil '.' (by simp)) rfl
    (by
      intro e he
      obtain ⟨entry, hentry, rfl⟩ := List.mem_map.mp he
      exact getlines_ne_nil '.' (hkeys entry hentry)) hassign
  exact ⟨s, unflattenMap_eq_ok.mpr ⟨hkeys, hs⟩⟩

/-- `getJson` of a key. -/
theorem getJson_of_key {config : TextMap} (horder : order.Perm config.toList) {value : Text}
    (hpath : config[path]? = some value) :
    getJson J hash order path = .ok (valueJson J value) :=
  getJsonFrom_of_mem (nodup_keys_of_perm horder) (horder.mem_iff.mpr (mem_toList_iff.mpr hpath))

/-- The two readers return the same value, `getNested` with the empty object as the default. -/
def ReadersAgree (J : JsonText ν) (hash : Enumeration) (cm : ConfigManager)
    (order : List (Text × Text)) (path : Text) : Prop :=
  ∃ j, getNested J .json hash order cm path emptyObject = .ok j ∧ getJson J hash order path = .ok j

section Readers

variable {cm : ConfigManager} (horder : order.Perm cm.config.toList)

include horder

/-- At a key the readers agree where its text is a JSON text: else `getNested` returns the default
value, an object, and `getJson` a string. -/
theorem readers_agree_at_key {value : Text} (hpath : cm.config[path]? = some value) :
    ReadersAgree J hash cm order path ↔ J.parse value ≠ none := by
  rw [ReadersAgree, getNested, hpath, getJson_of_key horder hpath, valueJson]
  dsimp only [Kind.json, Kind.fromString, Conversion.json]
  cases hparse : J.parse value with
  | some j => simp
  | none => simp [emptyObject, Json.ofString, Ordered.leaf, Subtype.ext_iff]

/-- Elsewhere they agree where `unflattenMap` builds what is below the path: else `getNested`
returns the default value, and `getJson` does not return. -/
theorem readers_agree_below (hpath : cm.config[path]? = none) :
    ReadersAgree J hash cm order path ↔
      ∃ j, unflattenMap J (hash.enumerate (filteredBelow path order)) = .ok j := by
  have hnone : ∀ entry ∈ order, entry.1 ≠ path := by
    rintro ⟨key, value⟩ hmem rfl
    rw [horder.mem_iff, mem_toList_iff, hpath] at hmem
    cases hmem
  rw [ReadersAgree, getNested, hpath, getJson, getJsonFrom_of_not_mem hnone, List.nil_append]
  dsimp only
  split
  · next hempty =>
      rw [List.isEmpty_iff] at hempty
      have hperm : (hash.enumerate (filteredBelow path order)).Perm (filteredBelow path order) :=
        hash.enumerate_perm (nodup_filteredBelow (nodup_keys_of_perm horder))
      rw [hempty] at hperm ⊢
      rw [hperm.eq_nil]
      exact ⟨fun _ => ⟨_, rfl⟩, fun _ => ⟨emptyObject, rfl, rfl⟩⟩
  · cases unflattenMap J (hash.enumerate (filteredBelow path order)) with
    | ok built => exact ⟨fun _ => ⟨built, rfl⟩, fun _ => ⟨built, rfl, rfl⟩⟩
    | error e => exact ⟨fun ⟨j, _, hj⟩ => ⟨j, hj⟩, fun ⟨j, hj⟩ => nomatch hj⟩

/-- Where `unflattenMap` builds the map in every order, it builds what is below a path exactly when
no key is the path with a dot behind it. -/
theorem builds_below_iff
    (hbuilds : ∀ order, order.Perm cm.config.toList → ∃ j, unflattenMap J order = .ok j) :
    (∃ j, unflattenMap J (hash.enumerate (filteredBelow path order)) = .ok j) ↔
      cm.config[path ++ ['.']]? = none := by
  constructor
  · intro ⟨j, hj⟩
    by_contra hdot
    obtain ⟨value, hvalue⟩ := Option.ne_none_iff_exists'.mp hdot
    have hmem : ([], value) ∈ filteredBelow path order :=
      mem_filteredBelow.mpr (horder.mem_iff.mpr (mem_toList_iff.mpr hvalue))
    have hperm : (hash.enumerate (filteredBelow path order)).Perm (filteredBelow path order) :=
      hash.enumerate_perm (nodup_filteredBelow (nodup_keys_of_perm horder))
    exact (unflattenMap_eq_ok.mp hj).1 _ (hperm.mem_iff.mpr hmem) rfl
  · exact unflattenMap_below hbuilds horder

end Readers

/-- On a map that `unflattenMap` builds in every order the two readers agree exactly when the path
is a key with a JSON text, or neither the path nor the path with a dot behind it is a key. On any
map the latter becomes that `unflattenMap` builds the part below the path. -/
theorem readers_agree_iff (J : JsonText ν) (hash : Enumeration) (cm : ConfigManager)
    (order : List (Text × Text)) (horder : order.Perm cm.config.toList) (path : Text) :
    ((∀ order, order.Perm cm.config.toList → ∃ j, unflattenMap J order = .ok j) →
      (ReadersAgree J hash cm order path ↔
        (∀ value, cm.config[path]? = some value → J.parse value ≠ none) ∧
          (cm.config[path]? = none → cm.config[path ++ ['.']]? = none))) ∧
    (ReadersAgree J hash cm order path ↔
      (∀ value, cm.config[path]? = some value → J.parse value ≠ none) ∧
        (cm.config[path]? = none →
          ∃ j, unflattenMap J (hash.enumerate (filteredBelow path order)) = .ok j)) := by
  have hany : ReadersAgree J hash cm order path ↔
      (∀ value, cm.config[path]? = some value → J.parse value ≠ none) ∧
        (cm.config[path]? = none →
          ∃ j, unflattenMap J (hash.enumerate (filteredBelow path order)) = .ok j) := by
    cases hpath : cm.config[path]? with
    | some value =>
        rw [readers_agree_at_key horder hpath]
        simp
    | none =>
        rw [readers_agree_below horder hpath]
        simp
  refine ⟨fun hbuilds => ?_, hany⟩
  rw [hany, builds_below_iff horder hbuilds]

/-- The enumeration by the order of the keys. -/
def sortedEnumeration : Enumeration where
  enumerate insertions := (insertAll insertions ∅).toList
  perm _ := List.Perm.refl _

/-- A manager with one entry. -/
def oneEntry (key value : Text) : ConfigManager := ⟨insertAll [(key, value)] ∅, none⟩

theorem toList_oneEntry (key value : Text) :
    (oneEntry key value).config.toList.Perm [(key, value)] :=
  toList_insertAll_perm (by simp)

/-- One entry is built. -/
theorem unflattenMap_oneEntry {key value : Text} (hkey : key ≠ []) :
    ∀ order, order.Perm (oneEntry key value).config.toList →
      ∃ j, unflattenMap J order = .ok j := by
  intro order horder
  have hone : order = [(key, value)] :=
    List.perm_singleton.mp (horder.trans (toList_oneEntry key value))
  have hconsistent : Consistent [pathEntry J (key, value)] := by
    intro e he e' he' rest hrest
    rw [List.mem_singleton] at he he'
    subst he
    subst he'
    obtain rfl : rest = [] := List.self_eq_append_right.mp hrest
    exact Tree.getAt_nil _
  obtain ⟨u, hassign, _⟩ := assignAll_consistent Leaf.isNull Leaf.null hconsistent rfl
  refine ⟨u, unflattenMap_eq_ok.mpr ⟨?_, ?_⟩⟩
  · rw [hone]
    simpa using hkey
  · rw [hone]
    exact hassign

theorem readers_agree_debug :
    ReadersAgree PlainJson.jsonText sortedEnumeration (oneEntry "debug" "true")
      [("debug", "true")] "debug" :=
  ((readers_agree_iff PlainJson.jsonText sortedEnumeration (oneEntry "debug" "true")
    [("debug", "true")] (toList_oneEntry _ _).symm "debug").1
      (unflattenMap_oneEntry (by decide))).mpr ⟨by decide +kernel, fun _ => by decide +kernel⟩

/-- A text that is no JSON text is read back by one of the two only. -/
theorem readers_differ_on_text :
    (∀ order, order.Perm (oneEntry "motto" "carpe diem").config.toList →
      ∃ j, unflattenMap PlainJson.jsonText order = .ok j) ∧
    ¬ ReadersAgree PlainJson.jsonText sortedEnumeration (oneEntry "motto" "carpe diem")
      [("motto", "carpe diem")] "motto" := by
  refine ⟨unflattenMap_oneEntry (by decide), ?_⟩
  rintro ⟨j, hnested, hjson⟩
  have hdefault : getNested PlainJson.jsonText .json sortedEnumeration [("motto", "carpe diem")]
      (oneEntry "motto" "carpe diem") "motto" emptyObject = .ok emptyObject := rfl
  have htext : getJson PlainJson.jsonText sortedEnumeration [("motto", "carpe diem")] "motto" =
      .ok (Json.ofString "carpe diem") := rfl
  rw [hdefault] at hnested
  rw [htext, ← hnested] at hjson
  cases hjson

end ConfigManager

end Brazier
