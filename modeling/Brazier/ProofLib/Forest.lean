import Mathlib.Order.Lattice
import Mathlib.Data.List.Basic

/-!
# Trees of ordered members

A tree is a leaf with a value, or a node with members: keys with a tree each. The members of a node
are a `Forest`, and in a `Sorted` one the keys ascend, at every level. `getAt` follows a path of
keys. `Ordered` is the type of the sorted trees. Two of them are equal when every path finds a leaf
with the same value in both, or a node in both, or nothing in both.
-/

namespace ProofLib

/-- The members of a node. -/
inductive Forest (κ ν : Type*) where
  | nil
  | leaf (key : κ) (value : ν) (rest : Forest κ ν)
  | node (key : κ) (sub rest : Forest κ ν)
  deriving DecidableEq

/-- A leaf or a node. -/
inductive Tree (κ ν : Type*) where
  | leaf (value : ν)
  | node (members : Forest κ ν)
  deriving DecidableEq

variable {κ ν : Type*}

namespace Forest

/-- A member in front of the others. -/
def cons (key : κ) : Tree κ ν → Forest κ ν → Forest κ ν
  | .leaf value, rest => .leaf key value rest
  | .node sub, rest => .node key sub rest

/-- Induction over members: the members of the first member come before the ones behind it. -/
@[elab_as_elim]
theorem inductionOn {motive : Forest κ ν → Prop} (f : Forest κ ν) (nil : motive .nil)
    (cons : ∀ key t rest, (∀ sub, t = .node sub → motive sub) → motive rest →
      motive (Forest.cons key t rest)) : motive f := by
  induction f with
  | nil => exact nil
  | leaf key value rest ih =>
      exact cons key (.leaf value) rest (fun sub h => by cases h) ih
  | node key sub rest ihsub ih =>
      exact cons key (.node sub) rest (fun s h => by cases h; exact ihsub) ih

/-- Members are none, or a first one and the rest. -/
theorem eq_nil_or_cons (f : Forest κ ν) : f = .nil ∨ ∃ key t rest, f = cons key t rest := by
  cases f with
  | nil => exact Or.inl rfl
  | leaf key value rest => exact Or.inr ⟨key, .leaf value, rest, rfl⟩
  | node key sub rest => exact Or.inr ⟨key, .node sub, rest, rfl⟩

/-- The keys in order. -/
def keys : Forest κ ν → List κ
  | .nil => []
  | .leaf key _ rest => key :: keys rest
  | .node key _ rest => key :: keys rest

@[simp] theorem keys_nil : (nil : Forest κ ν).keys = [] := rfl

@[simp] theorem keys_cons (key : κ) (t : Tree κ ν) (rest : Forest κ ν) :
    (cons key t rest).keys = key :: rest.keys := by
  cases t <;> rfl

@[simp] theorem cons_ne_nil (key : κ) (t : Tree κ ν) (rest : Forest κ ν) :
    cons key t rest ≠ nil := by
  cases t <;> simp [cons]

variable [LinearOrder κ]

/-- The member of a key. -/
def get : Forest κ ν → κ → Option (Tree κ ν)
  | .nil, _ => none
  | .leaf key value rest, k => if k = key then some (.leaf value) else get rest k
  | .node key sub rest, k => if k = key then some (.node sub) else get rest k

@[simp] theorem get_nil (k : κ) : (nil : Forest κ ν).get k = none := rfl

@[simp] theorem get_cons (key : κ) (t : Tree κ ν) (rest : Forest κ ν) (k : κ) :
    (cons key t rest).get k = if k = key then some t else rest.get k := by
  cases t <;> rfl

/-- Enter a member at its place, or replace the one that has the key. -/
def set (k : κ) (t : Tree κ ν) : Forest κ ν → Forest κ ν
  | .nil => cons k t .nil
  | .leaf key value rest =>
      if k < key then cons k t (.leaf key value rest)
      else if k = key then cons k t rest
      else .leaf key value (set k t rest)
  | .node key sub rest =>
      if k < key then cons k t (.node key sub rest)
      else if k = key then cons k t rest
      else .node key sub (set k t rest)

@[simp] theorem set_nil (k : κ) (t : Tree κ ν) : set k t nil = cons k t nil := rfl

theorem set_cons (k : κ) (t : Tree κ ν) (key : κ) (u : Tree κ ν) (rest : Forest κ ν) :
    set k t (cons key u rest) =
      if k < key then cons k t (cons key u rest)
      else if k = key then cons k t rest
      else cons key u (set k t rest) := by
  cases u <;> rfl

/-- A key is found exactly when it is one of the keys. -/
theorem mem_keys_iff {f : Forest κ ν} {k : κ} : k ∈ f.keys ↔ f.get k ≠ none := by
  induction f using inductionOn with
  | nil => simp
  | cons key t rest _ ih =>
      rw [keys_cons, get_cons, List.mem_cons]
      split
      · next heq => simp [heq]
      · next hne => simp [hne, ih]

/-- What is found after an entry. -/
theorem get_set (f : Forest κ ν) (k : κ) (t : Tree κ ν) (k' : κ) :
    (f.set k t).get k' = if k' = k then some t else f.get k' := by
  induction f using inductionOn with
  | nil => simp
  | cons key u rest _ ih =>
      rw [set_cons]
      split
      · rw [get_cons]
      · split
        · next heq =>
            subst heq
            rw [get_cons, get_cons]
            split <;> rfl
        · next hne =>
            rw [get_cons, get_cons, ih]
            split
            · next hkey => rw [if_neg (fun h => hne (h.symm.trans hkey))]
            · rfl

/-- An entry in front of all the keys there are. -/
theorem set_eq_cons {f : Forest κ ν} {k : κ} (habove : ∀ k' ∈ f.keys, k < k') (t : Tree κ ν) :
    f.set k t = cons k t f := by
  obtain rfl | ⟨key, u, rest, rfl⟩ := f.eq_nil_or_cons
  · rfl
  · rw [set_cons, if_pos (habove key (by simp))]

end Forest

namespace Tree

/-- The value of a leaf; a node has none. -/
def value? : Tree κ ν → Option ν
  | .leaf value => some value
  | .node _ => none

variable [LinearOrder κ]

/-- The tree that a path leads to. -/
def getAt : Tree κ ν → List κ → Option (Tree κ ν)
  | t, [] => some t
  | .leaf _, _ :: _ => none
  | .node members, k :: path => (members.get k).bind (fun t => getAt t path)

@[simp] theorem getAt_nil (t : Tree κ ν) : t.getAt [] = some t := by
  cases t <;> rfl

@[simp] theorem getAt_leaf_cons (value : ν) (k : κ) (path : List κ) :
    (leaf value : Tree κ ν).getAt (k :: path) = none := rfl

@[simp] theorem getAt_node_cons (members : Forest κ ν) (k : κ) (path : List κ) :
    (node members).getAt (k :: path) = (members.get k).bind (fun t => t.getAt path) := rfl

/-- A concatenation leads where its second part leads from where its first part does. -/
theorem getAt_append (t : Tree κ ν) (p q : List κ) :
    t.getAt (p ++ q) = (t.getAt p).bind (fun u => u.getAt q) := by
  induction p generalizing t with
  | nil => simp
  | cons k p ih =>
      cases t with
      | leaf value => rfl
      | node members =>
          rw [List.cons_append, getAt_node_cons, getAt_node_cons, Option.bind_assoc]
          congr 1
          funext u
          exact ih u

/-- A path that begins with a key goes on in the member of that key. -/
theorem getAt_cons_of_getAt {t u : Tree κ ν} {k : κ} (h : t.getAt [k] = some u) (path : List κ) :
    t.getAt (k :: path) = u.getAt path := by
  have hsplit : t.getAt (k :: path) = (t.getAt [k]).bind fun u => u.getAt path :=
    getAt_append t [k] path
  rw [hsplit, h]
  rfl

/-- A path that leads to something begins with the key of a member. -/
theorem exists_getAt_of_cons {t v : Tree κ ν} {k : κ} {path : List κ}
    (h : t.getAt (k :: path) = some v) : ∃ u, t.getAt [k] = some u ∧ u.getAt path = some v :=
  Option.bind_eq_some_iff.mp ((getAt_append t [k] path).symm.trans h)

/-- No path leads through a leaf. -/
theorem getAt_through_leaf {t : Tree κ ν} {p : List κ} {value : ν}
    (hleaf : t.getAt p = some (leaf value)) {r : List κ} (hr : r ≠ []) :
    t.getAt (p ++ r) = none := by
  rw [getAt_append, hleaf]
  obtain ⟨k, r, rfl⟩ := List.exists_cons_of_ne_nil hr
  rfl

end Tree

/-! ## Sorted trees -/

section Sorted

variable [LinearOrder κ]

/-- At every level the keys ascend. -/
def Forest.Sorted : Forest κ ν → Prop
  | .nil => True
  | .leaf key _ rest => (∀ k ∈ rest.keys, key < k) ∧ rest.Sorted
  | .node key sub rest => (∀ k ∈ rest.keys, key < k) ∧ sub.Sorted ∧ rest.Sorted

/-- At every level the keys ascend. -/
def Tree.Sorted : Tree κ ν → Prop
  | .leaf _ => True
  | .node members => members.Sorted

@[simp] theorem Tree.sorted_leaf (value : ν) : (Tree.leaf value : Tree κ ν).Sorted := trivial

@[simp] theorem Tree.sorted_node (members : Forest κ ν) :
    (Tree.node members).Sorted ↔ members.Sorted := Iff.rfl

namespace Forest

@[simp] theorem sorted_nil : (nil : Forest κ ν).Sorted := trivial

theorem sorted_cons {key : κ} {t : Tree κ ν} {rest : Forest κ ν} :
    (cons key t rest).Sorted ↔ (∀ k ∈ rest.keys, key < k) ∧ t.Sorted ∧ rest.Sorted := by
  cases t with
  | leaf value => exact ⟨fun h => ⟨h.1, trivial, h.2⟩, fun h => ⟨h.1, h.2.2⟩⟩
  | node sub => exact Iff.rfl

/-- In front of sorted members no later key is the first one. -/
theorem get_eq_none_of_above {f : Forest κ ν} {key : κ} (habove : ∀ k ∈ f.keys, key < k) :
    f.get key = none := by
  by_contra hsome
  exact lt_irrefl key (habove key (mem_keys_iff.mpr hsome))

/-- A member of sorted members is sorted. -/
theorem Sorted.get {f : Forest κ ν} (hf : f.Sorted) {k : κ} {t : Tree κ ν}
    (hget : f.get k = some t) : t.Sorted := by
  induction f using inductionOn with
  | nil => simp at hget
  | cons key u rest _ ih =>
      obtain ⟨_, hu, hrest⟩ := sorted_cons.mp hf
      rw [get_cons] at hget
      split at hget
      · cases hget
        exact hu
      · exact ih hrest hget

/-- Entering a sorted tree keeps members sorted. -/
theorem Sorted.set {f : Forest κ ν} (hf : f.Sorted) (k : κ) {t : Tree κ ν} (ht : t.Sorted) :
    (f.set k t).Sorted := by
  induction f using inductionOn with
  | nil => exact sorted_cons.mpr ⟨by simp, ht, trivial⟩
  | cons key u rest _ ih =>
      obtain ⟨habove, hu, hrest⟩ := sorted_cons.mp hf
      rw [set_cons]
      split
      · next hlt =>
          refine sorted_cons.mpr ⟨fun k' hk' => ?_, ht, hf⟩
          rw [keys_cons, List.mem_cons] at hk'
          rcases hk' with rfl | hk'
          · exact hlt
          · exact hlt.trans (habove k' hk')
      · next hnlt =>
          split
          · next heq =>
              subst heq
              exact sorted_cons.mpr ⟨habove, ht, hrest⟩
          · next hne =>
              refine sorted_cons.mpr ⟨fun k' hk' => ?_, hu, ih hrest⟩
              rw [mem_keys_iff, get_set] at hk'
              split at hk'
              · next heq =>
                  subst heq
                  exact lt_of_le_of_ne (not_lt.mp hnlt) (Ne.symm hne)
              · exact habove k' (mem_keys_iff.mpr hk')

end Forest

/-- What a path finds: nothing, a node, or a leaf and its value. -/
def Tree.view (t : Tree κ ν) (path : List κ) : Option (Option ν) :=
  (t.getAt path).map Tree.value?

@[simp] theorem Tree.view_leaf_nil (value : ν) :
    (Tree.leaf value : Tree κ ν).view [] = some (some value) := rfl

@[simp] theorem Tree.view_node_nil (members : Forest κ ν) :
    (Tree.node members).view [] = some none := rfl

/-- The keys are the paths of length one that find something. -/
theorem Forest.mem_keys_iff_view {f : Forest κ ν} {k : κ} :
    k ∈ f.keys ↔ (Tree.node f).view [k] ≠ none := by
  rw [mem_keys_iff, Tree.view, Tree.getAt_node_cons]
  cases f.get k <;> simp

/-- The first keys of sorted members that have the same keys agree. -/
theorem Forest.head_key_eq {key key' : κ} {t t' : Tree κ ν} {rest rest' : Forest κ ν}
    (habove : ∀ k ∈ rest.keys, key < k) (habove' : ∀ k ∈ rest'.keys, key' < k)
    (hkeys : ∀ k, k ∈ (cons key t rest).keys ↔ k ∈ (cons key' t' rest').keys) : key = key' := by
  have h : key = key' ∨ key ∈ rest'.keys := by simpa using (hkeys key).mp (by simp)
  have h' : key' = key ∨ key' ∈ rest.keys := by simpa using (hkeys key').mpr (by simp)
  rcases h with h | h
  · exact h
  · rcases h' with h' | h'
    · exact h'.symm
    · exact absurd (habove key' h') (lt_asymm (habove' key h))

/-- Sorted members in which every path finds the same are equal. -/
theorem Forest.Sorted.ext {f g : Forest κ ν} (hf : f.Sorted) (hg : g.Sorted)
    (hview : ∀ path, (Tree.node f).view path = (Tree.node g).view path) : f = g := by
  have hkeys : ∀ k, k ∈ f.keys ↔ k ∈ g.keys := by
    intro k
    rw [mem_keys_iff_view, mem_keys_iff_view, hview]
  induction f using inductionOn generalizing g with
  | nil =>
      obtain rfl | ⟨key, t, rest, rfl⟩ := g.eq_nil_or_cons
      · rfl
      · exact absurd ((hkeys key).mpr (by simp)) (by simp)
  | cons key t rest ihsub ih =>
      obtain rfl | ⟨key', t', rest', rfl⟩ := g.eq_nil_or_cons
      · exact absurd ((hkeys key).mp (by simp)) (by simp)
      · obtain ⟨habove, ht, hrest⟩ := sorted_cons.mp hf
        obtain ⟨habove', ht', hrest'⟩ := sorted_cons.mp hg
        have hkey : key = key' := head_key_eq habove habove' hkeys
        subst hkey
        have htview : ∀ path, t.view path = t'.view path := by
          intro path
          have h := hview (key :: path)
          simpa [Tree.view] using h
        have htt : t = t' := by
          have hroot := htview []
          cases t with
          | leaf value =>
              cases t' with
              | leaf value' =>
                  have hvalue : value = value' := by simpa using hroot
                  rw [hvalue]
              | node sub' => simp at hroot
          | node sub =>
              cases t' with
              | leaf value' => simp at hroot
              | node sub' =>
                  have hsub : sub = sub' := ihsub sub rfl ht ht' htview (fun k => by
                    rw [mem_keys_iff_view, mem_keys_iff_view, htview])
                  rw [hsub]
        have hrestview : ∀ path, (Tree.node rest).view path = (Tree.node rest').view path := by
          intro path
          cases path with
          | nil => rfl
          | cons k path =>
              by_cases hk : k = key
              · subst hk
                simp [Tree.view, get_eq_none_of_above habove, get_eq_none_of_above habove']
              · have h := hview (k :: path)
                simpa [Tree.view, hk] using h
        have hrr : rest = rest' := ih hrest hrest' hrestview (fun k => by
          rw [mem_keys_iff_view, mem_keys_iff_view, hrestview])
        rw [htt, hrr]

/-- Sorted trees in which every path finds the same are equal. -/
theorem Tree.Sorted.ext {t u : Tree κ ν} (ht : t.Sorted) (hu : u.Sorted)
    (hview : ∀ path, t.view path = u.view path) : t = u := by
  have hroot := hview []
  cases t with
  | leaf value =>
      cases u with
      | leaf value' =>
          have hvalue : value = value' := by simpa using hroot
          rw [hvalue]
      | node g => simp at hroot
  | node f =>
      cases u with
      | leaf value' => simp at hroot
      | node g => rw [Forest.Sorted.ext ht hu hview]

/-- Entering a member that is there changes nothing. -/
theorem Forest.Sorted.set_eq_self {f : Forest κ ν} (hf : f.Sorted) {k : κ} {t : Tree κ ν}
    (hget : f.get k = some t) : f.set k t = f := by
  refine Forest.Sorted.ext (hf.set k (hf.get hget)) hf fun path => ?_
  cases path with
  | nil => rfl
  | cons k' path =>
      rw [Tree.view, Tree.view, Tree.getAt_node_cons, Tree.getAt_node_cons, get_set]
      split
      · next heq => rw [heq, hget]
      · rfl

/-- A part of a sorted tree is sorted. -/
theorem Tree.Sorted.getAt {t u : Tree κ ν} (ht : t.Sorted) {path : List κ}
    (hget : t.getAt path = some u) : u.Sorted := by
  induction path generalizing t with
  | nil =>
      rw [Tree.getAt_nil] at hget
      cases hget
      exact ht
  | cons k path ih =>
      cases t with
      | leaf value => simp at hget
      | node f =>
          obtain ⟨s, hs, hget⟩ := Option.bind_eq_some_iff.mp hget
          exact ih (Forest.Sorted.get ht hs) hget

end Sorted

/-! ## Leaves -/

/-- The leaves among members, with their paths. -/
def Forest.leaves : Forest κ ν → List (List κ × ν)
  | .nil => []
  | .leaf key value rest => ([key], value) :: rest.leaves
  | .node key sub rest => sub.leaves.map (fun leaf => (key :: leaf.1, leaf.2)) ++ rest.leaves

/-- The leaves of a tree, with their paths. -/
def Tree.leaves : Tree κ ν → List (List κ × ν)
  | .leaf value => [([], value)]
  | .node members => members.leaves

theorem Forest.leaves_cons (key : κ) (t : Tree κ ν) (rest : Forest κ ν) :
    (cons key t rest).leaves =
      t.leaves.map (fun leaf => (key :: leaf.1, leaf.2)) ++ rest.leaves := by
  cases t <;> rfl

variable [LinearOrder κ]

/-- The leaves of a sorted tree are what the paths to leaves find. -/
theorem Tree.Sorted.mem_leaves {t : Tree κ ν} (ht : t.Sorted) {path : List κ} {value : ν} :
    (path, value) ∈ t.leaves ↔ t.getAt path = some (.leaf value) := by
  cases t with
  | leaf v =>
      cases path with
      | nil => simp [Tree.leaves, eq_comm]
      | cons k path => simp [Tree.leaves]
  | node f =>
      show (path, value) ∈ f.leaves ↔ _
      induction f using Forest.inductionOn generalizing path with
      | nil => cases path <;> simp [Forest.leaves]
      | cons key u rest ihsub ih =>
          obtain ⟨habove, hu, hrest⟩ := Forest.sorted_cons.mp ht
          have hnone := Forest.get_eq_none_of_above habove
          have hhead : ∀ p, (p, value) ∈ u.leaves ↔ u.getAt p = some (.leaf value) := by
            intro p
            cases u with
            | leaf v => cases p <;> simp [Tree.leaves, eq_comm]
            | node sub => exact ihsub sub rfl hu
          rw [Forest.leaves_cons, List.mem_append, List.mem_map, ih hrest]
          cases path with
          | nil => simp
          | cons k p =>
              rw [Tree.getAt_node_cons, Tree.getAt_node_cons, Forest.get_cons]
              split
              · next heq =>
                  subst heq
                  simp [hnone, hhead]
              · next hne =>
                  have hne' : ¬ key = k := fun h => hne h.symm
                  simp [hne']

/-- A leaf that a path of least keys leads to is the first leaf. -/
theorem Tree.Sorted.leaves_eq_cons {t : Tree κ ν} (ht : t.Sorted) {path : List κ} {value : ν}
    (hleast : ∀ k ∈ path, ∀ k', ¬ k' < k) (hleaf : (path, value) ∈ t.leaves) :
    ∃ rest, t.leaves = (path, value) :: rest := by
  induction path generalizing t with
  | nil =>
      rw [ht.mem_leaves, Tree.getAt_nil] at hleaf
      cases hleaf
      exact ⟨[], rfl⟩
  | cons k path ih =>
      rw [List.forall_mem_cons] at hleast
      rw [ht.mem_leaves] at hleaf
      cases t with
      | leaf v => cases hleaf
      | node f =>
          rw [Tree.getAt_node_cons] at hleaf
          obtain ⟨s, hs, hat⟩ := Option.bind_eq_some_iff.mp hleaf
          obtain rfl | ⟨key, u, rest, rfl⟩ := f.eq_nil_or_cons
          · cases hs
          · obtain ⟨habove, hu, _⟩ := Forest.sorted_cons.mp ht
            rw [Forest.get_cons] at hs
            split at hs
            · next heq =>
                subst heq
                cases hs
                obtain ⟨more, hmore⟩ := ih hu hleast.2 (hu.mem_leaves.mpr hat)
                refine ⟨more.map (fun leaf => (k :: leaf.1, leaf.2)) ++ rest.leaves, ?_⟩
                show (Forest.cons k s rest).leaves = _
                rw [Forest.leaves_cons, hmore]
                rfl
            · have hkey : k ∈ rest.keys := Forest.mem_keys_iff.mpr (by rw [hs]; simp)
              exact absurd (habove k hkey) (hleast.1 key)

/-- A tree without empty nodes has a leaf. -/
theorem Tree.exists_leaf {t : Tree κ ν}
    (hne : ∀ path members, t.getAt path = some (.node members) → members ≠ .nil) :
    ∃ path value, t.getAt path = some (.leaf value) := by
  cases t with
  | leaf value => exact ⟨[], value, rfl⟩
  | node f =>
      induction f using Forest.inductionOn with
      | nil => exact absurd rfl (hne [] .nil rfl)
      | cons key u rest ihsub _ =>
          cases u with
          | leaf value => exact ⟨[key], value, by simp⟩
          | node sub =>
              obtain ⟨path, value, hleaf⟩ := ihsub sub rfl fun path members hget =>
                hne (key :: path) members (by simpa using hget)
              exact ⟨key :: path, value, by simpa using hleaf⟩

end ProofLib
