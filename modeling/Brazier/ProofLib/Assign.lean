import Brazier.ProofLib.Forest
import Mathlib.Data.List.Induction

/-!
# Assignments at paths

`assign` puts a tree at a path and makes the nodes that are missing on the way. A leaf on the way
becomes a node when its value is blank; any other leaf makes the assignment fail. `assignAll`
makes the assignments of a list of entries in order. When the entries are `Consistent`, which means
that an entry below another one is part of what the other one puts there, every order of the
entries gives the one tree that has grown from them.
-/

namespace ProofLib

variable {κ ν : Type*} [LinearOrder κ]

namespace Tree

/-- The members a path can go on through: those of a node, and none yet for a blank leaf. -/
def children (blank : ν → Bool) : Tree κ ν → Option (Forest κ ν)
  | .leaf value => if blank value then some .nil else none
  | .node members => some members

/-- Put `w` at a path. -/
def assign (blank : ν → Bool) : Tree κ ν → List κ → Tree κ ν → Option (Tree κ ν)
  | _, [], w => some w
  | t, k :: path, w =>
      (t.children blank).bind fun members =>
        (assign blank ((members.get k).getD (.node .nil)) path w).map fun u =>
          .node (members.set k u)

variable {blank : ν → Bool} {w t t' : Tree κ ν}

/-- An assignment below a first key: what it goes on through and what it puts there. -/
theorem assign_cons {k : κ} {path : List κ} (h : t.assign blank (k :: path) w = some t') :
    ∃ members u, t.children blank = some members ∧
      assign blank ((members.get k).getD (.node .nil)) path w = some u ∧
      t' = .node (members.set k u) := by
  obtain ⟨members, hmembers, h⟩ := Option.bind_eq_some_iff.mp h
  obtain ⟨u, hu, rfl⟩ := Option.map_eq_some_iff.mp h
  exact ⟨members, u, hmembers, hu, rfl⟩

/-- Below a first key a tree finds what the members it goes on through find. -/
theorem getAt_cons_of_children {members : Forest κ ν} (h : t.children blank = some members)
    (k : κ) (path : List κ) :
    t.getAt (k :: path) = (members.get k).bind (fun u => u.getAt path) := by
  cases t with
  | leaf value =>
      rw [children] at h
      split at h
      · cases h
        rfl
      · cases h
  | node f =>
      cases h
      rfl

/-- At the path and below it is what was put there. -/
theorem getAt_assign_append {p : List κ} (h : t.assign blank p w = some t') (r : List κ) :
    t'.getAt (p ++ r) = w.getAt r := by
  induction p generalizing t t' with
  | nil =>
      cases h
      rfl
  | cons k p ih =>
      obtain ⟨members, u, _, hu, rfl⟩ := assign_cons h
      rw [List.cons_append, getAt_node_cons, Forest.get_set, if_pos rfl, Option.bind_some]
      exact ih hu

/-- At the path is what was put there. -/
theorem getAt_assign {p : List κ} (h : t.assign blank p w = some t') : t'.getAt p = some w := by
  have hat := getAt_assign_append h []
  rwa [List.append_nil, getAt_nil] at hat

/-- Away from the path nothing changes. -/
theorem getAt_assign_of_apart {p q : List κ} (h : t.assign blank p w = some t')
    (hpq : ¬ p <+: q) (hqp : ¬ q <+: p) : t'.getAt q = t.getAt q := by
  induction p generalizing t t' q with
  | nil => exact absurd List.nil_prefix hpq
  | cons k p ih =>
      obtain ⟨members, u, hmembers, hu, rfl⟩ := assign_cons h
      cases q with
      | nil => exact absurd List.nil_prefix hqp
      | cons k' q =>
          rw [getAt_cons_of_children hmembers, getAt_node_cons, Forest.get_set]
          split
          · next heq =>
              subst heq
              rw [List.cons_prefix_cons] at hpq hqp
              have hpq' : ¬ p <+: q := fun hp => hpq ⟨rfl, hp⟩
              have hqp' : ¬ q <+: p := fun hq => hqp ⟨rfl, hq⟩
              rw [Option.bind_some, ih hu hpq' hqp']
              cases members.get k' with
              | none =>
                  cases q with
                  | nil => exact absurd List.nil_prefix hqp'
                  | cons k'' q => rfl
              | some s => rfl
          · rfl

/-- On the way to something there is a node. -/
theorem view_eq_node_of_getAt {p r : List κ} {u : Tree κ ν} (hr : r ≠ [])
    (hget : t.getAt (p ++ r) = some u) : t.view p = some none := by
  rw [view]
  cases hp : t.getAt p with
  | none =>
      rw [getAt_append, hp] at hget
      cases hget
  | some s =>
      cases s with
      | leaf value =>
          rw [getAt_through_leaf hp hr] at hget
          cases hget
      | node members => rfl

/-- A path that leads on through every leaf it meets can be assigned to. -/
theorem assign_isSome {p : List κ}
    (hway : ∀ q r value, p = q ++ r → r ≠ [] → t.getAt q = some (leaf value) → blank value = true)
    : ∃ t', t.assign blank p w = some t' := by
  induction p generalizing t with
  | nil => exact ⟨w, rfl⟩
  | cons k p ih =>
      have hchildren : ∃ members, t.children blank = some members := by
        cases t with
        | leaf value =>
            have hblank := hway [] (k :: p) value rfl (by simp) (getAt_nil _)
            exact ⟨.nil, by rw [children, if_pos hblank]⟩
        | node members => exact ⟨members, rfl⟩
      obtain ⟨members, hmembers⟩ := hchildren
      have hbelow : ∃ u, assign blank ((members.get k).getD (.node .nil)) p w = some u := by
        apply ih
        intro q r value hp hr hget
        cases hk : members.get k with
        | none =>
            rw [hk, Option.getD_none] at hget
            cases q <;> simp at hget
        | some s =>
            rw [hk, Option.getD_some] at hget
            refine hway (k :: q) r value (by rw [hp]; rfl) hr ?_
            rw [getAt_cons_of_children hmembers, hk]
            exact hget
      obtain ⟨u, hu⟩ := hbelow
      exact ⟨.node (members.set k u), by simp [assign, hmembers, hu]⟩

/-- A leaf of the tree after an assignment is part of what was put there, or was there before. -/
theorem leaf_of_assign {p q : List κ} {value : ν} (h : t.assign blank p w = some t')
    (hleaf : t'.getAt q = some (leaf value)) :
    (∃ r, q = p ++ r ∧ w.getAt r = some (leaf value)) ∨ t.getAt q = some (leaf value) := by
  by_cases hpq : p <+: q
  · obtain ⟨r, rfl⟩ := hpq
    exact Or.inl ⟨r, rfl, (getAt_assign_append h r).symm.trans hleaf⟩
  · by_cases hqp : q <+: p
    · obtain ⟨r, rfl⟩ := hqp
      have hr : r ≠ [] := by
        rintro rfl
        exact hpq (by simp)
      have hnode := view_eq_node_of_getAt hr (getAt_assign h)
      rw [view, hleaf] at hnode
      cases hnode
    · rw [getAt_assign_of_apart h hpq hqp] at hleaf
      exact Or.inr hleaf

/-- An assignment to a sorted tree gives a sorted tree. -/
theorem Sorted.assign {p : List κ} (ht : t.Sorted) (hw : w.Sorted)
    (h : t.assign blank p w = some t') : t'.Sorted := by
  induction p generalizing t t' with
  | nil =>
      cases h
      exact hw
  | cons k p ih =>
      obtain ⟨members, u, hmembers, hu, rfl⟩ := assign_cons h
      have hsorted : members.Sorted := by
        cases t with
        | leaf value =>
            rw [children] at hmembers
            split at hmembers <;> cases hmembers
            trivial
        | node f =>
            cases hmembers
            exact ht
      refine Forest.Sorted.set hsorted k (ih ?_ hu)
      cases hk : members.get k with
      | none => exact trivial
      | some s => exact hsorted.get hk

/-- Assigning what is there changes nothing. -/
theorem Sorted.assign_eq_self {p : List κ} (ht : t.Sorted) (hget : t.getAt p = some w) :
    t.assign blank p w = some t := by
  induction p generalizing t with
  | nil =>
      rw [getAt_nil] at hget
      exact hget.symm
  | cons k p ih =>
      cases t with
      | leaf value => simp at hget
      | node members =>
          obtain ⟨u, hu, hget⟩ := Option.bind_eq_some_iff.mp hget
          have hbelow := ih (Forest.Sorted.get ht hu) hget
          have hset : members.set k u = members := Forest.Sorted.set_eq_self ht hu
          simp [Tree.assign, Tree.children, hu, hbelow, hset]

end Tree

/-! ## Sorted trees -/

/-- A sorted tree. -/
abbrev Ordered (κ ν : Type*) [LinearOrder κ] := { t : Tree κ ν // t.Sorted }

namespace Ordered

/-- A leaf is sorted. -/
def leaf (value : ν) : Ordered κ ν := ⟨.leaf value, trivial⟩

/-- Put `w` at a path. -/
def assign (blank : ν → Bool) (t : Ordered κ ν) (path : List κ) (w : Ordered κ ν) :
    Option (Ordered κ ν) :=
  (Tree.assign blank t.1 path w.1).pmap Subtype.mk (fun _ h => t.2.assign w.2 h)

variable {blank : ν → Bool} {w t t' : Ordered κ ν}

theorem assign_eq_some {path : List κ} :
    t.assign blank path w = some t' ↔ Tree.assign blank t.1 path w.1 = some t'.1 := by
  rw [assign, Option.pmap_eq_some_iff]
  constructor
  · rintro ⟨u, _, hu, rfl⟩
    exact hu
  · intro h
    exact ⟨t'.1, t'.2, h, rfl⟩

end Ordered

/-- A path and the tree to be put there. -/
abbrev Entry (κ ν : Type*) [LinearOrder κ] := List κ × Ordered κ ν

/-- Make the assignments in order. -/
def assignAll (blank : ν → Bool) (entries : List (Entry κ ν)) (t : Ordered κ ν) :
    Option (Ordered κ ν) :=
  entries.foldlM (fun t entry => t.assign blank entry.1 entry.2) t

/-- An entry at or below another one is part of what the other one puts there. -/
def Consistent (entries : List (Entry κ ν)) : Prop :=
  ∀ e ∈ entries, ∀ e' ∈ entries, ∀ r, e'.1 = e.1 ++ r → e.2.1.getAt r = some e'.2.1

/-- The tree has every entry, and nothing that is not on the way to one or below one. Without
entries it is a blank leaf. -/
structure Grown (blank : ν → Bool) (entries : List (Entry κ ν)) (t : Ordered κ ν) : Prop where
  at_entry : ∀ e ∈ entries, t.1.getAt e.1 = some e.2.1
  covered : ∀ p, t.1.view p ≠ none → p ≠ [] → ∃ e ∈ entries, e.1 <+: p ∨ p <+: e.1
  bare : entries = [] → ∃ value, blank value = true ∧ t = Ordered.leaf value

variable {blank : ν → Bool} {entries : List (Entry κ ν)} {t u : Ordered κ ν}

/-- The tree that has grown from some entries is determined by them. -/
theorem Grown.unique (hne : entries ≠ []) (ht : Grown blank entries t)
    (hu : Grown blank entries u) : t = u := by
  refine Subtype.ext (t.2.ext u.2 fun p => ?_)
  by_cases hbelow : ∃ e ∈ entries, e.1 <+: p
  · obtain ⟨e, he, r, rfl⟩ := hbelow
    have hte := ht.at_entry e he
    have hue := hu.at_entry e he
    rw [Tree.view, Tree.view, Tree.getAt_append, Tree.getAt_append, hte, hue]
  · by_cases hway : ∃ e ∈ entries, p <+: e.1
    · obtain ⟨e, he, r, hr⟩ := hway
      have hrne : r ≠ [] := by
        rintro rfl
        rw [List.append_nil] at hr
        exact hbelow ⟨e, he, hr ▸ List.prefix_refl p⟩
      have hte := ht.at_entry e he
      have hue := hu.at_entry e he
      rw [← hr] at hte hue
      rw [Tree.view_eq_node_of_getAt hrne hte, Tree.view_eq_node_of_getAt hrne hue]
    · have hp : p ≠ [] := by
        rintro rfl
        obtain ⟨e, he⟩ := List.exists_mem_of_ne_nil entries hne
        exact hway ⟨e, he, List.nil_prefix⟩
      have hnothing : ∀ s : Ordered κ ν, Grown blank entries s → s.1.view p = none := by
        intro s hs
        by_contra hsome
        obtain ⟨e, he, h | h⟩ := hs.covered p hsome hp
        · exact hbelow ⟨e, he, h⟩
        · exact hway ⟨e, he, h⟩
      rw [hnothing t ht, hnothing u hu]

/-- On the way to a consistent entry a grown tree has no leaf but a blank root. -/
theorem Grown.blank_of_leaf {e : Entry κ ν} (ht : Grown blank entries t)
    (hcons : ∀ e' ∈ entries, ∀ r, e.1 = e'.1 ++ r → e'.2.1.getAt r = some e.2.1) {q r : List κ}
    {value : ν} (hq : e.1 = q ++ r) (hr : r ≠ []) (hleaf : t.1.getAt q = some (.leaf value)) :
    blank value = true := by
  by_cases hnone : entries = []
  · obtain ⟨v, hv, rfl⟩ := ht.bare hnone
    cases q with
    | nil =>
        rw [Tree.getAt_nil] at hleaf
        cases hleaf
        exact hv
    | cons k q => cases hleaf
  · have hrel : ∃ e' ∈ entries, e'.1 <+: q ∨ q <+: e'.1 := by
      by_cases hqnil : q = []
      · obtain ⟨e', he'⟩ := List.exists_mem_of_ne_nil entries hnone
        exact ⟨e', he', Or.inr (hqnil ▸ List.nil_prefix)⟩
      · exact ht.covered q (by rw [Tree.view, hleaf]; simp) hqnil
    obtain ⟨e', he', ⟨s, rfl⟩ | ⟨s, hs⟩⟩ := hrel
    · -- the entry is below an earlier one, so the path leads on from the leaf
      have hinside := hcons e' he' (s ++ r) (by rw [hq, List.append_assoc])
      have hat : t.1.getAt (e'.1 ++ (s ++ r)) = some e.2.1 := by
        rw [Tree.getAt_append, ht.at_entry e' he']
        exact hinside
      rw [← List.append_assoc, Tree.getAt_through_leaf hleaf hr] at hat
      cases hat
    · have hat := ht.at_entry e' he'
      rw [← hs] at hat
      by_cases hsnil : s = []
      · subst hsnil
        rw [List.append_nil] at hs hat
        rw [hleaf] at hat
        have hinside := hcons e' he' r (by rw [hq, hs])
        obtain ⟨k, r, rfl⟩ := List.exists_cons_of_ne_nil hr
        rw [← Option.some.inj hat] at hinside
        cases hinside
      · rw [Tree.getAt_through_leaf hleaf hsnil] at hat
        cases hat

/-- A consistent entry leaves what the earlier entries have put. -/
theorem Grown.at_entry_assign {e e' : Entry κ ν} (ht : Grown blank entries t)
    (hcons : Consistent (e :: entries)) (hassign : t.assign blank e.1 e.2 = some u)
    (he' : e' ∈ entries) : u.1.getAt e'.1 = some e'.2.1 := by
  rw [Ordered.assign_eq_some] at hassign
  have hat := ht.at_entry e' he'
  by_cases hle : e.1 <+: e'.1
  · obtain ⟨r, hr⟩ := hle
    rw [← hr, Tree.getAt_assign_append hassign]
    exact hcons e List.mem_cons_self e' (List.mem_cons_of_mem e he') r hr.symm
  · by_cases hge : e'.1 <+: e.1
    · obtain ⟨r, hr⟩ := hge
      have hthere : t.1.getAt e.1 = some e.2.1 := by
        rw [← hr, Tree.getAt_append, hat]
        exact hcons e' (List.mem_cons_of_mem e he') e List.mem_cons_self r hr.symm
      rw [t.2.assign_eq_self hthere] at hassign
      rw [← Option.some.inj hassign]
      exact hat
    · rw [Tree.getAt_assign_of_apart hassign hle hge]
      exact hat

/-- A tree that has grown from consistent entries takes one more consistent entry. -/
theorem Grown.assign {e : Entry κ ν} (ht : Grown blank entries t)
    (hcons : Consistent (e :: entries)) :
    ∃ u, t.assign blank e.1 e.2 = some u ∧ Grown blank (e :: entries) u := by
  have hbelow : ∀ e' ∈ entries, ∀ r, e.1 = e'.1 ++ r → e'.2.1.getAt r = some e.2.1 :=
    fun e' he' => hcons e' (List.mem_cons_of_mem e he') e List.mem_cons_self
  obtain ⟨u, hu⟩ := Tree.assign_isSome (w := e.2.1)
    (fun q r value hq hr hleaf => ht.blank_of_leaf hbelow hq hr hleaf)
  have hassign : t.assign blank e.1 e.2 = some ⟨u, t.2.assign e.2.2 hu⟩ :=
    Ordered.assign_eq_some.mpr hu
  refine ⟨⟨u, t.2.assign e.2.2 hu⟩, hassign, ⟨?_, ?_, by simp⟩⟩
  · intro e' he'
    rw [List.mem_cons] at he'
    rcases he' with rfl | he'
    · exact Tree.getAt_assign hu
    · exact ht.at_entry_assign hcons hassign he'
  · intro p hp hpne
    by_cases hle : e.1 <+: p
    · exact ⟨e, List.mem_cons_self, Or.inl hle⟩
    · by_cases hge : p <+: e.1
      · exact ⟨e, List.mem_cons_self, Or.inr hge⟩
      · have hview : t.1.view p ≠ none := by
          rwa [Tree.view, Tree.getAt_assign_of_apart hu hle hge] at hp
        obtain ⟨e', he', h⟩ := ht.covered p hview hpne
        exact ⟨e', List.mem_cons_of_mem e he', h⟩

/-- What a tree has grown from is a set of entries. -/
theorem Grown.congr {entries' : List (Entry κ ν)} (ht : Grown blank entries t)
    (hmem : ∀ e, e ∈ entries ↔ e ∈ entries') : Grown blank entries' t where
  at_entry e he := ht.at_entry e ((hmem e).mpr he)
  covered p hp hpne := by
    obtain ⟨e, he, h⟩ := ht.covered p hp hpne
    exact ⟨e, (hmem e).mp he, h⟩
  bare hnil := by
    refine ht.bare (List.eq_nil_iff_forall_not_mem.mpr fun e he => ?_)
    have he' := (hmem e).mp he
    rw [hnil] at he'
    cases he'

/-- Consistency speaks about which entries there are. -/
theorem Consistent.mono {entries' : List (Entry κ ν)} (hcons : Consistent entries)
    (hsub : ∀ e ∈ entries', e ∈ entries) : Consistent entries' :=
  fun e he e' he' => hcons e (hsub e he) e' (hsub e' he')

/-- Consistent entries can be assigned in any order, and the tree grows from them. -/
theorem assignAll_consistent (blank : ν → Bool) (value : ν) (hcons : Consistent entries)
    (hblank : blank value = true) :
    ∃ u, assignAll blank entries (Ordered.leaf value) = some u ∧ Grown blank entries u := by
  induction entries using List.reverseRecOn with
  | nil =>
      refine ⟨Ordered.leaf value, rfl, by simp, ?_, fun _ => ⟨value, hblank, rfl⟩⟩
      intro p hp hpne
      obtain ⟨k, p, rfl⟩ := List.exists_cons_of_ne_nil hpne
      exact absurd rfl hp
  | append_singleton entries e ih =>
      obtain ⟨t, ht, hgrown⟩ := ih (hcons.mono (by simp +contextual))
      have hcons' : Consistent (e :: entries) := hcons.mono (by simp +contextual [or_imp])
      obtain ⟨u, hu, hgrown'⟩ := hgrown.assign hcons'
      refine ⟨u, ?_, hgrown'.congr fun e' => ?_⟩
      · rw [assignAll, List.foldlM_append]
        rw [assignAll] at ht
        rw [ht]
        simpa using hu
      · rw [List.mem_cons, List.mem_append, List.mem_singleton, or_comm]

/-- The last entry is there after the assignments. -/
theorem getAt_assignAll_last {e : Entry κ ν} (h : assignAll blank (entries ++ [e]) t = some u) :
    u.1.getAt e.1 = some e.2.1 := by
  rw [assignAll, List.foldlM_append] at h
  obtain ⟨s, _, hs⟩ := Option.bind_eq_some_iff.mp h
  have hlast : s.assign blank e.1 e.2 = some u := by simpa using hs
  exact Tree.getAt_assign (Ordered.assign_eq_some.mp hlast)

/-- Every leaf comes from an entry, or was there at the start. -/
theorem leaf_of_assignAll {q : List κ} {value : ν} (h : assignAll blank entries t = some u)
    (hleaf : u.1.getAt q = some (.leaf value)) :
    (∃ e ∈ entries, ∃ r, q = e.1 ++ r ∧ e.2.1.getAt r = some (.leaf value)) ∨
      t.1.getAt q = some (.leaf value) := by
  induction entries generalizing t with
  | nil =>
      cases h
      exact Or.inr hleaf
  | cons e entries ih =>
      rw [assignAll, List.foldlM_cons] at h
      obtain ⟨s, hs, h⟩ := Option.bind_eq_some_iff.mp h
      rcases ih h with ⟨e', he', hfrom⟩ | hbefore
      · exact Or.inl ⟨e', List.mem_cons_of_mem e he', hfrom⟩
      · rcases Tree.leaf_of_assign (Ordered.assign_eq_some.mp hs) hbefore with hfrom | hbefore
        · exact Or.inl ⟨e, List.mem_cons_self, hfrom⟩
        · exact Or.inr hbefore

/-! ## Assignments below a path -/

namespace Tree

/-- Where an assignment below a path goes on: in what the path leads to, or in a node without
members. -/
def descend (blank : ν → Bool) : Tree κ ν → List κ → Option (Tree κ ν)
  | t, [] => some t
  | t, k :: path =>
      (t.children blank).bind fun members => descend blank ((members.get k).getD (.node .nil)) path

variable {w t t' s : Tree κ ν}

/-- An assignment below a path is one in the tree where it goes on. -/
theorem assign_append (p q : List κ) :
    t.assign blank (p ++ q) w =
      (t.descend blank p).bind fun s => (s.assign blank q w).bind fun u => t.assign blank p u := by
  induction p generalizing t with
  | nil => simp [descend, assign]
  | cons k p ih =>
      rw [List.cons_append, assign, descend]
      cases hmembers : t.children blank with
      | none => rfl
      | some members =>
          rw [Option.bind_some, Option.bind_some, ih]
          cases descend blank ((members.get k).getD (.node .nil)) p with
          | none => rfl
          | some s =>
              rw [Option.bind_some, Option.bind_some]
              cases s.assign blank q w with
              | none => rfl
              | some u => simp [assign, hmembers]

/-- An assignment below what is there goes on there. -/
theorem descend_of_getAt {p : List κ} (h : t.getAt p = some s) : t.descend blank p = some s := by
  induction p generalizing t with
  | nil =>
      rw [getAt_nil] at h
      exact h
  | cons k p ih =>
      cases t with
      | leaf value => cases h
      | node members =>
          obtain ⟨u, hu, h⟩ := Option.bind_eq_some_iff.mp h
          rw [descend, children, Option.bind_some, hu]
          exact ih h

/-- Below a blank leaf an assignment goes on in a node without members. -/
theorem descend_blank {p : List κ} (hp : p ≠ []) {value : ν} (hblank : blank value = true) :
    (leaf value : Tree κ ν).descend blank p = some (.node .nil) := by
  have hnode : ∀ q : List κ, (node .nil : Tree κ ν).descend blank q = some (.node .nil) := by
    intro q
    induction q with
    | nil => rfl
    | cons k q ih =>
        rw [descend, children, Option.bind_some]
        exact ih
  obtain ⟨k, p, rfl⟩ := List.exists_cons_of_ne_nil hp
  rw [descend, children, if_pos hblank, Option.bind_some]
  exact hnode p

/-- In a blank leaf and in a node without members the same can be assigned. -/
theorem assign_blank {q : List κ} (hq : q ≠ []) {value : ν} (hblank : blank value = true) :
    (leaf value : Tree κ ν).assign blank q w = (node .nil).assign blank q w := by
  obtain ⟨k, q, rfl⟩ := List.exists_cons_of_ne_nil hq
  rw [assign, assign, children, children, if_pos hblank]

end Tree

/-- The tree stands in another one at a path. Where there is nothing yet, a blank leaf does. -/
def Stands (blank : ν → Bool) (p : List κ) (t s : Ordered κ ν) : Prop :=
  t.1.descend blank p = some s.1 ∨
    t.1.descend blank p = some (.node .nil) ∧ ∃ value, blank value = true ∧ s = Ordered.leaf value

/-- What is assigned below the path is assigned in the tree that stands there. -/
theorem Stands.assign {p : List κ} {s : Ordered κ ν} (h : Stands blank p t s) {e : Entry κ ν}
    (he : e.1 ≠ []) (hassign : t.assign blank (p ++ e.1) e.2 = some u) :
    ∃ s', s.assign blank e.1 e.2 = some s' ∧ Stands blank p u s' := by
  rw [Ordered.assign_eq_some, Tree.assign_append] at hassign
  have hgoes : ∃ v, s.1.assign blank e.1 e.2.1 = some v ∧ t.1.assign blank p v = some u.1 := by
    rcases h with hthere | ⟨hnothing, value, hblank, rfl⟩
    · rw [hthere, Option.bind_some] at hassign
      exact Option.bind_eq_some_iff.mp hassign
    · rw [hnothing, Option.bind_some, ← Tree.assign_blank he hblank] at hassign
      exact Option.bind_eq_some_iff.mp hassign
  obtain ⟨v, hv, hput⟩ := hgoes
  refine ⟨⟨v, s.2.assign e.2.2 hv⟩, Ordered.assign_eq_some.mpr hv, Or.inl ?_⟩
  exact Tree.descend_of_getAt (Tree.getAt_assign hput)

/-- Entries that can be assigned below a path can be assigned in a tree of their own. -/
theorem assignAll_of_below {p : List κ} (hp : p ≠ []) {value : ν} (hblank : blank value = true)
    (hpaths : ∀ e ∈ entries, e.1 ≠ []) {others : List (Entry κ ν)}
    (h : assignAll blank (entries.map (fun e => (p ++ e.1, e.2)) ++ others) (Ordered.leaf value) =
      some u) :
    ∃ s, assignAll blank entries (Ordered.leaf value) = some s := by
  have hrun : ∀ t s : Ordered κ ν, Stands blank p t s →
      assignAll blank (entries.map (fun e => (p ++ e.1, e.2)) ++ others) t = some u →
      ∃ s', assignAll blank entries s = some s' := by
    clear h
    induction entries with
    | nil => exact fun t s _ _ => ⟨s, rfl⟩
    | cons e rest ih =>
        intro t s hstands h
        rw [List.forall_mem_cons] at hpaths
        rw [List.map_cons, List.cons_append, assignAll, List.foldlM_cons] at h
        obtain ⟨t', hassign, h⟩ := Option.bind_eq_some_iff.mp h
        obtain ⟨s', hs', hstands'⟩ := hstands.assign hpaths.1 hassign
        obtain ⟨end', hend⟩ := ih hpaths.2 t' s' hstands' h
        refine ⟨end', ?_⟩
        rw [assignAll, List.foldlM_cons, hs']
        exact hend
  exact hrun _ _ (Or.inr ⟨Tree.descend_blank hp hblank, value, hblank, rfl⟩) h

end ProofLib
