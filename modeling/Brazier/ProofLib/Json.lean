import Brazier.ProofLib.Assign
import Mathlib.Data.Char
import Mathlib.Data.List.Lex

/-!
# JSON values and their texts

A JSON value is a sorted tree whose keys are texts. A leaf is null, a string, or one of the other
values that have no members: a boolean, a number or an array. `JsonText` is what a program may
rely on in a library that parses and prints them.
-/

namespace ProofLib

/-- A value without members. -/
inductive Leaf (ν : Type) where
  | null
  | string (text : List Char)
  | other (value : ν)
  deriving DecidableEq

/-- The value is null. -/
def Leaf.isNull {ν : Type} : Leaf ν → Bool
  | .null => true
  | .string _ => false
  | .other _ => false

/-- A JSON value. -/
abbrev Json (ν : Type) := Ordered (List Char) (Leaf ν)

namespace Json

variable {ν : Type}

/-- `null`. -/
def null : Json ν := Ordered.leaf .null

/-- A string. -/
def ofString (text : List Char) : Json ν := Ordered.leaf (.string text)

end Json

/-- The keys of some members with their values, in order. -/
def Forest.members {κ ν : Type*} [LinearOrder κ] : (f : Forest κ ν) → f.Sorted →
    List (κ × Ordered κ ν)
  | .nil, _ => []
  | .leaf key value rest, h => (key, Ordered.leaf value) :: members rest h.2
  | .node key sub rest, h => (key, ⟨.node sub, h.2.1⟩) :: members rest h.2.2

/-- A member stands under its key. -/
theorem Forest.mem_members {κ ν : Type*} [LinearOrder κ] {f : Forest κ ν} (h : f.Sorted) {key : κ}
    {value : Ordered κ ν} : (key, value) ∈ f.members h ↔ f.get key = some value.1 := by
  induction f with
  | nil => simp [members]
  | leaf k v rest ih =>
      rw [members, get, List.mem_cons, ih]
      by_cases hkey : key = k
      · subst hkey
        have hrest : rest.get key = none := get_eq_none_of_above h.1
        rw [if_pos rfl, hrest, Prod.mk.injEq, Subtype.ext_iff]
        simp [Ordered.leaf, eq_comm]
      · rw [if_neg hkey]
        simp [hkey]
  | node k sub rest _ ih =>
      rw [members, get, List.mem_cons, ih]
      by_cases hkey : key = k
      · subst hkey
        have hrest : rest.get key = none := get_eq_none_of_above h.1
        rw [if_pos rfl, hrest, Prod.mk.injEq, Subtype.ext_iff]
        simp [eq_comm]
      · rw [if_neg hkey]
        simp [hkey]

/-- The keys of the members ascend. -/
theorem Forest.members_ascend {κ ν : Type*} [LinearOrder κ] {f : Forest κ ν} (h : f.Sorted) :
    (f.members h).Pairwise fun member member' => member.1 < member'.1 := by
  have hkeys : ∀ (rest : Forest κ ν) (hrest : rest.Sorted) (member : κ × Ordered κ ν),
      member ∈ rest.members hrest → member.1 ∈ rest.keys := by
    intro rest hrest member hmem
    rw [mem_keys_iff, (mem_members hrest).mp hmem]
    simp
  induction f with
  | nil => exact List.Pairwise.nil
  | leaf k v rest ih =>
      exact List.Pairwise.cons (fun member hmem => h.1 _ (hkeys rest h.2 member hmem)) (ih h.2)
  | node k sub rest _ ih =>
      exact List.Pairwise.cons (fun member hmem => h.1 _ (hkeys rest h.2.2 member hmem)) (ih h.2.2)

/-- The members of an object, in the order in which an iterator meets them. -/
def Json.members {ν : Type} : Json ν → Option (List (List Char × Json ν))
  | ⟨.leaf _, _⟩ => none
  | ⟨.node members, h⟩ => some (members.members h)

/-- A parser and a printer. The printer takes the width of its indentation, or none to print on one
line; it refuses a text that is not well encoded. -/
structure JsonText (ν : Type) where
  parse : List Char → Option (Json ν)
  dump : Option Nat → Json ν → Option (List Char)
  /-- All texts of the leaf are well encoded. -/
  printable : Leaf ν → Prop
  printable_null : printable .null
  /-- A value is printed when its keys and its leaves are well encoded. -/
  dump_isSome : ∀ (indent : Option Nat) (j : Json ν), (dump indent j).isSome = true ↔
    ∀ path t, j.1.getAt path = some t →
      (∀ key ∈ path, printable (.string key)) ∧ ∀ leaf, t = .leaf leaf → printable leaf
  /-- What is printed is read back. -/
  parse_dump : ∀ (indent : Option Nat) (j : Json ν) (text : List Char),
    dump indent j = some text → parse text = some j
  /-- What is read can be printed. -/
  dump_parse : ∀ (indent : Option Nat) (j : Json ν) (text : List Char),
    parse text = some j → (dump indent j).isSome = true
  /-- A string takes more room in a text than it has characters: it stands in quotes. -/
  string_lt : ∀ (text : List Char) (j : Json ν) (path : List (List Char)) (s : List Char),
    parse text = some j → j.1.getAt path = some (.leaf (.string s)) → s.length < text.length

end ProofLib
