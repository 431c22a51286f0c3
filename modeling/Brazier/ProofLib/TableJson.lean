import Brazier.ProofLib.Json

/-!
# A library that knows a few values

`null`, the object without members, and the values of a table, each under one text. Nothing else is
parsed or printed: no string is taken to be well encoded.
-/

namespace ProofLib

/-- Values with a text each. -/
structure Table (ν : Type) where
  read : List Char → Option ν
  print : ν → Option (List Char)
  read_print : ∀ value text, print value = some text → read text = some value
  print_read : ∀ text value, read text = some value → (print value).isSome = true
  read_null : read "null".toList = none
  read_braces : read ['{', '}'] = none

namespace Table

variable {ν : Type}

/-- Without values. -/
def empty (ν : Type) : Table ν where
  read _ := none
  print _ := none
  read_print _ _ h := by cases h
  print_read _ _ h := by cases h
  read_null := rfl
  read_braces := rfl

variable (table : Table ν)

/-- The value of a text. -/
def parse (text : List Char) : Option (Json ν) :=
  if text = "null".toList then some Json.null
  else if text = ['{', '}'] then some ⟨.node .nil, trivial⟩
  else (table.read text).map (fun value => Ordered.leaf (.other value))

/-- The text of a value. -/
def dump (j : Json ν) : Option (List Char) :=
  match j.1 with
  | .leaf .null => some "null".toList
  | .leaf (.string _) => none
  | .leaf (.other value) => table.print value
  | .node .nil => some ['{', '}']
  | .node (.leaf _ _ _) => none
  | .node (.node _ _ _) => none

/-- The leaves that are printed. -/
def printable : Leaf ν → Prop
  | .null => True
  | .string _ => False
  | .other value => (table.print value).isSome = true

variable {table}

/-- The text of a value of the table. -/
theorem parse_of_read {text : List Char} {value : ν} (h : table.read text = some value) :
    table.parse text = some (Ordered.leaf (.other value)) := by
  have hnull : text ≠ "null".toList := by
    rintro rfl
    rw [table.read_null] at h
    cases h
  have hbraces : text ≠ ['{', '}'] := by
    rintro rfl
    rw [table.read_braces] at h
    cases h
  rw [parse, if_neg hnull, if_neg hbraces, h]
  rfl

/-- What is parsed. -/
theorem of_parse {text : List Char} {j : Json ν} (h : table.parse text = some j) :
    j = Json.null ∨ j = ⟨.node .nil, trivial⟩ ∨
      ∃ value, table.read text = some value ∧ j = Ordered.leaf (.other value) := by
  rw [parse] at h
  split at h
  · exact Or.inl (Option.some.inj h).symm
  · split at h
    · exact Or.inr (Or.inl (Option.some.inj h).symm)
    · obtain ⟨value, hvalue, rfl⟩ := Option.map_eq_some_iff.mp h
      exact Or.inr (Or.inr ⟨value, hvalue, rfl⟩)

/-- A value is printed when its keys and its leaves are. -/
theorem dump_isSome_iff (j : Json ν) : (table.dump j).isSome = true ↔
    ∀ path t, j.1.getAt path = some t →
      (∀ key ∈ path, table.printable (.string key)) ∧
        ∀ leaf, t = .leaf leaf → table.printable leaf := by
  obtain ⟨t, ht⟩ := j
  have hleaf : ∀ leaf : Leaf ν, table.printable leaf ↔ ∀ path t,
      (Tree.leaf leaf : Tree (List Char) (Leaf ν)).getAt path = some t →
        (∀ key ∈ path, table.printable (.string key)) ∧
          ∀ leaf, t = .leaf leaf → table.printable leaf := by
    intro leaf
    constructor
    · intro hprint path t hget
      cases path with
      | cons key path => cases hget
      | nil =>
          cases hget
          refine ⟨by simp, fun leaf' h => ?_⟩
          cases h
          exact hprint
    · intro h
      exact (h [] _ rfl).2 leaf rfl
  -- a member has a key, and no key is printed
  have hmember : ∀ (key : List Char) (u : Tree (List Char) (Leaf ν)) rest,
      ¬ ∀ path t, (Tree.node (Forest.cons key u rest)).getAt path = some t →
        (∀ key ∈ path, table.printable (.string key)) ∧
          ∀ leaf, t = .leaf leaf → table.printable leaf := by
    intro key u rest h
    exact (h [key] u (by simp)).1 key List.mem_cons_self
  cases t with
  | leaf leaf =>
      refine Iff.trans ?_ (hleaf leaf)
      cases leaf with
      | null => exact iff_of_true rfl trivial
      | string text => exact iff_of_false (by simp [dump]) id
      | other value => exact Iff.rfl
  | node members =>
      cases members with
      | nil =>
          refine iff_of_true rfl fun path t hget => ?_
          cases path with
          | cons key path => cases hget
          | nil =>
              cases hget
              exact ⟨by simp, fun leaf h => by cases h⟩
      | leaf key value rest => exact iff_of_false (by simp [dump]) (hmember key (.leaf value) rest)
      | node key sub rest => exact iff_of_false (by simp [dump]) (hmember key (.node sub) rest)

/-- What is printed is read back. -/
theorem parse_dump {j : Json ν} {text : List Char} (h : table.dump j = some text) :
    table.parse text = some j := by
  obtain ⟨t, ht⟩ := j
  cases t with
  | leaf leaf =>
      cases leaf with
      | null =>
          cases h
          rfl
      | string s => cases h
      | other value => exact parse_of_read (table.read_print value text h)
  | node members =>
      cases members with
      | nil =>
          cases h
          rfl
      | leaf key value rest => cases h
      | node key sub rest => cases h

end Table

/-- The library. -/
def Table.jsonText {ν : Type} (table : Table ν) : JsonText ν where
  parse := table.parse
  dump _ := table.dump
  printable := table.printable
  printable_null := trivial
  dump_isSome _ := dump_isSome_iff
  parse_dump _ _ _ := parse_dump
  dump_parse _ j text h := by
    rcases of_parse h with rfl | rfl | ⟨value, hvalue, rfl⟩
    · rfl
    · rfl
    · exact table.print_read text value hvalue
  string_lt text j path s h hget := by
    rcases of_parse h with rfl | rfl | ⟨value, hvalue, rfl⟩
    · cases path <;> cases hget
    · cases path <;> cases hget
    · cases path <;> cases hget

end ProofLib
