import Mathlib.Data.List.Basic

/-!
# Pages of a list

A list is cut into pages of one size, and the last page may be shorter. `flatten_pages` says that
the pages hold every item once, in order, and `disjoint_page` that no item is on two of them. When
items are appended one by one, `page_append_last` and `page_append_full` say what becomes of the
last page.
-/

namespace ProofLib

variable {α : Type*}

/-- The page with number `k`, from zero. -/
def page (items : List α) (size k : Nat) : List α := (items.drop (k * size)).take size

/-- The number of pages. -/
def pageCount (items : List α) (size : Nat) : Nat := (items.length + size - 1) / size

/-- The items of a page are those at its positions. -/
theorem getElem?_page (items : List α) (size k i : Nat) :
    (page items size k)[i]? = if i < size then items[k * size + i]? else none := by
  rw [page, List.getElem?_take, List.getElem?_drop]

/-- The first pages hold the first items. -/
theorem flatten_first_pages (items : List α) (size n : Nat) :
    ((List.range n).map (page items size)).flatten = items.take (n * size) := by
  induction n with
  | zero => simp
  | succ n ih =>
      rw [List.range_succ, List.map_append, List.flatten_append, ih, Nat.succ_mul, List.take_add]
      simp [page]

/-- The pages hold all items in order. -/
theorem flatten_pages (items : List α) {size : Nat} (hsize : 0 < size) :
    ((List.range (pageCount items size)).map (page items size)).flatten = items := by
  rw [flatten_first_pages]
  refine List.take_of_length_le ?_
  have hdiv := Nat.div_add_mod (items.length + size - 1) size
  have hmod := Nat.mod_lt (items.length + size - 1) hsize
  rw [pageCount, Nat.mul_comm]
  omega

/-- Different pages have no item in common. -/
theorem disjoint_page {items : List α} (hnodup : items.Nodup) {size j k : Nat} (hne : j ≠ k) :
    (page items size j).Disjoint (page items size k) := by
  intro a hj hk
  obtain ⟨i, hi⟩ := List.mem_iff_getElem?.mp hj
  obtain ⟨i', hi'⟩ := List.mem_iff_getElem?.mp hk
  rw [getElem?_page] at hi hi'
  split at hi
  · next hlt =>
      split at hi'
      · next hlt' =>
          obtain ⟨hbound, -⟩ := List.getElem?_eq_some_iff.mp hi
          have heq := (List.getElem?_inj hbound hnodup).mp (hi.trans hi'.symm)
          have hdiv : ∀ k r, r < size → (k * size + r) / size = k := by
            intro k r hr
            rw [Nat.mul_comm k size, Nat.mul_add_div (by omega), Nat.div_eq_of_lt hr, Nat.add_zero]
          exact hne (by rw [← hdiv j i hlt, heq, hdiv k i' hlt'])
      · cases hi'
  · cases hi

/-! ## Appending -/

/-- A full page stays as it is. -/
theorem page_append_of_le {items : List α} {size k : Nat} (hfull : (k + 1) * size ≤ items.length)
    (more : List α) : page (items ++ more) size k = page items size k := by
  have hle : k * size ≤ items.length := by
    rw [Nat.add_mul] at hfull
    omega
  rw [page, page, List.drop_append_of_le_length hle, List.take_append_of_le_length]
  rw [List.length_drop]
  rw [Nat.add_mul] at hfull
  omega

/-- Behind the items there is nothing. -/
theorem page_eq_nil {items : List α} {size k : Nat} (hle : items.length ≤ k * size) :
    page items size k = [] := by
  rw [page, List.drop_eq_nil_of_le hle, List.take_nil]

/-- The length of the last page. -/
theorem length_last_page (items : List α) {size : Nat} (hsize : 0 < size) :
    (page items size (items.length / size)).length = items.length % size := by
  have hdiv := Nat.div_add_mod items.length size
  have hmod := Nat.mod_lt items.length hsize
  rw [page, List.length_take, List.length_drop, Nat.mul_comm (items.length / size) size]
  omega

/-- The last page is all that is behind the full ones. -/
theorem last_page_eq (items : List α) {size : Nat} (hsize : 0 < size) :
    page items size (items.length / size) = items.drop (items.length / size * size) := by
  have hdiv := Nat.div_add_mod items.length size
  have hmod := Nat.mod_lt items.length hsize
  refine List.take_of_length_le ?_
  rw [List.length_drop, Nat.mul_comm (items.length / size) size]
  omega

/-- An item is appended to the page that is the last one before. -/
theorem page_append_last (items : List α) {size : Nat} (hsize : 0 < size) (item : α) :
    page (items ++ [item]) size (items.length / size) =
      page items size (items.length / size) ++ [item] := by
  have hdiv := Nat.div_add_mod items.length size
  have hmod := Nat.mod_lt items.length hsize
  have hle : items.length / size * size ≤ items.length := Nat.div_mul_le_self _ _
  rw [last_page_eq items hsize, page, List.drop_append_of_le_length hle]
  refine List.take_of_length_le ?_
  rw [List.length_append, List.length_drop, List.length_singleton,
    Nat.mul_comm (items.length / size) size]
  omega

/-- The last full page and the last page are the end of the list. -/
theorem pages_suffix (items : List α) {size : Nat} (hsize : 0 < size)
    (hfull : size ≤ items.length) :
    page items size (items.length / size - 1) ++ page items size (items.length / size) =
      items.drop ((items.length / size - 1) * size) := by
  have hpos : 1 ≤ items.length / size := (Nat.one_le_div_iff hsize).mpr hfull
  have hstep : (items.length / size - 1) * size + size = items.length / size * size := by
    rw [← Nat.succ_mul]
    congr 1
    omega
  rw [last_page_eq items hsize, page, ← hstep, ← List.drop_drop]
  exact List.take_append_drop size _

/-- The last full page is full. -/
theorem length_page_before (items : List α) {size : Nat} (hsize : 0 < size)
    (hfull : size ≤ items.length) :
    (page items size (items.length / size - 1)).length = size := by
  have hpos : 1 ≤ items.length / size := (Nat.one_le_div_iff hsize).mpr hfull
  have hstep : (items.length / size - 1) * size + size = items.length / size * size := by
    rw [← Nat.succ_mul]
    congr 1
    omega
  have hle : items.length / size * size ≤ items.length := Nat.div_mul_le_self _ _
  rw [page, List.length_take, List.length_drop]
  omega

end ProofLib
