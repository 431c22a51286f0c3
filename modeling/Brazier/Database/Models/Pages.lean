import Brazier.Database.Models.Aggregates
import Brazier.ProofLib.Pages

/-!
# Pages of models

The window of rows that `paginate` of `include/brazier/Database/Models/Model.hpp` asks for. Its
offset is an `int` product, so a page far behind can come out as another one.
-/

namespace Brazier

open ProofLib

namespace Model

/-- What the server returns of its rows for a `LIMIT` and an `OFFSET`. Negative ones are errors. -/
def limitOffset {α : Type} (limit offset : Int) (rows : List α) : Option (List α) :=
  if limit < 0 ∨ offset < 0 then none else some ((rows.drop offset.toNat).take limit.toNat)

/-- The text of the query for a page, with an offset. -/
def pageSql (cls : ModelClass) (condition : Text) (perPage offset : Int) : Text :=
  ("SELECT " : Text) ++ ("*" : Text) ++ (" FROM " : Text) ++ cls.tableName ++
    ((" WHERE " : Text) ++ condition) ++ ((" LIMIT " : Text) ++ intText perPage) ++
    ((" OFFSET " : Text) ++ intText offset)

/-- The query asks for the page: its offset is the product of the numbers, and for positive ones the
server returns the rows of the page, whatever the rows are. -/
structure RequestsPage (cls : ModelClass) (condition : Text) (page perPage : Int) : Prop where
  offset : (pageQuery cls page perPage condition).get =
    pageSql cls condition perPage ((page - 1) * perPage)
  rows : 1 ≤ page → 1 ≤ perPage → ∀ {α : Type} (rows : List α),
    limitOffset perPage (pageOffset page perPage) rows =
      some (ProofLib.page rows perPage.toNat (page - 1).toNat)

/-- The limit and the offset stand at the end. -/
theorem get_limit_offset {b : SQLQueryBuilder} (hinsert : b.insertValues = ∅)
    (hupdate : b.updateValues = ∅) (hdelete : b.isDeleteQuery = false) (hlimit : b.limit = [])
    (hoffset : b.offset = []) (limit offset : Int) :
    ((b.setLimit limit).setOffset offset).get =
      b.get ++ ((" LIMIT " : Text) ++ intText limit) ++
        ((" OFFSET " : Text) ++ intText offset) := by
  have hselect : ((b.setLimit limit).setOffset offset).get =
      ((b.setLimit limit).setOffset offset).selectText :=
    SQLQueryBuilder.get_of_select hinsert hupdate hdelete
  have htext : ((b.setLimit limit).setOffset offset).selectText =
      b.selectText ++ ((" LIMIT " : Text) ++ intText limit) ++
        ((" OFFSET " : Text) ++ intText offset) := by
    unfold SQLQueryBuilder.selectText
    simp only [hlimit, hoffset, List.append_nil]
    rfl
  rw [hselect, htext, SQLQueryBuilder.get_of_select hinsert hupdate hdelete]

/-- The text of the query. -/
theorem get_pageQuery (cls : ModelClass) (page perPage : Int) (condition : Text) :
    (pageQuery cls page perPage condition).get =
      pageSql cls condition perPage (pageOffset page perPage) := by
  have hwhere := SQLQueryBuilder.where_of_first (b := SQLQueryBuilder.ofTable cls.tableName)
    rfl condition "AND"
  have hget := SQLQueryBuilder.get_select_where cls.tableName condition "AND"
  have hpage : (pageQuery cls page perPage condition).get =
      ((SQLQueryBuilder.ofTable cls.tableName).where condition "AND").get ++
        ((" LIMIT " : Text) ++ intText perPage) ++
        ((" OFFSET " : Text) ++ intText (pageOffset page perPage)) := by
    rewrite [pageQuery, hwhere]
    exact get_limit_offset rfl rfl rfl rfl rfl perPage _
  rewrite [hpage, hget]
  rfl

/-- The offset is seen in the text. -/
theorem pageSql_inj {cls : ModelClass} {perPage offset offset' : Int} {condition : Text} :
    pageSql cls condition perPage offset = pageSql cls condition perPage offset' ↔
      offset = offset' := by
  constructor
  · intro h
    exact intText_injective (List.append_cancel_left (List.append_cancel_left h))
  · intro h
    rw [h]

/-- The first difference may wrap as well. -/
theorem pageOffset_eq (page perPage : Int) :
    pageOffset page perPage = wrapInt ((page - 1) * perPage) :=
  Int.bmod_mul_bmod

/-- The offset is the product exactly when the product fits an `int`. -/
theorem get_pageQuery_iff (cls : ModelClass) (page perPage : Int) (condition : Text) :
    (pageQuery cls page perPage condition).get =
        pageSql cls condition perPage ((page - 1) * perPage) ↔
      IsInt ((page - 1) * perPage) := by
  rw [get_pageQuery, pageSql_inj, pageOffset_eq, wrapInt_eq_iff]

/-- A product that fits is the position of the first row of the page. -/
theorem limitOffset_page {α : Type} {page perPage : Int} (hpage : 1 ≤ page)
    (hperPage : 1 ≤ perPage) (hfits : IsInt ((page - 1) * perPage)) (rows : List α) :
    limitOffset perPage (pageOffset page perPage) rows =
      some (ProofLib.page rows perPage.toNat (page - 1).toNat) := by
  have hoffset : 0 ≤ (page - 1) * perPage := Int.mul_nonneg (by omega) (by omega)
  have htoNat : ((page - 1) * perPage).toNat = (page - 1).toNat * perPage.toNat :=
    Int.toNat_mul (by omega) (by omega)
  rw [pageOffset_eq, (wrapInt_eq_iff _).mpr hfits, limitOffset, if_neg (by omega), ProofLib.page,
    htoNat]

theorem requestsPage_iff (cls : ModelClass) (condition : Text) (page perPage : Int) :
    RequestsPage cls condition page perPage ↔ IsInt ((page - 1) * perPage) := by
  constructor
  · intro h
    exact (get_pageQuery_iff cls page perPage condition).mp h.offset
  · intro hfits
    exact {
      offset := (get_pageQuery_iff cls page perPage condition).mpr hfits
      rows := fun hpage hperPage => limitOffset_page hpage hperPage hfits }

/-! ## All pages -/

/-- The rows of the page with a number from zero, as the server returns them. -/
def pageRows {α : Type} (rows : List α) (perPage : Int) (k : Nat) : List α :=
  (limitOffset perPage (pageOffset (k + 1) perPage) rows).getD []

/-- As long as the products fit, the pages are those of the rows. -/
theorem pageRows_eq {α : Type} {perPage : Int} (hperPage : 1 ≤ perPage) {k : Nat}
    (hfits : IsInt (k * perPage)) (rows : List α) :
    pageRows rows perPage k = ProofLib.page rows perPage.toNat k := by
  have hk : ((k : Int) + 1 - 1) = k := by omega
  rw [pageRows, limitOffset_page (by omega) hperPage (by rwa [hk]), hk, Int.toNat_natCast]
  rfl

/-- If the product of the last page fits, those of the others do. -/
theorem isInt_of_last {perPage : Int} (hperPage : 1 ≤ perPage) {count k : Nat} (hk : k < count)
    (hlast : IsInt (((count : Int) - 1) * perPage)) : IsInt (k * perPage) := by
  have hnonneg : 0 ≤ (k : Int) * perPage := Int.mul_nonneg (by omega) (by omega)
  have hle : (k : Int) * perPage ≤ ((count : Int) - 1) * perPage :=
    Int.mul_le_mul_of_nonneg_right (by omega) (by omega)
  unfold IsInt at hlast ⊢
  omega

/-- A page is asked for exactly when the product of its offset fits an `int`. Where the products of
all pages fit, the pages hold every row once, in order, and no row is on two of them. -/
theorem pages_iff (cls : ModelClass) (condition : Text) :
    (∀ page perPage : Int,
      RequestsPage cls condition page perPage ↔ IsInt ((page - 1) * perPage)) ∧
    ∀ {α : Type} (rows : List α) (perPage : Int), 1 ≤ perPage →
      IsInt (((pageCount rows perPage.toNat : Nat) - 1 : Int) * perPage) →
        ((List.range (pageCount rows perPage.toNat)).map (pageRows rows perPage)).flatten = rows ∧
        (rows.Nodup → ∀ j < pageCount rows perPage.toNat, ∀ k < pageCount rows perPage.toNat,
          j ≠ k → (pageRows rows perPage j).Disjoint (pageRows rows perPage k)) := by
  refine ⟨requestsPage_iff cls condition, ?_⟩
  intro α rows perPage hperPage hlast
  have hpages : ∀ k < pageCount rows perPage.toNat,
      pageRows rows perPage k = ProofLib.page rows perPage.toNat k := by
    intro k hk
    exact pageRows_eq hperPage (isInt_of_last hperPage hk hlast) rows
  refine ⟨?_, ?_⟩
  · rw [List.map_congr_left fun k hk => hpages k (List.mem_range.mp hk)]
    exact flatten_pages rows (by omega)
  · intro hnodup j hj k hk hne
    rw [hpages j hj, hpages k hk]
    exact disjoint_page hnodup hne

/-- The pages of five rows. -/
theorem pages_of_five :
    ((List.range (pageCount [1, 2, 3, 4, 5] 2)).map (pageRows [1, 2, 3, 4, 5] 2)).flatten =
      [1, 2, 3, 4, 5] :=
  ((pages_iff users "1=1").2 [1, 2, 3, 4, 5] 2 (by decide) (by decide)).1

/-- Page 65537 of pages of 65536 rows comes out as the first one. -/
theorem far_page_not_requested :
    (pageQuery users 65537 65536 "1=1").get = pageSql users "1=1" 65536 0 ∧
      ¬ RequestsPage users "1=1" 65537 65536 := by
  refine ⟨?_, ?_⟩
  · have hoffset : pageOffset 65537 65536 = 0 := by decide
    rw [get_pageQuery, hoffset]
  · rw [requestsPage_iff]
    decide

end Model

end Brazier
