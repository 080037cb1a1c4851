import Mathlib.Algebra.Order.Ring.Int
import Mathlib.Data.List.Nodup
import Mathlib.Order.Lattice

/-!
# The items of a pager

`page.js` shows a list in pages: the items for the first page and the page before, the numbers of
some pages around the current one, and the items for the page after and the last page. An item that
leads nowhere is disabled and the one of the current page is marked as active.

The numbers start with the one that puts the current page in the middle, or as near to that as the
first and the last page allow (`miniPageNumber_eq`), so the current page is among them if there is
such a page (`mem_pageNumbers`).

All numbers are integers below `2 ^ 53`, which the numbers of JavaScript represent. The settings are
at most `10 ^ 6`: then a quotient is not so small that its text, which `parseInt` reads, has an
exponent, and `parseInt` takes the integer part of it.
-/

namespace HelloBoot.Page

/-- The settings of `page`. They are positive, and `initPage` replaces them by positive ones only;
those that are no integers, or larger ones, are left out here. -/
structure Settings where
  maxshowpageitem : ℤ := 5
  pagelistcount : ℤ := 10
  maxshowpageitem_pos : 0 < maxshowpageitem := by decide
  pagelistcount_pos : 0 < pagelistcount := by decide
  maxshowpageitem_le : maxshowpageitem ≤ 1000000 := by decide
  pagelistcount_le : pagelistcount ≤ 1000000 := by decide

inductive ItemClass where
  | pageItem
  | pageItemDisable
  | pageItemActive
  deriving DecidableEq

/-- What an item is for, its `page-rel`. -/
inductive Rel where
  | firstpage
  | prepage
  | itempage
  | nextpage
  | lastpage
  deriving DecidableEq

structure Item where
  cls : ItemClass
  pageData : ℤ
  rel : Rel
  deriving DecidableEq

variable (page : Settings)

/-- The number of pages, as `initWithUl` computes it. -/
def pageCount (listCount : ℤ) : ℤ :=
  if listCount > 0 then
    if listCount % page.pagelistcount > 0 then listCount / page.pagelistcount + 1
    else listCount / page.pagelistcount
  else 1

def miniPageNumber (pageCount currentPage : ℤ) : ℤ :=
  let half := page.maxshowpageitem / 2
  if currentPage - half > 0 ∧ currentPage + half ≤ pageCount then currentPage - half
  else if currentPage - half > 0 ∧ currentPage + half > pageCount then
    let miniPageNumber := pageCount - page.maxshowpageitem + 1
    if miniPageNumber ≤ 0 then 1 else miniPageNumber
  else 1

def showPageNum (pageCount : ℤ) : ℤ :=
  if pageCount < page.maxshowpageitem then pageCount else page.maxshowpageitem

def numberItem (currentPage pageNumber : ℤ) : Item :=
  ⟨if pageNumber = currentPage then .pageItemActive else .pageItem, pageNumber, .itempage⟩

def pageNumbers (pageCount currentPage : ℤ) : List ℤ :=
  (List.range (showPageNum page pageCount).toNat).map fun i : ℕ =>
    miniPageNumber page pageCount currentPage + i

def getPageListModel (pageCount currentPage : ℤ) : List Item :=
  let prePage := currentPage - 1
  let nextPage := currentPage + 1
  let prePageClass := if prePage ≤ 0 then .pageItemDisable else .pageItem
  let nextPageClass := if nextPage > pageCount then .pageItemDisable else .pageItem
  [⟨prePageClass, 1, .firstpage⟩, ⟨prePageClass, prePage, .prepage⟩] ++
    (pageNumbers page pageCount currentPage).map (numberItem currentPage) ++
    [⟨nextPageClass, nextPage, .nextpage⟩, ⟨nextPageClass, pageCount, .lastpage⟩]

variable {page} {n p q : ℤ}

/-- The pages hold all entries of the list, and one page fewer would not. -/
theorem pageCount_spec (page : Settings) {listCount : ℤ} (h : 0 < listCount) :
    (pageCount page listCount - 1) * page.pagelistcount < listCount ∧
      listCount ≤ pageCount page listCount * page.pagelistcount := by
  have hpos := page.pagelistcount_pos
  have hdiv := Int.mul_ediv_add_emod listCount page.pagelistcount
  have hlt := Int.emod_lt_of_pos listCount hpos
  have hmod := Int.emod_nonneg listCount hpos.ne'
  unfold pageCount
  rw [if_pos h]
  split
  case isTrue =>
      rw [add_sub_cancel_right, add_mul, one_mul, mul_comm]
      omega
  case isFalse =>
      rw [sub_mul, one_mul, mul_comm]
      omega

/-- The first number puts the current page in the middle, within the bounds. -/
theorem miniPageNumber_eq (page : Settings) (n p : ℤ) :
    miniPageNumber page n p =
      max 1 (min (p - page.maxshowpageitem / 2) (n - page.maxshowpageitem + 1)) := by
  have hpos := page.maxshowpageitem_pos
  unfold miniPageNumber
  simp only []
  split_ifs <;> omega

theorem mem_pageNumbers_iff :
    q ∈ pageNumbers page n p ↔
      miniPageNumber page n p ≤ q ∧ q < miniPageNumber page n p + showPageNum page n := by
  unfold pageNumbers
  rw [List.mem_map]
  constructor
  · rintro ⟨i, hi, rfl⟩
    rw [List.mem_range] at hi
    omega
  · rintro ⟨hle, hlt⟩
    exact ⟨(q - miniPageNumber page n p).toNat, List.mem_range.mpr (by omega), by omega⟩

theorem showPageNum_eq (page : Settings) (n : ℤ) :
    showPageNum page n = min n page.maxshowpageitem := by
  unfold showPageNum
  split <;> omega

theorem bounds_of_mem_pageNumbers (hq : q ∈ pageNumbers page n p) : 1 ≤ q ∧ q ≤ n := by
  rw [mem_pageNumbers_iff, miniPageNumber_eq, showPageNum_eq] at hq
  omega

theorem mem_pageNumbers (hone : 1 ≤ p) (hle : p ≤ n) : p ∈ pageNumbers page n p := by
  have hpos := page.maxshowpageitem_pos
  rw [mem_pageNumbers_iff, miniPageNumber_eq, showPageNum_eq]
  omega

theorem nodup_pageNumbers : (pageNumbers page n p).Nodup := by
  refine List.Nodup.map (fun i j hij => ?_) List.nodup_range
  simpa using hij

theorem mem_map_numberItem_iff {l : List ℤ} {item : Item} :
    item ∈ l.map (numberItem p) ↔
      item.cls = (if item.pageData = p then .pageItemActive else .pageItem) ∧
        item.rel = .itempage ∧ item.pageData ∈ l := by
  rw [List.mem_map]
  constructor
  · rintro ⟨a, ha, rfl⟩
    exact ⟨rfl, rfl, ha⟩
  · obtain ⟨cls, pageData, rel⟩ := item
    rintro ⟨hcls, hrel, hmem⟩
    exact ⟨pageData, hmem, Item.mk.injEq .. ▸ ⟨hcls.symm, rfl, hrel.symm⟩⟩

theorem mem_getPageListModel_iff {item : Item} :
    item ∈ getPageListModel page n p ↔
      item.cls = (if p - 1 ≤ 0 then .pageItemDisable else .pageItem) ∧
          (item.pageData = 1 ∧ item.rel = .firstpage ∨
            item.pageData = p - 1 ∧ item.rel = .prepage) ∨
        (item.cls = (if item.pageData = p then .pageItemActive else .pageItem) ∧
          item.rel = .itempage ∧ item.pageData ∈ pageNumbers page n p) ∨
        item.cls = (if p + 1 > n then .pageItemDisable else .pageItem) ∧
          (item.pageData = p + 1 ∧ item.rel = .nextpage ∨
            item.pageData = n ∧ item.rel = .lastpage) := by
  rw [getPageListModel, List.append_assoc, List.mem_append, List.mem_append,
    mem_map_numberItem_iff]
  obtain ⟨cls, pageData, rel⟩ := item
  simp only [List.mem_cons, List.not_mem_nil, Item.mk.injEq, or_false, ← and_or_left]

/-- An item can be clicked if and only if it leads to a page and not to the current one. -/
theorem cls_eq_pageItem_iff (hone : 1 ≤ p) (hle : p ≤ n) {item : Item}
    (hitem : item ∈ getPageListModel page n p) :
    item.cls = .pageItem ↔ 1 ≤ item.pageData ∧ item.pageData ≤ n ∧ item.pageData ≠ p := by
  rcases mem_getPageListModel_iff.mp hitem with ⟨hcls, hdata⟩ | ⟨hcls, -, hmem⟩ | ⟨hcls, hdata⟩
  · rw [hcls]
    split
    case isTrue =>
        refine iff_of_false nofun ?_
        omega
    case isFalse =>
        refine iff_of_true rfl ?_
        omega
  · have hbounds := bounds_of_mem_pageNumbers hmem
    rw [hcls]
    split
    case isTrue h => exact iff_of_false nofun fun hall => hall.2.2 h
    case isFalse h => exact iff_of_true rfl ⟨hbounds.1, hbounds.2, h⟩
  · rw [hcls]
    split
    case isTrue =>
        refine iff_of_false nofun ?_
        omega
    case isFalse =>
        refine iff_of_true rfl ?_
        omega

theorem filter_active (hone : 1 ≤ p) (hle : p ≤ n) :
    (getPageListModel page n p).filter (fun item => item.cls = .pageItemActive) =
      [⟨.pageItemActive, p, .itempage⟩] := by
  have hcls (b : Prop) [Decidable b] :
      decide ((if b then ItemClass.pageItemDisable else .pageItem) = .pageItemActive) = false := by
    split <;> rfl
  have hnumbers : ((pageNumbers page n p).map (numberItem p)).filter
      (fun item => item.cls = .pageItemActive) = [⟨.pageItemActive, p, .itempage⟩] := by
    have hfilter : (pageNumbers page n p).filter
        ((fun item => decide (item.cls = .pageItemActive)) ∘ numberItem p) = [p] := by
      have hactive : ((fun item : Item => decide (item.cls = .pageItemActive)) ∘ numberItem p) =
          fun q => decide (q = p) := by
        funext q
        by_cases hq : q = p <;> simp [numberItem, hq]
      rw [hactive, List.filter_eq, List.count_eq_one_of_mem nodup_pageNumbers
        (mem_pageNumbers hone hle)]
      rfl
    rw [List.filter_map, hfilter]
    simp [numberItem]
  unfold getPageListModel
  simp only [List.filter_append, List.filter_cons, List.filter_nil, hcls, hnumbers]
  rfl

theorem filter_itempage :
    ((getPageListModel page n p).filter fun item => item.rel = .itempage).map Item.pageData =
      pageNumbers page n p := by
  have hnumbers : ((pageNumbers page n p).map (numberItem p)).filter
      (fun item => item.rel = .itempage) = (pageNumbers page n p).map (numberItem p) := by
    refine List.filter_eq_self.mpr fun item hitem => ?_
    exact decide_eq_true (mem_map_numberItem_iff.mp hitem).2.1
  have hdata : Item.pageData ∘ numberItem p = id := rfl
  unfold getPageListModel
  simp only [List.filter_append, List.map_append, hnumbers, List.map_map, hdata, List.map_id]
  exact List.append_nil _

/-- For a page `p` of `n`, the numbers are as many consecutive pages as are to be shown, or all of
them, with `p` in the middle, or as near to it as the bounds allow. The one active item is that of
`p`, and an item can be clicked if and only if it leads to one of the pages other than `p`. -/
theorem getPageListModel_spec (page : Settings) (hone : 1 ≤ p) (hle : p ≤ n) :
    (∃ first : ℤ, ∃ count : ℕ,
      ((getPageListModel page n p).filter fun item => item.rel = .itempage).map Item.pageData =
        ((List.range count).map fun i : ℕ => first + i) ∧
      count = min n page.maxshowpageitem ∧
      first = max 1 (min (p - page.maxshowpageitem / 2) (n - page.maxshowpageitem + 1)) ∧
      first ≤ p ∧ p < first + count ∧ first + count ≤ n + 1) ∧
    (getPageListModel page n p).filter (fun item => item.cls = .pageItemActive) =
      [⟨.pageItemActive, p, .itempage⟩] ∧
    ∀ item ∈ getPageListModel page n p,
      item.cls = .pageItem ↔ 1 ≤ item.pageData ∧ item.pageData ≤ n ∧ item.pageData ≠ p := by
  refine ⟨⟨miniPageNumber page n p, (showPageNum page n).toNat, filter_itempage, ?_⟩,
    filter_active hone hle, fun item hitem => cls_eq_pageItem_iff hone hle hitem⟩
  have hpos := page.maxshowpageitem_pos
  rw [miniPageNumber_eq, showPageNum_eq]
  omega

theorem getPageListModel_spec_last :
    (getPageListModel {} 10 10).filter (fun item => item.cls = .pageItemActive) =
      [⟨.pageItemActive, 10, .itempage⟩] :=
  (getPageListModel_spec {} (by decide) (by decide)).2.1

end HelloBoot.Page
