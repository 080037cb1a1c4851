import HelloBoot.Util.Poi.Columns

/-!
# Rows with values of any class

The titles are written with `String.valueOf`, but the values of a row are cast to `String`.
So what fits into a sheet is exported if and only if the values under the keys of `headMap` are
strings or null (`exportExcel_eq_exported_iff`); otherwise the export throws.
-/

namespace HelloBoot.POIUtil

/-- The export writes the titles and, for every row, the texts under the keys of `headMap`
if and only if the values under these keys are strings or null, the workbook takes a sheet of the
name, and all fits into the sheet. -/
theorem exportExcel_eq_exported_iff (poi : Poi) (headMap : RowMap) (dataList : List RowMap)
    (sheetName : Option String) (startRowNo : ℕ) :
    exportExcel poi headMap dataList sheetName startRowNo =
        .ok (exported headMap dataList startRowNo) ↔
      (∀ map ∈ dataList, ∀ key ∈ headMap.keys, Castable (value map key)) ∧
        poi.createSheet sheetName = .ok () ∧ FitsSheet headMap dataList startRowNo := by
  rw [exportExcel_eq_ok_iff, and_iff_left rfl, ← and_assoc, and_comm]

/-- The header of the calendar that `DateTest` exports. -/
def calendarHead : RowMap where
  entries := [("日期", some (.string "日期")), ("周几", some (.string "周几"))]
  nodup := by decide

/-- Its first row: the day of the week is an `Integer`. -/
def calendarRow : RowMap where
  entries := [("日期", some (.string "2024/10/08")), ("周几", some (.other "2"))]
  nodup := by decide

theorem not_exportExcel_eq_exported_of_calendar :
    exportExcel excel2007 calendarHead [calendarRow] (some defaultSheetName) 0 =
        .error .classCast ∧
      exportExcel excel2007 calendarHead [calendarRow] (some defaultSheetName) 0 ≠
        .ok (exported calendarHead [calendarRow] 0) := by
  have hthrows : exportExcel excel2007 calendarHead [calendarRow] (some defaultSheetName) 0 =
      .error .classCast := by rfl
  refine ⟨hthrows, fun h => ?_⟩
  rw [hthrows] at h
  cases h

end HelloBoot.POIUtil
