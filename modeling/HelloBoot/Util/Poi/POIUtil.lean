import HelloBoot.Java.LinkedHashMap
import HelloBoot.Java.Objects
import HelloBoot.Java.Utf16

/-!
# `POIUtil`

A sheet is a list of rows and a row a list of cells, by index; a row or a cell may be
missing. `importExcel` turns every row into a map. The keys of the first row are the
column indexes, and this map is the header for the rows that follow: their cells stand
under the title of the column, or under its index where the title is missing or blank.
`exportExcel` writes a row of titles and one row for each map, with the columns in the
order of `headMap`.

POI is a parameter. A workbook of Excel 2007 has 1048576 rows of 16384 cells, and a cell holds
32767 characters; POI refuses what is beyond that.
-/

namespace HelloBoot.POIUtil

/-- A cell. A numeric cell is kept as the text that the formats for dates and numbers
make of it; an error cell has no string value. -/
inductive XSSFCell where
  | boolean (b : Bool)
  | formula (text : String)
  | numeric (text : String)
  | string (text : String)
  | blank
  | error
  deriving DecidableEq

abbrev Row := List (Option XSSFCell)

abbrev Sheet := List (Option Row)

abbrev RowMap := LinkedHashMap String (Option Obj)

/-- `map.get(key)`, which is null for an absent key too. -/
def value (map : RowMap) (key : String) : Option Obj := (map.get key).join

def getCellValueStr : Option XSSFCell → Except Throwable (Option String)
  | none => .ok none
  | some (.boolean b) => .ok (some (if b then "true" else "false"))
  | some (.formula text) | some (.numeric text) | some (.string text) => .ok (some text)
  | some .blank => .ok (some "")
  | some .error => .error .unchecked

/-- The key of column `j` in `dealRowData`. -/
def columnKey (headerMap : RowMap) (j : ℕ) : Except Throwable String := do
  let key ←
    if 0 < headerMap.entries.length then Obj.castString (value headerMap (decimal j))
    else pure none
  match key with
  | some key => return if isBlank key then decimal j else key
  | none => return decimal j

/-- The body of the loop of `dealRowData`, for a cell and its index. -/
def dealCell (headerMap rowData : RowMap) (cell : Option XSSFCell × ℕ) :
    Except Throwable RowMap := do
  let cellValueStr ← getCellValueStr cell.1
  let key ← columnKey headerMap cell.2
  return rowData.put key (cellValueStr.map .string)

def dealRowData (row : Row) (headerMap : RowMap) : Except Throwable RowMap :=
  row.zipIdx.foldlM (dealCell headerMap) LinkedHashMap.empty

/-- The body of the loop of `importExcel`, for row `i`. -/
def importRow (startRow : ℕ) (useHeadName : Bool) (acc : RowMap × List RowMap)
    (row : Option Row × ℕ) : Except Throwable (RowMap × List RowMap) :=
  match row.1 with
  | none => return acc
  | some cells => do
      let rowData ← dealRowData cells acc.1
      return (if useHeadName ∧ row.2 = startRow then rowData else acc.1, acc.2 ++ [rowData])

/-- `importExcel(inputStream, startRow, useHeadName)` for a file with the given first
sheet. -/
def importExcel (sheet : Sheet) (startRow : ℕ) (useHeadName : Bool) :
    Except Throwable (List RowMap) := do
  let acc ← ((sheet.drop startRow).zipIdx startRow).foldlM (importRow startRow useHeadName)
    (LinkedHashMap.empty, [])
  return acc.2

/-- `headOrder`: the key of each column, under the index of the column. -/
def headOrder (headMap : RowMap) : LinkedHashMap String String :=
  LinkedHashMap.empty.putAll (headMap.keys.zipIdx.map fun key => (decimal key.2, key.1))

/-- What the methods call of POI, on the workbook that they are given; `createSheet` makes the styles
of the cells as well. A string cell holds the text `reread text` after the workbook has been written
to a file and the file has been opened. -/
structure Poi where
  createSheet : (sheetName : Option String) → Except Throwable Unit
  createRow : (rownum : ℕ) → Except Throwable Unit
  createCell : (columnIndex : ℕ) → Except Throwable Unit
  setCellValue : (value : Option String) → Except Throwable XSSFCell
  reread : String → String
  createRow_iff : ∀ rownum, createRow rownum = .ok () ↔ rownum ≤ 1048575
  createCell_iff : ∀ columnIndex, createCell columnIndex = .ok () ↔ columnIndex ≤ 16383
  setCellValue_null : setCellValue none = .ok .blank
  setCellValue_iff : ∀ value cell, setCellValue (some value) = .ok cell ↔
    (Utf16.utf16 value).length ≤ 32767 ∧ cell = .string value

def Poi.rereadCell (poi : Poi) : XSSFCell → XSSFCell
  | .string text => .string (poi.reread text)
  | cell => cell

def Poi.reopened (poi : Poi) (sheet : Sheet) : Sheet :=
  sheet.map (Option.map (List.map (Option.map poi.rereadCell)))

section Export

variable (poi : Poi)

/-- `createCell(j)` and `cell.setCellValue(value)`. -/
def newCell (j : ℕ) (value : Option String) : Except Throwable (Option XSSFCell) := do
  poi.createCell j
  return some (← poi.setCellValue value)

def headRow (headMap : RowMap) : Except Throwable Row :=
  headMap.entries.zipIdx.mapM fun next => newCell poi next.2 (some (Obj.valueOf next.1.2))

def dataRow (headMap map : RowMap) : Except Throwable Row :=
  (List.range headMap.entries.length).mapM fun j => do
    let dataKey := (headOrder headMap).get (decimal j)
    let obj ← Obj.castString (dataKey.bind (value map))
    newCell poi j obj

/-- `exportExcel(workbook, headMap, dataList, sheetName, startRowNo)`: the sheet that is added to
the workbook. -/
def exportExcel (headMap : RowMap) (dataList : List RowMap) (sheetName : Option String)
    (startRowNo : ℕ) : Except Throwable Sheet := do
  poi.createSheet sheetName
  poi.createRow startRowNo
  let head ← headRow poi headMap
  let dataRows ← dataList.zipIdx.mapM fun map => do
    poi.createRow (map.2 + 1 + startRowNo)
    dataRow poi headMap map.1
  return List.replicate startRowNo none ++ some head :: dataRows.map some

end Export

def defaultSheetName : String := "Sheet1"

def getOldHeadMap (map : RowMap) : RowMap :=
  LinkedHashMap.empty.putAll (map.entries.map fun e => (Obj.valueOf e.2, e.2))

/-- POI, on a workbook that takes every name for a sheet. -/
def excel2007 : Poi where
  createSheet _ := .ok ()
  createRow rownum :=
    if rownum ≤ 1048575 then .ok () else .error (.illegalArgument "Invalid row number")
  createCell columnIndex :=
    if columnIndex ≤ 16383 then .ok () else .error (.illegalArgument "Invalid column index")
  setCellValue
    | none => .ok .blank
    | some value =>
        if (Utf16.utf16 value).length ≤ 32767 then .ok (.string value)
        else .error (.illegalArgument "The maximum length of cell contents")
  reread := id
  createRow_iff rownum := by simp
  createCell_iff columnIndex := by simp
  setCellValue_null := rfl
  setCellValue_iff value cell := by
    by_cases h : (Utf16.utf16 value).length ≤ 32767 <;> simp [h, eq_comm]

end HelloBoot.POIUtil
