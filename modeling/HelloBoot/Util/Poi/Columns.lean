import HelloBoot.Java.Loops
import HelloBoot.Util.Poi.POIUtil
import Mathlib.Data.List.ReduceOption

/-!
# What `importExcel` and `exportExcel` compute

As long as no cell is an error cell, a row is read as the list of its texts, and the
map for it puts these texts under the keys of their columns in turn (`dealRowData_eq`).
So the import of a sheet is the map for its first row, by index, and the maps for the
rows that follow, by title (`importExcel_eq`). The export writes the texts under the
keys of `headMap` in their order, or throws (`exportExcel_eq_ok_iff`).
-/

namespace HelloBoot.POIUtil

section Read

def cellText : Option XSSFCell → Option String
  | none | some .error => none
  | some (.boolean b) => some (if b then "true" else "false")
  | some (.formula text) | some (.numeric text) | some (.string text) => some text
  | some .blank => some ""

def texts (row : Row) : List (Option String) := row.map cellText

def Readable (row : Row) : Prop := some .error ∉ row

theorem getCellValueStr_eq {cell : Option XSSFCell} (h : cell ≠ some .error) :
    getCellValueStr cell = .ok (cellText cell) := by
  rcases cell with _ | ⟨_ | _ | _ | _ | _ | _⟩ <;> first | rfl | exact absurd rfl h

def columns (keyAt : ℕ → String) (texts : List (Option String)) : List (String × Option Obj) :=
  texts.zipIdx.map fun text => (keyAt text.2, text.1.map .string)

def rowMap (keyAt : ℕ → String) (texts : List (Option String)) : RowMap :=
  LinkedHashMap.empty.putAll (columns keyAt texts)

theorem foldlM_dealRowData {headerMap : RowMap} {keyAt : ℕ → String}
    (hkey : ∀ j, columnKey headerMap j = .ok (keyAt j)) {row : Row} (hrow : Readable row)
    (j : ℕ) (rowData : RowMap) :
    (row.zipIdx j).foldlM (dealCell headerMap) rowData =
      .ok (rowData.putAll (((texts row).zipIdx j).map fun text =>
        (keyAt text.2, text.1.map .string))) := by
  induction row generalizing j rowData with
  | nil => rfl
  | cons cell row ih =>
      obtain ⟨hcell, hrow⟩ := not_or.mp (mt List.mem_cons.mpr hrow)
      rw [List.zipIdx_cons, List.foldlM_cons, dealCell, getCellValueStr_eq (Ne.symm hcell), hkey]
      exact ih hrow (j + 1) _

theorem dealRowData_eq {headerMap : RowMap} {keyAt : ℕ → String}
    (hkey : ∀ j, columnKey headerMap j = .ok (keyAt j)) {row : Row} (hrow : Readable row) :
    dealRowData row headerMap = .ok (rowMap keyAt (texts row)) :=
  foldlM_dealRowData hkey hrow 0 LinkedHashMap.empty

theorem dealRowData_of_not_readable (headerMap : RowMap) {row : Row} (hrow : ¬ Readable row) :
    ∃ t, dealRowData row headerMap = .error t := by
  obtain ⟨j, hj⟩ := List.mem_iff_getElem?.mp (not_not.mp hrow)
  exact Loops.foldlM_error (f := dealCell headerMap) (List.mk_mem_zipIdx_iff_getElem?.mpr hj)
    (fun _ => ⟨_, rfl⟩) _

end Read

section Header

/-- The key of a column under a header with the given texts: the title, or the index
where the title is missing or blank. -/
def titleKey (titles : List (Option String)) (j : ℕ) : String :=
  match titles[j]?.join with
  | some title => if isBlank title then decimal j else title
  | none => decimal j

section MapSome

variable {titles : List String} {j : ℕ} {title : String}

theorem titleKey_of_not_blank (hj : titles[j]? = some title) (hblank : isBlank title = false) :
    titleKey (titles.map some) j = title := by
  simp [titleKey, hj, hblank]

theorem titleKey_of_blank (hj : titles[j]? = some title) (hblank : isBlank title = true) :
    titleKey (titles.map some) j = decimal j := by
  simp [titleKey, hj, hblank]

end MapSome

def headerMap (titles : List (Option String)) : RowMap := rowMap decimal titles

theorem columns_decimal (titles : List (Option String)) :
    columns decimal titles =
      (titles.map fun title => title.map Obj.string).zipIdx.map fun v => (decimal v.2, v.1) := by
  rw [columns, List.zipIdx_map, List.map_map]
  rfl

theorem entries_headerMap (titles : List (Option String)) :
    (headerMap titles).entries = columns decimal titles := by
  rw [headerMap, rowMap, columns_decimal]
  exact LinkedHashMap.entries_putAll_zipIdx decimal_injective _

theorem value_headerMap (titles : List (Option String)) (j : ℕ) :
    value (headerMap titles) (decimal j) = titles[j]?.join.map .string := by
  have hget := LinkedHashMap.get_putAll_zipIdx decimal_injective
    (titles.map fun title => title.map Obj.string) j
  rw [← columns_decimal] at hget
  rw [value, headerMap, rowMap, hget, List.getElem?_map]
  cases titles[j]? <;> rfl

theorem columnKey_empty (j : ℕ) : columnKey LinkedHashMap.empty j = .ok (decimal j) := rfl

theorem columnKey_headerMap (titles : List (Option String)) (j : ℕ) :
    columnKey (headerMap titles) j = .ok (titleKey titles j) := by
  rw [columnKey, entries_headerMap]
  cases titles with
  | nil => rfl
  | cons title titles =>
      rw [if_pos (by simp [columns]), value_headerMap, Obj.castString_map_string, titleKey]
      cases ((title :: titles)[j]?).join <;> rfl

end Header

section Import

/-- The maps that the import of a sheet with the first row `head` makes. -/
def importMaps (head : Row) (rest : Sheet) : List RowMap :=
  headerMap (texts head) ::
    rest.reduceOption.map fun row => rowMap (titleKey (texts head)) (texts row)

theorem importRow_some (startRow i : ℕ) (acc : RowMap × List RowMap) (cells : Row) :
    importRow startRow true acc (some cells, i) = do
      let rowData ← dealRowData cells acc.1
      return (if i = startRow then rowData else acc.1, acc.2 ++ [rowData]) := by
  simp [importRow]

theorem foldlM_importRow {startRow : ℕ} {titles : List (Option String)} {rest : Sheet}
    (hrest : ∀ row ∈ rest.reduceOption, Readable row) {i : ℕ} (hi : startRow < i)
    (maps : List RowMap) :
    (rest.zipIdx i).foldlM (importRow startRow true) (headerMap titles, maps) =
      .ok (headerMap titles,
        maps ++ rest.reduceOption.map fun row => rowMap (titleKey titles) (texts row)) := by
  induction rest generalizing i maps with
  | nil => simp [pure, Except.pure]
  | cons row rest ih =>
      rw [List.zipIdx_cons, List.foldlM_cons]
      cases row with
      | none => exact ih hrest (by omega) maps
      | some cells =>
          obtain ⟨hcells, hrest⟩ := List.forall_mem_cons.mp hrest
          have hstep : importRow startRow true (headerMap titles, maps) (some cells, i) =
              .ok (headerMap titles, maps ++ [rowMap (titleKey titles) (texts cells)]) := by
            rw [importRow_some, dealRowData_eq (columnKey_headerMap titles) hcells]
            simp [bind, Except.bind, pure, Except.pure, Nat.ne_of_gt hi]
          rw [hstep]
          simp only [bind, Except.bind]
          rw [ih hrest (by omega)]
          simp

/-- The import of a sheet without error cells, from the row of the titles on. -/
theorem importExcel_eq {head : Row} {rest : Sheet} (hhead : Readable head)
    (hrest : ∀ row ∈ rest.reduceOption, Readable row) (startRow : ℕ) :
    importExcel (List.replicate startRow none ++ some head :: rest) startRow true =
      .ok (importMaps head rest) := by
  have hfirst : importRow startRow true (LinkedHashMap.empty, []) (some head, startRow) =
      .ok (headerMap (texts head), [headerMap (texts head)]) := by
    rw [importRow_some, dealRowData_eq columnKey_empty hhead]
    simp [bind, Except.bind, pure, Except.pure, headerMap]
  rw [importExcel, List.drop_left' (List.length_replicate ..), List.zipIdx_cons, List.foldlM_cons,
    hfirst]
  simp only [bind, Except.bind]
  rw [foldlM_importRow hrest (Nat.lt_succ_self startRow)]
  rfl

theorem importExcel_of_not_readable {sheet : Sheet} {row : Row} (hmem : some row ∈ sheet)
    (hrow : ¬ Readable row) : ∃ t, importExcel sheet 0 true = .error t := by
  obtain ⟨i, hi⟩ := List.mem_iff_getElem?.mp hmem
  obtain ⟨t, ht⟩ := Loops.foldlM_error (f := importRow 0 true)
    (List.mk_mem_zipIdx_iff_getElem?.mpr hi)
    (fun acc => by
      obtain ⟨t, ht⟩ := dealRowData_of_not_readable acc.1 hrow
      exact ⟨t, by rw [importRow_some, ht]; rfl⟩) (LinkedHashMap.empty, [])
  exact ⟨t, by rw [importExcel, List.drop_zero, ht]; rfl⟩

end Import

section Export

def StringValued (map : RowMap) : Prop :=
  ∀ e ∈ map.entries, ∃ s : Option String, e.2 = s.map .string

def text (map : RowMap) (key : String) : Option String := (value map key).map Obj.toString

def titles (headMap : RowMap) : List String := headMap.entries.map fun e => Obj.valueOf e.2

theorem StringValued.value_eq {map : RowMap} (h : StringValued map) (key : String) :
    value map key = (text map key).map .string := by
  cases hget : map.get key with
  | none => simp [text, value, hget]
  | some v =>
      obtain ⟨s, hs⟩ := h _ (LinkedHashMap.get_eq_some_iff.mp hget)
      cases s <;> simp_all [text, value, Obj.toString]

theorem text_eq_some_iff {map : RowMap} (h : StringValued map) {key t : String} :
    text map key = some t ↔ map.get key = some (some (.string t)) := by
  have hvalue : value map key = some (.string t) ↔ map.get key = some (some (.string t)) :=
    Option.join_eq_some_iff
  rw [← hvalue, h.value_eq]
  simp

theorem dataRow_cell (headMap map : RowMap) {j : ℕ} {key : String}
    (hj : headMap.keys[j]? = some key) :
    ((headOrder headMap).get (decimal j)).bind (value map) = value map key := by
  rw [headOrder, LinkedHashMap.get_putAll_zipIdx decimal_injective, hj, Option.bind_some]

def cellOf : Option String → XSSFCell
  | none => .blank
  | some text => .string text

def titleRow (headMap : RowMap) : Row := (titles headMap).map fun title => some (.string title)

def textRow (headMap map : RowMap) : Row := headMap.keys.map fun key => some (cellOf (text map key))

/-- What the export writes when every row is written with its texts. -/
def exported (headMap : RowMap) (dataList : List RowMap) (startRowNo : ℕ) : Sheet :=
  List.replicate startRowNo none ++ some (titleRow headMap) ::
    dataList.map fun map => some (textRow headMap map)

def Castable (v : Option Obj) : Prop := ∃ s : Option String, v = s.map .string

def FitsCell (text : Option String) : Prop := ∀ t ∈ text, (Utf16.utf16 t).length ≤ 32767

instance : DecidablePred FitsCell := fun text => inferInstanceAs (Decidable (∀ t ∈ text, _))

structure FitsSheet (headMap : RowMap) (dataList : List RowMap) (startRowNo : ℕ) : Prop where
  rows : startRowNo + dataList.length ≤ 1048575
  columns : headMap.entries.length ≤ 16384
  titles : ∀ title ∈ titles headMap, FitsCell (some title)
  texts : ∀ map ∈ dataList, ∀ key ∈ headMap.keys, FitsCell (text map key)

theorem Castable.value_eq {map : RowMap} {key : String} (h : Castable (value map key)) :
    value map key = (text map key).map .string := by
  obtain ⟨s, hs⟩ := h
  rw [text, hs]
  cases s <;> rfl

theorem StringValued.castable {map : RowMap} (h : StringValued map) (key : String) :
    Castable (value map key) := ⟨_, h.value_eq key⟩

theorem castString_value_eq_ok_iff {map : RowMap} {key : String} {obj : Option String} :
    Obj.castString (value map key) = .ok obj ↔ Castable (value map key) ∧ obj = text map key := by
  constructor
  · intro h
    have hcast : Castable (value map key) := by
      rcases hvalue : value map key with _ | ⟨t⟩ | ⟨t⟩
      · exact ⟨none, rfl⟩
      · exact ⟨some t, rfl⟩
      · rw [hvalue] at h
        cases h
    rw [hcast.value_eq, Obj.castString_map_string] at h
    exact ⟨hcast, (Except.ok.inj h).symm⟩
  · rintro ⟨hcast, rfl⟩
    rw [hcast.value_eq, Obj.castString_map_string]

section Cells

variable (poi : Poi)

theorem setCellValue_eq_ok_iff (value : Option String) (cell : XSSFCell) :
    poi.setCellValue value = .ok cell ↔ FitsCell value ∧ cell = cellOf value := by
  cases value with
  | none =>
      rw [poi.setCellValue_null, Except.ok.injEq]
      exact ⟨fun h => ⟨nofun, h.symm⟩, fun h => h.2.symm⟩
  | some text =>
      rw [poi.setCellValue_iff]
      exact and_congr_left' ⟨fun h t ht => Option.some.inj ht ▸ h, fun h => h text rfl⟩

theorem newCell_eq_ok_iff (j : ℕ) (value : Option String) (cell : Option XSSFCell) :
    newCell poi j value = .ok cell ↔
      (j ≤ 16383 ∧ FitsCell value) ∧ cell = some (cellOf value) := by
  constructor
  · intro h
    obtain ⟨_, hcreate, h⟩ := Loops.exists_of_bind_eq_ok h
    obtain ⟨cell', hset, h⟩ := Loops.exists_of_bind_eq_ok h
    obtain ⟨hfits, rfl⟩ := (setCellValue_eq_ok_iff poi value cell').mp hset
    exact ⟨⟨(poi.createCell_iff j).mp hcreate, hfits⟩, (Except.ok.inj h).symm⟩
  · rintro ⟨⟨hj, hfits⟩, rfl⟩
    rw [newCell, (poi.createCell_iff j).mpr hj,
      (setCellValue_eq_ok_iff poi value _).mpr ⟨hfits, rfl⟩]
    rfl

/-- Columns and rows are numbered from 0. -/
theorem forall_zipIdx_iff {α : Type*} (l : List α) (n bound : ℕ) (p : α → Prop) :
    (∀ a ∈ l.zipIdx, a.2 + n ≤ bound ∧ p a.1) ↔
      (l = [] ∨ l.length + n ≤ bound + 1) ∧ ∀ a ∈ l, p a := by
  constructor
  · intro h
    refine ⟨?_, fun a ha => ?_⟩
    · cases l with
      | nil => exact .inl rfl
      | cons a l =>
          have hlast : ((a :: l)[l.length], l.length) ∈ (a :: l).zipIdx :=
            List.mk_mem_zipIdx_iff_getElem?.mpr (List.getElem?_eq_getElem (by simp))
          have hle := (h _ hlast).1
          rw [List.length_cons]
          exact .inr (by omega)
    · obtain ⟨j, hj⟩ := List.mem_iff_getElem?.mp ha
      exact (h (a, j) (List.mk_mem_zipIdx_iff_getElem?.mpr hj)).2
  · rintro ⟨hlength, hp⟩ ⟨a, j⟩ ha
    have hj := List.mk_mem_zipIdx_iff_getElem?.mp ha
    have hlt := (List.getElem?_eq_some_iff.mp hj).1
    refine ⟨?_, hp a (List.mem_of_getElem? hj)⟩
    rcases hlength with rfl | hlength
    · exact absurd hlt (Nat.not_lt_zero j)
    · change j + n ≤ bound
      omega

theorem headRow_eq_ok_iff (headMap : RowMap) (row : Row) :
    headRow poi headMap = .ok row ↔
      (headMap.entries.length ≤ 16384 ∧ ∀ title ∈ titles headMap, FitsCell (some title)) ∧
        row = titleRow headMap := by
  rw [headRow, Loops.mapM_eq_ok_iff row fun next _ cell =>
    newCell_eq_ok_iff poi next.2 (some (Obj.valueOf next.1.2)) cell]
  have hall := forall_zipIdx_iff headMap.entries 0 16383
    fun e => FitsCell (some (Obj.valueOf e.2))
  have hlength : headMap.entries = [] ∨ headMap.entries.length + 0 ≤ 16383 + 1 ↔
      headMap.entries.length ≤ 16384 :=
    or_iff_right_of_imp fun h => by rw [h]; exact Nat.zero_le _
  rw [hlength] at hall
  have hrow : headMap.entries.zipIdx.map (fun next => some (cellOf (some (Obj.valueOf next.1.2)))) =
      titleRow headMap := by
    conv_rhs => rw [titleRow, titles, ← List.zipIdx_map_fst 0 headMap.entries]
    rw [List.map_map, List.map_map]
    rfl
  rw [hrow]
  refine and_congr_left' (hall.trans (and_congr_right' ?_))
  rw [titles, List.forall_mem_map]

theorem dataRow_eq_ok_iff (headMap map : RowMap) (hcolumns : headMap.entries.length ≤ 16384)
    (row : Row) :
    dataRow poi headMap map = .ok row ↔
      (∀ key ∈ headMap.keys, Castable (value map key) ∧ FitsCell (text map key)) ∧
        row = textRow headMap map := by
  have hlength : headMap.keys.length = headMap.entries.length := List.length_map ..
  have hcell : ∀ j ∈ List.range headMap.entries.length, ∀ cell, (do
      let dataKey := (headOrder headMap).get (decimal j)
      let obj ← Obj.castString (dataKey.bind (value map))
      newCell poi j obj : Except Throwable (Option XSSFCell)) = .ok cell ↔
        (∀ key ∈ headMap.keys[j]?, Castable (value map key) ∧ FitsCell (text map key)) ∧
          cell = headMap.keys[j]?.bind fun key => some (cellOf (text map key)) := by
    intro j hj cell
    have hlt : j < headMap.keys.length := hlength ▸ List.mem_range.mp hj
    have hkey := List.getElem?_eq_getElem hlt
    rw [hkey, Option.bind_some]
    simp only [dataRow_cell headMap map hkey, Option.mem_some_iff, forall_eq']
    constructor
    · intro h
      obtain ⟨obj, hobj, h⟩ := Loops.exists_of_bind_eq_ok h
      obtain ⟨hcast, rfl⟩ := castString_value_eq_ok_iff.mp hobj
      obtain ⟨⟨-, hfits⟩, rfl⟩ := (newCell_eq_ok_iff poi j _ cell).mp h
      exact ⟨⟨hcast, hfits⟩, rfl⟩
    · rintro ⟨⟨hcast, hfits⟩, rfl⟩
      rw [castString_value_eq_ok_iff.mpr ⟨hcast, rfl⟩]
      exact (newCell_eq_ok_iff poi j _ _).mpr ⟨⟨by omega, hfits⟩, rfl⟩
  rw [dataRow, Loops.mapM_eq_ok_iff row hcell]
  refine and_congr ⟨fun h key hkey => ?_, fun h j _ key hkey => ?_⟩ (Eq.congr_right ?_)
  · obtain ⟨j, hj⟩ := List.mem_iff_getElem?.mp hkey
    have hlt := (List.getElem?_eq_some_iff.mp hj).1
    exact h j (List.mem_range.mpr (hlength ▸ hlt)) key hj
  · exact h key (List.mem_of_getElem? hkey)
  · refine List.ext_getElem (by simp [textRow, hlength]) fun j _ hj => ?_
    have hlt : j < headMap.keys.length := by simpa [textRow] using hj
    simp [textRow, List.getElem?_eq_getElem hlt]

end Cells

variable {headMap : RowMap}

theorem exportRow_eq_ok_iff (poi : Poi) (startRowNo : ℕ) (hcolumns : headMap.entries.length ≤ 16384)
    (map : RowMap × ℕ) (row : Row) :
    (do
      poi.createRow (map.2 + 1 + startRowNo)
      dataRow poi headMap map.1 : Except Throwable Row) = .ok row ↔
        (map.2 + (1 + startRowNo) ≤ 1048575 ∧
          ∀ key ∈ headMap.keys, Castable (value map.1 key) ∧ FitsCell (text map.1 key)) ∧
        row = textRow headMap map.1 := by
  rw [← Nat.add_assoc]
  constructor
  · intro h
    obtain ⟨_, hcreate, h⟩ := Loops.exists_of_bind_eq_ok h
    obtain ⟨hkeys, rfl⟩ := (dataRow_eq_ok_iff poi headMap map.1 hcolumns row).mp h
    exact ⟨⟨(poi.createRow_iff _).mp hcreate, hkeys⟩, rfl⟩
  · rintro ⟨⟨hrow, hkeys⟩, rfl⟩
    rw [(poi.createRow_iff _).mpr hrow]
    exact (dataRow_eq_ok_iff poi headMap map.1 hcolumns _).mpr ⟨hkeys, rfl⟩

variable {poi : Poi} {dataList : List RowMap} {sheetName : Option String} {startRowNo : ℕ}

/-- The export writes the titles and, for every row, the texts under the keys of `headMap`, or it
throws. -/
theorem exportExcel_eq_ok_iff {sheet : Sheet} :
    exportExcel poi headMap dataList sheetName startRowNo = .ok sheet ↔
      (poi.createSheet sheetName = .ok () ∧ FitsSheet headMap dataList startRowNo ∧
        ∀ map ∈ dataList, ∀ key ∈ headMap.keys, Castable (value map key)) ∧
      sheet = exported headMap dataList startRowNo := by
  have hrows (hcolumns : headMap.entries.length ≤ 16384) (rows : List Row) :=
    Loops.mapM_eq_ok_iff rows fun map (_ : map ∈ dataList.zipIdx) row =>
      exportRow_eq_ok_iff poi startRowNo hcolumns map row
  have hall := forall_zipIdx_iff dataList (1 + startRowNo) 1048575 fun map =>
    ∀ key ∈ headMap.keys, Castable (value map key) ∧ FitsCell (text map key)
  have hmaps : dataList.zipIdx.map (fun map => textRow headMap map.1) =
      dataList.map (textRow headMap) := by
    conv_rhs => rw [← List.zipIdx_map_fst 0 dataList, List.map_map]
    rfl
  constructor
  · intro h
    obtain ⟨_, hsheet, h⟩ := Loops.exists_of_bind_eq_ok h
    obtain ⟨_, hrow, h⟩ := Loops.exists_of_bind_eq_ok h
    obtain ⟨head, hhead, h⟩ := Loops.exists_of_bind_eq_ok h
    obtain ⟨rows, hdata, h⟩ := Loops.exists_of_bind_eq_ok h
    obtain ⟨⟨hcolumns, htitles⟩, rfl⟩ := (headRow_eq_ok_iff poi headMap head).mp hhead
    obtain ⟨hkeys, rfl⟩ := (hrows hcolumns rows).mp hdata
    obtain ⟨hlength, hkeys⟩ := hall.mp hkeys
    have hstart := (poi.createRow_iff startRowNo).mp hrow
    refine ⟨⟨hsheet, ⟨?_, hcolumns, htitles, fun map hmap key hkey => (hkeys map hmap key hkey).2⟩,
      fun map hmap key hkey => (hkeys map hmap key hkey).1⟩, ?_⟩
    · rcases hlength with rfl | hlength
      · exact hstart
      · omega
    · rw [hmaps] at h
      exact (Except.ok.inj h).symm.trans (by simp [exported, Function.comp_def])
  · rintro ⟨⟨hsheet, hfits, hcast⟩, rfl⟩
    have hlength := hfits.rows
    have hdata := (hrows hfits.columns (dataList.map (textRow headMap))).mpr
      ⟨hall.mpr ⟨.inr (by omega), fun map hmap key hkey =>
        ⟨hcast map hmap key hkey, hfits.texts map hmap key hkey⟩⟩, hmaps.symm⟩
    rw [exportExcel, hsheet, (poi.createRow_iff startRowNo).mpr (by omega),
      (headRow_eq_ok_iff poi headMap _).mpr ⟨⟨hfits.columns, hfits.titles⟩, rfl⟩]
    simp only [bind, Except.bind] at hdata ⊢
    rw [hdata]
    simp [pure, Except.pure, exported, Function.comp_def]

/-! ### Reading what has been exported -/

structure ReadsBack (poi : Poi) (headMap : RowMap) (dataList : List RowMap) : Prop where
  titles : ∀ title ∈ titles headMap, poi.reread title = title
  texts : ∀ map ∈ dataList, ∀ key ∈ headMap.keys, ∀ t ∈ text map key, poi.reread t = t

theorem reopened_exported (h : ReadsBack poi headMap dataList) :
    poi.reopened (exported headMap dataList startRowNo) = exported headMap dataList startRowNo := by
  have hcell (v : Option String) (hv : ∀ t ∈ v, poi.reread t = t) :
      poi.rereadCell (cellOf v) = cellOf v := by
    cases v with
    | none => rfl
    | some t => exact congrArg XSSFCell.string (hv t rfl)
  simp only [Poi.reopened, exported, titleRow, textRow, List.map_append, List.map_replicate,
    List.map_cons, List.map_map, Option.map_none, Option.map_some, Function.comp_def]
  congr 2
  · refine congrArg some (List.map_congr_left fun title htitle => ?_)
    exact congrArg (fun text => some (XSSFCell.string text)) (h.titles title htitle)
  · refine List.map_congr_left fun map hmap => ?_
    refine congrArg some (List.map_congr_left fun key hkey => ?_)
    exact congrArg some (hcell _ (h.texts map hmap key hkey))

theorem readable_titleRow (headMap : RowMap) : Readable (titleRow headMap) := by
  simp [Readable, titleRow]

theorem texts_titleRow (headMap : RowMap) :
    texts (titleRow headMap) = (titles headMap).map some := by
  simp [texts, titleRow, cellText, Function.comp_def]

theorem readable_textRow (headMap map : RowMap) : Readable (textRow headMap map) := by
  simp only [Readable, textRow, List.mem_map, not_exists, not_and]
  intro key _
  cases text map key <;> simp [cellOf]

/-- What is written for null reads back as the empty string. -/
theorem texts_textRow (headMap map : RowMap) :
    texts (textRow headMap map) = headMap.keys.map fun key => some ((text map key).getD "") := by
  rw [texts, textRow, List.map_map]
  refine List.map_congr_left fun key _ => ?_
  cases h : text map key <;> simp [cellOf, cellText, h]

theorem importExcel_exported (headMap : RowMap) (dataList : List RowMap) (startRowNo : ℕ) :
    importExcel (exported headMap dataList startRowNo) startRowNo true =
      .ok (headerMap ((titles headMap).map some) ::
        dataList.map fun map => rowMap (titleKey ((titles headMap).map some))
          (headMap.keys.map fun key => some ((text map key).getD ""))) := by
  rw [exported, importExcel_eq (readable_titleRow headMap), importMaps, texts_titleRow]
  · simp [List.reduceOption, List.filterMap_map, Function.comp_def, texts_textRow]
  · intro row hrow
    obtain ⟨map, -, heq⟩ := List.mem_map.mp (List.reduceOption_mem_iff.mp hrow)
    exact Option.some.inj heq ▸ readable_textRow headMap map

end Export

end HelloBoot.POIUtil
