import HelloBoot.Util.Poi.Columns

/-!
# Import undoes export

With titles that are distinct and not blank, the column of a title is read back under
this title, so the maps that the import makes hold exactly the texts that were written.
-/

namespace HelloBoot.POIUtil

variable {headMap : RowMap}

/-- Under distinct titles every column keeps its own entry. -/
theorem entries_rowMap {titles : List String} (hnodup : titles.Nodup)
    (hblank : ∀ t ∈ titles, isBlank t = false) {texts : List (Option String)}
    (hlength : texts.length = titles.length) :
    (rowMap (titleKey (titles.map some)) texts).entries =
      titles.zip (texts.map fun text => text.map Obj.string) := by
  have hcolumns : columns (titleKey (titles.map some)) texts =
      titles.zip (texts.map fun text => text.map Obj.string) := by
    refine List.ext_getElem (by simp [columns, hlength]) fun j hj _ => ?_
    have hlt : j < titles.length := by simpa [columns, hlength] using hj
    have htitle : titles[j]? = some titles[j] := List.getElem?_eq_getElem hlt
    simp [columns, titleKey_of_not_blank htitle (hblank _ (List.getElem_mem hlt))]
  have hkeys : (columns (titleKey (titles.map some)) texts).map Prod.fst = titles := by
    rw [hcolumns, List.map_fst_zip (by simp [hlength])]
  rw [rowMap, LinkedHashMap.entries_putAll (by rwa [hkeys]) fun _ _ => List.not_mem_nil, hcolumns]
  rfl

/-- What is exported is imported: the titles by index, and for every row its texts by title, with
the empty string for null and for a missing key. -/
def RoundTrips (poi : Poi) (headMap : RowMap) (rows : List RowMap) (sheetName : Option String)
    (startRowNo : ℕ) : Prop :=
  ∃ sheet first maps, exportExcel poi headMap rows sheetName startRowNo = .ok sheet ∧
    importExcel (poi.reopened sheet) startRowNo true = .ok (first :: maps) ∧
    first.entries = ((titles headMap).zipIdx.map fun title =>
      (decimal title.2, some (.string title.1))) ∧
    List.Forall₂ (fun row map => map.entries = headMap.entries.map fun e =>
      (Obj.valueOf e.2, some (.string ((text row e.1).getD "")))) rows maps

theorem importExcel_exportExcel {poi : Poi} (hnodup : (titles headMap).Nodup)
    (hblank : ∀ t ∈ titles headMap, isBlank t = false) {rows : List RowMap}
    (hrows : ∀ row ∈ rows, StringValued row) {sheetName : Option String}
    (hsheet : poi.createSheet sheetName = .ok ()) {startRowNo : ℕ}
    (hfits : FitsSheet headMap rows startRowNo) (hreads : ReadsBack poi headMap rows) :
    RoundTrips poi headMap rows sheetName startRowNo := by
  have hexport : exportExcel poi headMap rows sheetName startRowNo =
      .ok (exported headMap rows startRowNo) :=
    exportExcel_eq_ok_iff.mpr
      ⟨⟨hsheet, hfits, fun row hrow key _ => (hrows row hrow).castable key⟩, rfl⟩
  have himport := importExcel_exported headMap rows startRowNo
  rw [← reopened_exported hreads] at himport
  refine ⟨_, _, _, hexport, himport, ?_, ?_⟩
  · rw [entries_headerMap, columns_decimal]
    simp [List.zipIdx_map, Function.comp_def]
  · rw [List.forall₂_map_right_iff]
    refine List.forall₂_same.mpr fun row _ => ?_
    rw [entries_rowMap hnodup hblank (by simp [titles, LinkedHashMap.keys]), titles,
      LinkedHashMap.keys, List.map_map, List.map_map, List.zip_map']
    rfl

def sampleHead : RowMap :=
  ⟨[("a", some (.string "Name")), ("b", some (.string "City"))], by decide⟩

def sampleRows : List RowMap :=
  [⟨[("b", some (.string "Ulm")), ("a", none)], by decide⟩, LinkedHashMap.empty]

theorem stringValued_sampleRows : ∀ row ∈ sampleRows, StringValued row := by
  intro row hrow e he
  rcases List.mem_pair.mp hrow with rfl | rfl
  · rcases List.mem_pair.mp he with rfl | rfl
    · exact ⟨some "Ulm", rfl⟩
    · exact ⟨none, rfl⟩
  · cases he

theorem importExcel_exportExcel_sample :
    RoundTrips excel2007 sampleHead sampleRows (some defaultSheetName) 1 := by
  have hfits : FitsSheet sampleHead sampleRows 1 :=
    ⟨by decide, by decide, by decide, by decide⟩
  exact importExcel_exportExcel (by decide) (by decide) stringValued_sampleRows rfl hfits
    ⟨fun _ _ => rfl, fun _ _ _ _ _ _ => rfl⟩

/-- There is no row with the number 1048576. -/
theorem not_roundTrips_of_startRowNo :
    (titles sampleHead).Nodup ∧ (∀ t ∈ titles sampleHead, isBlank t = false) ∧
      (∀ row ∈ sampleRows, StringValued row) ∧ ReadsBack excel2007 sampleHead sampleRows ∧
      sampleHead.entries.length ≤ 16384 ∧
      ¬RoundTrips excel2007 sampleHead sampleRows (some defaultSheetName) 1048576 := by
  refine ⟨by decide, by decide, stringValued_sampleRows,
    ⟨fun _ _ => rfl, fun _ _ _ _ _ _ => rfl⟩, by decide, ?_⟩
  rintro ⟨sheet, first, maps, hexport, -⟩
  have hrows := (exportExcel_eq_ok_iff.mp hexport).1.2.1.rows
  exact absurd hrows (by decide)

end HelloBoot.POIUtil
