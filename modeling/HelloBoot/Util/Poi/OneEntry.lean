import HelloBoot.Util.Poi.Columns

/-!
# One entry for each column

A column stands under its title, or under its index where the title is missing or blank. So
under distinct titles a readable row has one entry for each column if and only if no title
in it is the index of a column without one (`oneEntryPerColumn_iff`).
-/

namespace HelloBoot.POIUtil

/-- The title of a column, unless it is missing or blank. -/
def titleAt (headerMap : RowMap) (j : ℕ) : Option String :=
  (text headerMap (decimal j)).filter fun title => !isBlank title

def keyAt (headerMap : RowMap) (j : ℕ) : String := (titleAt headerMap j).getD (decimal j)

def DistinctTitles (headerMap : RowMap) : Prop :=
  ∀ e ∈ headerMap.entries, ∀ e' ∈ headerMap.entries, ∀ title,
    e.2 = some (.string title) → e'.2 = some (.string title) → isBlank title = false →
      e.1 = e'.1

/-- The map for a row has one entry for each column, which holds the text of the cell. -/
def OneEntryPerColumn (headerMap : RowMap) (row : Row) : Prop :=
  ∃ rowData, dealRowData row headerMap = .ok rowData ∧
    (rowData.entries.map Prod.snd).Perm ((texts row).map fun text => text.map Obj.string)

/-- The title of a column is the index of one without a title. -/
def TitledAsIndex (headerMap : RowMap) (row : Row) : Prop :=
  ∃ i < row.length, ∃ j < row.length,
    titleAt headerMap i = none ∧ titleAt headerMap j = some (decimal i)

variable {headerMap : RowMap} {row : Row}

theorem columnKey_eq (hstrings : StringValued headerMap) (j : ℕ) :
    columnKey headerMap j = .ok (keyAt headerMap j) := by
  rw [columnKey, keyAt, titleAt]
  cases hentries : headerMap.entries with
  | nil =>
      have hget : headerMap.get (decimal j) = none := by rw [LinkedHashMap.get, hentries]; rfl
      simp [text, value, hget, pure, Except.pure, bind, Except.bind]
  | cons e entries =>
      rw [if_pos (by simp), hstrings.value_eq, Obj.castString_map_string]
      cases text headerMap (decimal j) with
      | none => rfl
      | some title =>
          cases hblank : isBlank title <;>
            simp [hblank, Option.filter, bind, Except.bind, pure, Except.pure]

theorem dealRowData_of_readable (hstrings : StringValued headerMap) (hrow : Readable row) :
    dealRowData row headerMap = .ok (rowMap (keyAt headerMap) (texts row)) :=
  dealRowData_eq (columnKey_eq hstrings) hrow

theorem map_fst_columns (keyAt : ℕ → String) (texts : List (Option String)) :
    (columns keyAt texts).map Prod.fst = (List.range texts.length).map keyAt := by
  rw [columns, List.map_map, List.range_eq_range', ← List.zipIdx_map_snd, List.map_map]
  rfl

theorem map_snd_columns (keyAt : ℕ → String) (texts : List (Option String)) :
    (columns keyAt texts).map Prod.snd = texts.map fun text => text.map Obj.string := by
  conv_rhs => rw [← List.zipIdx_map_fst 0 texts]
  rw [columns, List.map_map, List.map_map]
  rfl

theorem perm_rowMap_iff (keyAt : ℕ → String) (texts : List (Option String)) :
    ((rowMap keyAt texts).entries.map Prod.snd).Perm
        (texts.map fun text => text.map Obj.string) ↔
      ((List.range texts.length).map keyAt).Nodup := by
  rw [← map_fst_columns, ← map_snd_columns keyAt, rowMap]
  constructor
  · intro hperm
    have hlength := hperm.length_eq
    rw [List.length_map, List.length_map] at hlength
    exact LinkedHashMap.nodup_of_length_putAll hlength
  · intro hnodup
    rw [LinkedHashMap.entries_putAll hnodup fun _ _ => List.not_mem_nil]
    exact List.Perm.refl _

theorem titleAt_eq_some_iff (hstrings : StringValued headerMap) {j : ℕ} {title : String} :
    titleAt headerMap j = some title ↔
      (decimal j, some (.string title)) ∈ headerMap.entries ∧ isBlank title = false := by
  rw [titleAt, Option.filter_eq_some_iff, text_eq_some_iff hstrings,
    LinkedHashMap.get_eq_some_iff, Bool.not_eq_true']

/-- The columns have different keys if and only if no title is the index of a column without
one. -/
theorem nodup_keyAt_iff (hstrings : StringValued headerMap) (hdistinct : DistinctTitles headerMap) :
    ((List.range row.length).map (keyAt headerMap)).Nodup ↔ ¬TitledAsIndex headerMap row := by
  constructor
  · rintro hnodup ⟨i, hi, j, hj, hnone, hsome⟩
    have hkey : keyAt headerMap i = keyAt headerMap j := by
      rw [keyAt, keyAt, hnone, hsome]
      rfl
    have hij := List.inj_on_of_nodup_map hnodup (List.mem_range.mpr hi) (List.mem_range.mpr hj) hkey
    rw [hij, hsome] at hnone
    cases hnone
  · intro hapart
    refine List.Nodup.map_on (fun i hi j hj hkey => ?_) List.nodup_range
    have hi := List.mem_range.mp hi
    have hj := List.mem_range.mp hj
    rw [keyAt, keyAt] at hkey
    cases htitle : titleAt headerMap i with
    | none =>
        rw [htitle] at hkey
        cases htitle' : titleAt headerMap j with
        | none =>
            rw [htitle'] at hkey
            exact decimal_injective hkey
        | some title =>
            rw [htitle'] at hkey
            exact absurd ⟨i, hi, j, hj, htitle, htitle'.trans (congrArg some hkey.symm)⟩ hapart
    | some title =>
        rw [htitle] at hkey
        cases htitle' : titleAt headerMap j with
        | none =>
            rw [htitle'] at hkey
            exact absurd ⟨j, hj, i, hi, htitle', htitle.trans (congrArg some hkey)⟩ hapart
        | some title' =>
            rw [htitle'] at hkey
            obtain rfl : title = title' := hkey
            obtain ⟨hmem, hblank⟩ := (titleAt_eq_some_iff hstrings).mp htitle
            obtain ⟨hmem', -⟩ := (titleAt_eq_some_iff hstrings).mp htitle'
            exact decimal_injective (hdistinct _ hmem _ hmem' title rfl rfl hblank)

/-- Under distinct titles, a row has one entry for each column if and only if it has no error
cell and no title in it is the index of a column without one. -/
theorem oneEntryPerColumn_iff (hstrings : StringValued headerMap)
    (hdistinct : DistinctTitles headerMap) (row : Row) :
    OneEntryPerColumn headerMap row ↔ Readable row ∧ ¬TitledAsIndex headerMap row := by
  rw [← nodup_keyAt_iff hstrings hdistinct]
  have hperm := perm_rowMap_iff (keyAt headerMap) (texts row)
  rw [texts, List.length_map, ← texts] at hperm
  constructor
  · rintro ⟨rowData, hdeal, hentries⟩
    have hrow : Readable row := by
      by_contra hrow
      obtain ⟨t, ht⟩ := dealRowData_of_not_readable headerMap hrow
      cases ht.symm.trans hdeal
    cases (dealRowData_of_readable hstrings hrow).symm.trans hdeal
    exact ⟨hrow, hperm.mp hentries⟩
  · rintro ⟨hrow, hnodup⟩
    exact ⟨_, dealRowData_of_readable hstrings hrow, hperm.mpr hnodup⟩

def digitHeader : RowMap :=
  ⟨[("0", some (.string "1")), ("1", some (.string " "))], by decide⟩

theorem stringValued_digitHeader : StringValued digitHeader := by
  intro e he
  rcases List.mem_pair.mp he with rfl | rfl
  · exact ⟨some "1", rfl⟩
  · exact ⟨some " ", rfl⟩

theorem distinctTitles_digitHeader : DistinctTitles digitHeader := by
  intro e he e' he' title htitle htitle' _
  have heq := htitle.trans htitle'.symm
  rcases List.mem_pair.mp he with rfl | rfl <;> rcases List.mem_pair.mp he' with rfl | rfl
  · rfl
  · exact absurd heq (by decide)
  · exact absurd heq (by decide)
  · rfl

theorem oneEntryPerColumn_iff_of_digitHeader :
    OneEntryPerColumn digitHeader [some (.string "x")] ↔
      Readable [some (.string "x")] ∧ ¬TitledAsIndex digitHeader [some (.string "x")] :=
  oneEntryPerColumn_iff stringValued_digitHeader distinctTitles_digitHeader _

/-- The text of the second column takes the place of the first. -/
theorem not_oneEntryPerColumn_of_digitHeader :
    StringValued digitHeader ∧ DistinctTitles digitHeader ∧
      (dealRowData [some (.string "x"), some (.string "y")] digitHeader).map
        LinkedHashMap.entries = .ok [("1", some (.string "y"))] ∧
      ¬OneEntryPerColumn digitHeader [some (.string "x"), some (.string "y")] := by
  refine ⟨stringValued_digitHeader, distinctTitles_digitHeader, by decide, ?_⟩
  rintro ⟨rowData, hdeal, hperm⟩
  cases hdeal
  exact absurd hperm.length_eq (by decide)

end HelloBoot.POIUtil
