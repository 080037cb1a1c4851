import HelloBoot.Util.Poi.Columns
import Mathlib.Data.List.Perm.Subperm

/-!
# Importing, exporting and importing again

`getOldHeadMap` lists the titles of the imported sheet without repetitions. A cell is
written again if its column was imported under one of these titles, and what is written
is read again under the title, unless a later column takes the key: in the first import
a later cell of the row, in the second one a blank title, whose index may spell the
title of another column. So the data of the sheet is kept if and only if every
cell with data survives (`Survives`, `keepsData_iff`).
-/

namespace HelloBoot.POIUtil

/-- If the entries with a good value are the pairs of what survives of `P`, then all
values of `P` are among the values, each as often, if and only if all of `P` survives. -/
theorem subperm_map_snd_iff {ι κ ν : Type*} (key : ι → κ) (val : ι → ν) (survives : ι → Prop)
    (good : ν → Bool) {entries : List (κ × ν)} (hentries : entries.Nodup) {P : List ι}
    (hP : P.Nodup) (hgood : ∀ p ∈ P, good (val p) = true)
    (hinj : ∀ p ∈ P, ∀ q ∈ P, survives p → survives q → key p = key q → p = q)
    (hmem : ∀ k v, (k, v) ∈ entries ∧ good v = true ↔
      ∃ p ∈ P, survives p ∧ key p = k ∧ val p = v) :
    (P.map val).Subperm (entries.map Prod.snd) ↔ ∀ p ∈ P, survives p := by
  classical
  let S := P.filter survives
  let E := entries.filter (good ·.2)
  have hperm : E.Perm (S.map fun p => (key p, val p)) := by
    refine (List.perm_ext_iff_of_nodup (hentries.filter _) ?_).mpr fun e => ?_
    · refine List.Nodup.map_on (fun p hp q hq heq => ?_) (hP.filter _)
      obtain ⟨hp, hsp⟩ := List.mem_filter.mp hp
      obtain ⟨hq, hsq⟩ := List.mem_filter.mp hq
      exact hinj p hp q hq (by simpa using hsp) (by simpa using hsq) (Prod.mk.inj heq).1
    · obtain ⟨k, v⟩ := e
      simp only [S, List.mem_filter, hmem, List.mem_map, Prod.mk.injEq, decide_eq_true_eq,
        and_assoc]
  have hvalues : (E.map Prod.snd).Perm (S.map val) := by
    simpa [Function.comp_def] using hperm.map Prod.snd
  constructor
  · intro hsub
    -- all values of `P` are good, and as many entries are good as survive
    have hfilter := hsub.filter good
    rw [List.filter_eq_self.mpr (by simpa using hgood), List.filter_map] at hfilter
    have hlength : P.length ≤ S.length := by
      have hle := hfilter.length_le
      have heq := hvalues.length_eq
      simp only [List.length_map] at hle heq
      exact Nat.le_trans hle (Nat.le_of_eq heq)
    have hall := List.filter_sublist.eq_of_length_le hlength
    intro p hp
    rw [← hall] at hp
    simpa using (List.mem_filter.mp hp).2
  · intro hall
    have hS : S = P := List.filter_eq_self.mpr (by simpa using hall)
    rw [hS] at hvalues
    exact hvalues.symm.subperm.trans (List.filter_sublist.map Prod.snd).subperm

section Model

/-- `importExcel(in, 0, true)`, `exportExcel(getOldHeadMap(maps.get(0)), ..)` for the maps
behind the first, and `importExcel` of the result. -/
def reexport (poi : Poi) (sheet : Sheet) : Except Throwable (List RowMap) := do
  let maps ← importExcel sheet 0 true
  match maps with
  | [] => throw .indexOutOfBounds
  | first :: rest => do
      let sheet ← exportExcel poi (getOldHeadMap first) rest (some defaultSheetName) 0
      importExcel (poi.reopened sheet) 0 true

def nonEmpty : Option String → Bool
  | some text => text ≠ ""
  | none => false

/-- Every text of a data row that is not empty is still there, as often as it was, in the
map for this row. -/
def KeepsData (poi : Poi) (head : Row) (rest : Sheet) : Prop :=
  ∃ first maps, reexport poi (some head :: rest) = .ok (first :: maps) ∧
    List.Forall₂ (fun row map => (((texts row).filter nonEmpty).map fun text =>
      text.map Obj.string).Subperm (map.entries.map Prod.snd)) rest.reduceOption maps

/-- The titles that are exported: those of the sheet without repetitions, where a missing
one is written as `null`. -/
def newTitles (head : Row) : List String := ((texts head).map (·.getD "null")).eraseDups

/-- No later cell of the row has the key of column `j`, and this key is one of the new
titles, and no blank title behind it stands at the index that it spells. -/
def Survives (head row : Row) (j : ℕ) : Prop :=
  (∀ j', j < j' → j' < row.length → titleKey (texts head) j' ≠ titleKey (texts head) j) ∧
    ∃ p, (newTitles head)[p]? = some (titleKey (texts head) j) ∧
      ∀ p' title, p < p' → (newTitles head)[p']? = some title → isBlank title = true →
        decimal p' ≠ titleKey (texts head) j

structure FitsNewSheet (head : Row) (rest : Sheet) : Prop where
  rows : rest.reduceOption.length ≤ 1048575
  columns : (newTitles head).length ≤ 16384
  titles : ∀ title ∈ newTitles head, FitsCell (some title)
  texts : ∀ row ∈ rest.reduceOption, ∀ text ∈ texts row, FitsCell text

/-- The new titles and the data read back when they have been written. -/
structure SheetReadsBack (poi : Poi) (head : Row) (rest : Sheet) : Prop where
  titles : ∀ title ∈ newTitles head, poi.reread title = title
  texts : ∀ row ∈ rest.reduceOption, ∀ t, some t ∈ texts row → poi.reread t = t

end Model

section Keys

theorem isBlank_titleKey (titles : List (Option String)) (j : ℕ) :
    isBlank (titleKey titles j) = false := by
  rw [titleKey]
  split
  · split
    · exact isBlank_decimal j
    · exact Bool.eq_false_iff.mpr ‹_›
  · exact isBlank_decimal j

theorem getElem?_columns (keyAt : ℕ → String) (texts : List (Option String)) (j : ℕ) :
    (columns keyAt texts)[j]? = texts[j]?.map fun text => (keyAt j, text.map .string) := by
  rw [columns, List.getElem?_map, List.getElem?_zipIdx]
  cases texts[j]? <;> simp

theorem get_rowMap_eq_some_iff {keyAt : ℕ → String} {texts : List (Option String)} {key : String}
    {v : Option Obj} :
    (rowMap keyAt texts).get key = some v ↔ ∃ j text, texts[j]? = some text ∧ keyAt j = key ∧
      text.map .string = v ∧ ∀ j', j < j' → j' < texts.length → keyAt j' ≠ key := by
  rw [rowMap, LinkedHashMap.get_putAll_empty_eq_some_iff]
  simp only [getElem?_columns, Option.map_eq_some_iff, Prod.mk.injEq]
  constructor
  · rintro ⟨j, ⟨text, htext, hkey, hv⟩, hlater⟩
    refine ⟨j, text, htext, hkey, hv, fun j' hj hj' => ?_⟩
    exact hlater j' _ hj ⟨_, List.getElem?_eq_getElem hj', rfl⟩
  · rintro ⟨j, text, htext, hkey, hv, hlater⟩
    refine ⟨j, ⟨text, htext, hkey, hv⟩, ?_⟩
    rintro j' e hj ⟨text', htext', rfl⟩
    exact hlater j' hj (List.getElem?_eq_some_iff.mp htext').1

theorem stringValued_rowMap (keyAt : ℕ → String) (texts : List (Option String)) :
    StringValued (rowMap keyAt texts) := fun e he => by
  obtain ⟨text, -, rfl⟩ := List.mem_map.mp (LinkedHashMap.mem_of_mem_entries_putAll he)
  exact ⟨text.1, rfl⟩

theorem keys_getOldHeadMap (head : Row) :
    (getOldHeadMap (headerMap (texts head))).keys = newTitles head := by
  rw [getOldHeadMap, LinkedHashMap.keys_putAll_empty, entries_headerMap, newTitles, columns,
    List.map_map, List.map_map, ← List.zipIdx_map_fst 0 (texts head), List.map_map,
    List.zipIdx_map_fst]
  refine congrArg List.eraseDups (List.map_congr_left fun title _ => ?_)
  cases h : title.1 <;> simp [h, Obj.valueOf, Obj.toString]

theorem titles_getOldHeadMap (map : RowMap) :
    titles (getOldHeadMap map) = (getOldHeadMap map).keys := by
  refine List.map_congr_left fun e he => ?_
  obtain ⟨e', -, rfl⟩ := List.mem_map.mp (LinkedHashMap.mem_of_mem_entries_putAll he)
  rfl

end Keys

section Row

variable {head row : Row}

def rereadMap (head row : Row) : RowMap :=
  rowMap (titleKey ((newTitles head).map some)) ((newTitles head).map fun key =>
    some ((text (rowMap (titleKey (texts head)) (texts row)) key).getD ""))

theorem nodup_newTitles (head : Row) : (newTitles head).Nodup :=
  keys_getOldHeadMap head ▸ (getOldHeadMap (headerMap (texts head))).nodup

/-- The text under a key is that of the last cell with this key. -/
theorem text_rowMap_eq_some_iff {key t : String} :
    text (rowMap (titleKey (texts head)) (texts row)) key = some t ↔
      ∃ j, (texts row)[j]? = some (some t) ∧ titleKey (texts head) j = key ∧
        ∀ j', j < j' → j' < row.length → titleKey (texts head) j' ≠ key := by
  have hlength : (texts row).length = row.length := List.length_map ..
  rw [text_eq_some_iff (stringValued_rowMap _ _), get_rowMap_eq_some_iff, hlength]
  refine exists_congr fun j => ?_
  constructor
  · rintro ⟨x, hx, hkey, hval, hlater⟩
    cases x with
    | none => cases hval
    | some u =>
        cases hval
        exact ⟨hx, hkey, hlater⟩
  · rintro ⟨hx, hkey, hlater⟩
    exact ⟨some t, hx, hkey, rfl, hlater⟩

/-- What is read again are the cells that survive. -/
theorem mem_rereadMap_iff {key t : String} (ht : t ≠ "") :
    (key, some (.string t)) ∈ (rereadMap head row).entries ↔
      ∃ j, (texts row)[j]? = some (some t) ∧ Survives head row j ∧
        titleKey (texts head) j = key := by
  rw [← LinkedHashMap.get_eq_some_iff, rereadMap, get_rowMap_eq_some_iff]
  constructor
  · rintro ⟨p, x, hx, hkey, hval, hlater⟩
    rw [List.getElem?_map] at hx
    obtain ⟨title, htitle, rfl⟩ := Option.map_eq_some_iff.mp hx
    have htext : text (rowMap (titleKey (texts head)) (texts row)) title = some t := by
      cases h : text (rowMap (titleKey (texts head)) (texts row)) title with
      | none => exact absurd (by simpa [h, eq_comm] using hval) ht
      | some u => simpa [h] using hval
    obtain ⟨j, hj, htitleKey, hlast⟩ := text_rowMap_eq_some_iff.mp htext
    rw [titleKey_of_not_blank htitle (htitleKey ▸ isBlank_titleKey _ _)] at hkey
    subst hkey
    refine ⟨j, hj, ⟨htitleKey ▸ hlast, p, htitleKey ▸ htitle, ?_⟩, htitleKey⟩
    intro p' title' hp' htitle' hblank
    rw [htitleKey, ← titleKey_of_blank htitle' hblank]
    exact hlater p' hp' (by simpa using (List.getElem?_eq_some_iff.mp htitle').1)
  · rintro ⟨j, hj, ⟨hlast, p, hp, hblank⟩, rfl⟩
    have htext := text_rowMap_eq_some_iff.mpr ⟨j, hj, rfl, hlast⟩
    refine ⟨p, some t, by simp [hp, htext], titleKey_of_not_blank hp (isBlank_titleKey _ _), rfl,
      fun p' hp' hlt => ?_⟩
    rw [List.length_map] at hlt
    have htitle' := List.getElem?_eq_getElem hlt
    cases h : isBlank (newTitles head)[p'] with
    | true =>
        rw [titleKey_of_blank htitle' h]
        exact hblank p' _ hp' htitle' h
    | false =>
        -- different new titles are different keys
        rw [titleKey_of_not_blank htitle' h]
        intro heq
        rw [heq, ← hp] at htitle'
        exact absurd ((List.getElem?_inj hlt (nodup_newTitles head)).mp htitle') (by omega)

theorem survives_inj {p q : Option String × ℕ} (hp : p ∈ (texts row).zipIdx)
    (hq : q ∈ (texts row).zipIdx) (hsp : Survives head row p.2) (hsq : Survives head row q.2)
    (hkey : titleKey (texts head) p.2 = titleKey (texts head) q.2) : p = q := by
  rw [List.mem_zipIdx_iff_getElem?] at hp hq
  have hlt {i : ℕ} {t : Option String} (hi : (texts row)[i]? = some t) : i < row.length := by
    simpa [texts] using (List.getElem?_eq_some_iff.mp hi).1
  rcases Nat.lt_trichotomy p.2 q.2 with h | h | h
  · exact absurd hkey.symm (hsp.1 q.2 h (hlt hq))
  · rw [h, hq] at hp
    exact Prod.ext (Option.some.inj hp).symm h
  · exact absurd hkey (hsq.1 p.2 h (hlt hp))

theorem mem_filter_nonEmpty_iff {text : Option String} :
    nonEmpty text = true ↔ ∃ t, text = some t ∧ t ≠ "" := by
  cases text <;> simp [nonEmpty]

theorem nodup_zipIdx {α : Type*} (l : List α) : l.zipIdx.Nodup :=
  List.Nodup.of_map Prod.snd (by rw [List.zipIdx_map_snd]; exact List.nodup_range')

theorem map_filter_nonEmpty (l : List (Option String)) :
    (l.filter nonEmpty).map (fun text => text.map Obj.string) =
      (l.zipIdx.filter (nonEmpty ·.1)).map fun p => p.1.map Obj.string := by
  conv_lhs => rw [← List.zipIdx_map_fst 0 l, List.filter_map, List.map_map]
  rfl

theorem mem_filter_zipIdx_iff {l : List (Option String)} {p : Option String × ℕ} :
    p ∈ l.zipIdx.filter (nonEmpty ·.1) ↔ ∃ t, l[p.2]? = some (some t) ∧ p.1 = some t ∧ t ≠ "" := by
  rw [List.mem_filter, List.mem_zipIdx_iff_getElem?, mem_filter_nonEmpty_iff]
  constructor
  · rintro ⟨hmem, t, htext, ht⟩
    exact ⟨t, htext ▸ hmem, htext, ht⟩
  · rintro ⟨t, hmem, htext, ht⟩
    exact ⟨htext ▸ hmem, t, htext, ht⟩

/-- A row keeps its texts if and only if all its cells survive that are not empty. -/
theorem subperm_rereadMap_iff :
    (((texts row).filter nonEmpty).map fun text => text.map Obj.string).Subperm
        ((rereadMap head row).entries.map Prod.snd) ↔
      ∀ j t, (texts row)[j]? = some (some t) → t ≠ "" → Survives head row j := by
  rw [map_filter_nonEmpty, subperm_map_snd_iff (fun p => titleKey (texts head) p.2) _
    (fun p => Survives head row p.2) (fun v => nonEmpty (v.map Obj.toString))
    (List.Nodup.of_map Prod.fst (rereadMap head row).nodup) ((nodup_zipIdx _).filter _)]
  · constructor
    · intro h j t hj ht
      exact h (some t, j) (mem_filter_zipIdx_iff.mpr ⟨t, hj, rfl, ht⟩)
    · intro h p hp
      obtain ⟨t, hj, -, ht⟩ := mem_filter_zipIdx_iff.mp hp
      exact h p.2 t hj ht
  · intro p hp
    obtain ⟨t, -, htext, ht⟩ := mem_filter_zipIdx_iff.mp hp
    rw [htext]
    exact mem_filter_nonEmpty_iff.mpr ⟨t, rfl, ht⟩
  · intro p hp q hq
    exact survives_inj (List.mem_filter.mp hp).1 (List.mem_filter.mp hq).1
  · intro k v
    constructor
    · rintro ⟨hmem, hgood⟩
      obtain ⟨s, hs⟩ := stringValued_rowMap _ _ _ hmem
      obtain rfl : v = s.map .string := hs
      obtain ⟨t, hst, ht⟩ := mem_filter_nonEmpty_iff.mp hgood
      obtain rfl : s = some t := by cases s <;> simp_all [Obj.toString]
      obtain ⟨j, hj, hsurvives, hkey⟩ := (mem_rereadMap_iff ht).mp hmem
      exact ⟨(some t, j), mem_filter_zipIdx_iff.mpr ⟨t, hj, rfl, ht⟩, hsurvives, hkey, rfl⟩
    · rintro ⟨p, hp, hsurvives, hkey, rfl⟩
      obtain ⟨t, hj, htext, ht⟩ := mem_filter_zipIdx_iff.mp hp
      rw [htext]
      exact ⟨(mem_rereadMap_iff ht).mpr ⟨p.2, hj, hsurvives, hkey⟩,
        mem_filter_nonEmpty_iff.mpr ⟨t, rfl, ht⟩⟩

section Reexport

variable {poi : Poi} {rest : Sheet}

def dataMaps (head : Row) (rest : Sheet) : List RowMap :=
  rest.reduceOption.map fun row => rowMap (titleKey (texts head)) (texts row)

theorem mem_texts_of_text {key t : String}
    (h : text (rowMap (titleKey (texts head)) (texts row)) key = some t) : some t ∈ texts row := by
  obtain ⟨j, hj, -⟩ := text_rowMap_eq_some_iff.mp h
  exact List.mem_of_getElem? hj

/-- Where every cell survives, what is written fits into a sheet if and only if the data does. -/
theorem fitsSheet_iff (hsurvives : ∀ row ∈ rest.reduceOption, ∀ j t,
    (texts row)[j]? = some (some t) → t ≠ "" → Survives head row j) :
    FitsSheet (getOldHeadMap (headerMap (texts head))) (dataMaps head rest) 0 ↔
      FitsNewSheet head rest := by
  have hkeys := keys_getOldHeadMap head
  have hlength : (getOldHeadMap (headerMap (texts head))).entries.length =
      (newTitles head).length := by
    rw [← hkeys, LinkedHashMap.keys, List.length_map]
  constructor
  · intro h
    refine ⟨by simpa [dataMaps] using h.rows, hlength ▸ h.columns, ?_, ?_⟩
    · rw [← hkeys, ← titles_getOldHeadMap]
      exact h.titles
    · rintro row hrow _ hmem t rfl
      by_cases ht : t = ""
      · rw [ht]
        decide
      · obtain ⟨j, hj⟩ := List.mem_iff_getElem?.mp hmem
        obtain ⟨hlast, p, hp, -⟩ := hsurvives row hrow j t hj ht
        exact h.texts _ (List.mem_map_of_mem hrow) (titleKey (texts head) j)
          (hkeys ▸ List.mem_of_getElem? hp) t (text_rowMap_eq_some_iff.mpr ⟨j, hj, rfl, hlast⟩)
  · intro h
    refine ⟨by simpa [dataMaps] using h.rows, hlength ▸ h.columns, ?_, ?_⟩
    · rw [titles_getOldHeadMap, hkeys]
      exact h.titles
    · intro map hmap key _ t ht
      obtain ⟨row, hrow, rfl⟩ := List.mem_map.mp hmap
      exact h.texts row hrow _ (mem_texts_of_text ht) t rfl

theorem readsBack_dataMaps (h : SheetReadsBack poi head rest) :
    ReadsBack poi (getOldHeadMap (headerMap (texts head))) (dataMaps head rest) where
  texts map hmap key _ t ht := by
    obtain ⟨row, hrow, rfl⟩ := List.mem_map.mp hmap
    exact h.texts row hrow t (mem_texts_of_text ht)
  titles := by
    rw [titles_getOldHeadMap, keys_getOldHeadMap]
    exact h.titles

/-- Without error cells every row is read again, if the export does not throw. -/
theorem reexport_eq_ok_iff (hsheet : poi.createSheet (some defaultSheetName) = .ok ())
    (hreads : SheetReadsBack poi head rest) (hhead : Readable head)
    (hrest : ∀ row ∈ rest.reduceOption, Readable row) {maps : List RowMap} :
    reexport poi (some head :: rest) = .ok maps ↔
      FitsSheet (getOldHeadMap (headerMap (texts head))) (dataMaps head rest) 0 ∧
        maps = headerMap ((newTitles head).map some) ::
          rest.reduceOption.map (rereadMap head) := by
  have hmaps : ∀ map ∈ dataMaps head rest, StringValued map := fun map hmap => by
    obtain ⟨row, -, rfl⟩ := List.mem_map.mp hmap
    exact stringValued_rowMap _ _
  have hfirst : importExcel (some head :: rest) 0 true =
      .ok (headerMap (texts head) :: dataMaps head rest) := importExcel_eq hhead hrest 0
  have himport := importExcel_exported (getOldHeadMap (headerMap (texts head)))
    (dataMaps head rest) 0
  rw [titles_getOldHeadMap, keys_getOldHeadMap, dataMaps, List.map_map] at himport
  have hrun : reexport poi (some head :: rest) =
      exportExcel poi (getOldHeadMap (headerMap (texts head))) (dataMaps head rest)
        (some defaultSheetName) 0 >>= fun sheet => importExcel (poi.reopened sheet) 0 true := by
    rw [reexport, hfirst]
    rfl
  rw [hrun]
  constructor
  · intro h
    obtain ⟨sheet, hexport, h⟩ := Loops.exists_of_bind_eq_ok h
    obtain ⟨⟨-, hfits, -⟩, rfl⟩ := exportExcel_eq_ok_iff.mp hexport
    rw [reopened_exported (readsBack_dataMaps hreads)] at h
    exact ⟨hfits, Except.ok.inj (h.symm.trans himport)⟩
  · rintro ⟨hfits, rfl⟩
    have hexport := exportExcel_eq_ok_iff.mpr
      ⟨⟨hsheet, hfits, fun map hmap key _ => (hmaps map hmap).castable key⟩, rfl⟩
    rw [hexport]
    exact (congrArg (importExcel · 0 true) (reopened_exported (readsBack_dataMaps hreads))).trans himport

end Reexport

end Row

/-- The data of a sheet survives import, export and import if and only if no cell of it is
an error cell, the data and the new titles fit into a sheet, and all data cells survive that are
not empty. -/
theorem keepsData_iff {poi : Poi} {head : Row} {rest : Sheet}
    (hsheet : poi.createSheet (some defaultSheetName) = .ok ())
    (hreads : SheetReadsBack poi head rest) :
    KeepsData poi head rest ↔
      (Readable head ∧ ∀ row ∈ rest.reduceOption, Readable row) ∧ FitsNewSheet head rest ∧
        ∀ row ∈ rest.reduceOption, ∀ j t, (texts row)[j]? = some (some t) → t ≠ "" →
          Survives head row j := by
  by_cases hreadable : Readable head ∧ ∀ row ∈ rest.reduceOption, Readable row
  · rw [and_iff_right hreadable, KeepsData]
    simp only [reexport_eq_ok_iff hsheet hreads hreadable.1 hreadable.2]
    constructor
    · rintro ⟨first, maps, ⟨hfits, heq⟩, hall⟩
      cases heq
      rw [List.forall₂_map_right_iff] at hall
      have hsurvives : ∀ row ∈ rest.reduceOption, _ := fun row hrow =>
        subperm_rereadMap_iff.mp (List.forall₂_same.mp hall row hrow)
      exact ⟨(fitsSheet_iff hsurvives).mp hfits, hsurvives⟩
    · rintro ⟨hfits, hsurvives⟩
      refine ⟨_, _, ⟨(fitsSheet_iff hsurvives).mpr hfits, rfl⟩, ?_⟩
      rw [List.forall₂_map_right_iff]
      exact List.forall₂_same.mpr fun row hrow => subperm_rereadMap_iff.mpr (hsurvives row hrow)
  · refine iff_of_false ?_ fun h => hreadable h.1
    rintro ⟨first, maps, hrun, -⟩
    -- an error cell ends the first import
    have hthrows : ∃ t, importExcel (some head :: rest) 0 true = .error t := by
      by_cases hhead : Readable head
      · have hrest := not_and.mp hreadable hhead
        simp only [not_forall] at hrest
        obtain ⟨row, hrow, hbad⟩ := hrest
        exact importExcel_of_not_readable (.tail _ (List.reduceOption_mem_iff.mp hrow)) hbad
      · exact importExcel_of_not_readable (.head _) hhead
    obtain ⟨t, ht⟩ := hthrows
    rw [reexport, ht] at hrun
    cases hrun

theorem sheetReadsBack_excel2007 (head : Row) (rest : Sheet) :
    SheetReadsBack excel2007 head rest := ⟨fun _ _ => rfl, fun _ _ _ _ => rfl⟩

theorem keepsData_iff_of_titled :
    KeepsData excel2007 [some (.string "A")] [some [some (.string "x")]] := by
  have hreadable (text : String) : Readable [some (.string text)] := by simp [Readable]
  have hsurvives : Survives [some (.string "A")] [some (.string "x")] 0 := by
    refine ⟨fun j' hlt hle => absurd hle (Nat.not_lt.mpr hlt), 0, rfl, fun p' title hlt hp => ?_⟩
    have hbound := (List.getElem?_eq_some_iff.mp hp).1
    exact absurd hbound (Nat.not_lt.mpr hlt)
  refine (keepsData_iff rfl (sheetReadsBack_excel2007 _ _)).mpr
    ⟨⟨hreadable "A", ?_⟩, ⟨by decide, by decide, by decide, by decide⟩, ?_⟩
  · intro row hrow
    obtain rfl := List.mem_singleton.mp hrow
    exact hreadable "x"
  · intro row hrow j t hj _
    obtain rfl := List.mem_singleton.mp hrow
    obtain rfl : j = 0 := Nat.lt_one_iff.mp (List.getElem?_eq_some_iff.mp hj).1
    exact hsurvives

/-- The text in the column with the blank title is lost. -/
theorem not_keepsData_of_blank_title :
    ¬ KeepsData excel2007 [some (.string "A"), some .blank]
      [some [some (.string "x"), some (.string "y")]] := by
  rintro ⟨first, maps, hrun, hall⟩
  have hhead : Readable [some (.string "A"), some .blank] := by unfold Readable; decide
  have hrest : ∀ row ∈ List.reduceOption [some [some (XSSFCell.string "x"), some (.string "y")]],
      Readable row := by unfold Readable; decide
  obtain ⟨-, heq⟩ :=
    (reexport_eq_ok_iff rfl (sheetReadsBack_excel2007 _ _) hhead hrest).mp hrun
  cases heq
  have hrow := (List.forall₂_cons.mp hall).1
  obtain ⟨-, p, hp, -⟩ := subperm_rereadMap_iff.mp hrow 1 "y" rfl (by decide)
  exact absurd (List.mem_of_getElem? hp) (by decide)

end HelloBoot.POIUtil
