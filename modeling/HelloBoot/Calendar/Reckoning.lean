import Mathlib.Algebra.Order.BigOperators.Group.List
import Mathlib.Order.Monotone.Basic
import Mathlib.Order.SuccPred.Basic
import Mathlib.Algebra.Order.Ring.Int

/-!
# Days, months and years

A `Reckoning` says which years are leap years, how many days stand before a year, and in
which year a day lies. Days are numbered from the first of January of the year 1 in the
Gregorian calendar, which is day 1. The twelve months cut a year into pieces; `place` finds
the piece in which a day lies. So the day of a date and the date of a day are inverse to
each other on the dates that exist (`dateOf_fixedDate`, `fixedDate_dateOf`).
-/

namespace Calendar

section Place

/-- Where the pieces with the given lengths begin. -/
def offset (lengths : List ℤ) (i : ℕ) : ℤ := (lengths.take i).sum

/-- The piece in which a position lies, and the position in this piece. -/
def place : List ℤ → ℤ → ℕ × ℤ
  | [], k => (0, k)
  | l :: lengths, k =>
      if k < l then (0, k) else ((place lengths (k - l)).1 + 1, (place lengths (k - l)).2)

variable {lengths : List ℤ} {i : ℕ} {k l r : ℤ}

theorem offset_nonneg (hlengths : ∀ l ∈ lengths, 0 ≤ l) (i : ℕ) : 0 ≤ offset lengths i :=
  List.sum_nonneg fun l hl => hlengths l (List.mem_of_mem_take hl)

theorem offset_cons (l : ℤ) (lengths : List ℤ) (i : ℕ) :
    offset (l :: lengths) (i + 1) = l + offset lengths i := by
  rw [offset, List.take_succ_cons, List.sum_cons, offset]

theorem offset_add_le_sum (hlengths : ∀ l ∈ lengths, 0 ≤ l) (hi : lengths[i]? = some l) :
    offset lengths i + l ≤ lengths.sum := by
  induction lengths generalizing i with
  | nil => cases hi
  | cons l' lengths ih =>
      obtain ⟨hl', hlengths⟩ := List.forall_mem_cons.mp hlengths
      cases i with
      | zero =>
          obtain rfl : l' = l := Option.some.inj hi
          have hrest := List.sum_nonneg hlengths
          rw [offset, List.take_zero, List.sum_nil, List.sum_cons]
          omega
      | succ i =>
          rw [offset_cons, List.sum_cons, Int.add_assoc]
          exact Int.add_le_add_left (ih hlengths hi) l'

/-- A position is found where it has been put. -/
theorem place_offset_add (hlengths : ∀ l ∈ lengths, 0 ≤ l) (hi : lengths[i]? = some l)
    (hr : 0 ≤ r) (hrl : r < l) : place lengths (offset lengths i + r) = (i, r) := by
  induction lengths generalizing i with
  | nil => cases hi
  | cons l' lengths ih =>
      obtain ⟨hl', hlengths⟩ := List.forall_mem_cons.mp hlengths
      cases i with
      | zero =>
          obtain rfl : l' = l := Option.some.inj hi
          have hpos : offset (l' :: lengths) 0 + r = r := by simp [offset]
          rw [hpos, place, if_pos hrl]
      | succ i =>
          have hnonneg := offset_nonneg hlengths i
          have hrest : l' + offset lengths i + r - l' = offset lengths i + r := by omega
          rw [offset_cons, place, if_neg (by omega), hrest, ih hlengths hi]

/-- Every position between the first piece and the end of the last lies in a piece. -/
theorem place_spec (hk : 0 ≤ k) (hsum : k < lengths.sum) :
    ∃ l, lengths[(place lengths k).1]? = some l ∧
      (0 ≤ (place lengths k).2 ∧ (place lengths k).2 < l) ∧
      offset lengths (place lengths k).1 + (place lengths k).2 = k := by
  induction lengths generalizing k with
  | nil =>
      rw [List.sum_nil] at hsum
      omega
  | cons l lengths ih =>
      rw [place]
      split
      case isTrue hlt => exact ⟨l, rfl, ⟨hk, hlt⟩, by simp [offset]⟩
      case isFalse hge =>
          rw [List.sum_cons] at hsum
          obtain ⟨l', hl', hrange, hoffset⟩ := ih (k := k - l) (by omega) (by omega)
          exact ⟨l', hl', hrange, by rw [offset_cons]; omega⟩

end Place

def monthLengths (leap : Bool) : List ℤ :=
  [31, if leap then 29 else 28, 31, 30, 31, 30, 31, 31, 30, 31, 30, 31]

theorem monthLengths_nonneg (leap : Bool) : ∀ l ∈ monthLengths leap, 0 ≤ l := by
  cases leap <;> decide

theorem sum_monthLengths (leap : Bool) :
    (monthLengths leap).sum = if leap then 366 else 365 := by
  cases leap <;> decide

structure Date where
  year : ℤ
  month : ℤ
  day : ℤ
  deriving DecidableEq, Repr

/-- A rule for leap years, with the days before a year and the year of a day, which is
counted from zero. -/
structure Reckoning where
  isLeap : ℤ → Bool
  daysBefore : ℤ → ℤ
  yearOf : ℤ → ℤ
  daysBefore_succ : ∀ y, daysBefore (y + 1) = daysBefore y + if isLeap y then 366 else 365
  yearOf_spec : ∀ k, daysBefore (yearOf k) ≤ k ∧ k < daysBefore (yearOf k + 1)

namespace Reckoning

variable (c : Reckoning)

def monthStart (year month : ℤ) : ℤ :=
  c.daysBefore year + offset (monthLengths (c.isLeap year)) (month - 1).toNat + 1

def fixedDate (d : Date) : ℤ := c.monthStart d.year d.month + (d.day - 1)

def dateOf (n : ℤ) : Date :=
  let year := c.yearOf (n - 1)
  let p := place (monthLengths (c.isLeap year)) (n - 1 - c.daysBefore year)
  ⟨year, p.1 + 1, p.2 + 1⟩

def monthLength (year month : ℤ) : ℤ :=
  (monthLengths (c.isLeap year)).getD (month - 1).toNat 0

def Valid (d : Date) : Prop :=
  (1 ≤ d.month ∧ d.month ≤ 12) ∧ 1 ≤ d.day ∧ d.day ≤ c.monthLength d.year d.month

variable {c}

theorem daysBefore_lt_iff {y z : ℤ} : c.daysBefore y < c.daysBefore z ↔ y < z := by
  have hmono : StrictMono c.daysBefore := by
    refine strictMono_int_of_lt_succ fun y => ?_
    rw [c.daysBefore_succ]
    split <;> omega
  exact hmono.lt_iff_lt

theorem daysBefore_le_iff {y z : ℤ} : c.daysBefore y ≤ c.daysBefore z ↔ y ≤ z := by
  rw [← Int.not_lt, daysBefore_lt_iff, Int.not_lt]

theorem yearOf_eq {k y : ℤ} (hle : c.daysBefore y ≤ k) (hlt : k < c.daysBefore (y + 1)) :
    c.yearOf k = y := by
  obtain ⟨hle', hlt'⟩ := c.yearOf_spec k
  have hbelow := c.daysBefore_lt_iff.mp (hle'.trans_lt hlt)
  have habove := c.daysBefore_lt_iff.mp (hle.trans_lt hlt')
  omega

theorem getElem?_monthLengths {d : Date} (h : c.Valid d) :
    (monthLengths (c.isLeap d.year))[(d.month - 1).toNat]? =
      some (c.monthLength d.year d.month) := by
  have hlt : (d.month - 1).toNat < (monthLengths (c.isLeap d.year)).length := by
    change (d.month - 1).toNat < 12
    have := h.1
    omega
  rw [monthLength, List.getD_eq_getElem?_getD, List.getElem?_eq_getElem hlt, Option.getD_some]

theorem offset_add_day_le {d : Date} (h : c.Valid d) :
    offset (monthLengths (c.isLeap d.year)) (d.month - 1).toNat + d.day ≤
      if c.isLeap d.year then 366 else 365 := by
  have hlength := getElem?_monthLengths h
  have hend := offset_add_le_sum (monthLengths_nonneg _) hlength
  rw [sum_monthLengths] at hend
  have := h.2.2
  omega

theorem fixedDate_mem_year {d : Date} (h : c.Valid d) :
    c.daysBefore d.year < c.fixedDate d ∧ c.fixedDate d ≤ c.daysBefore (d.year + 1) := by
  have hnonneg := offset_nonneg (monthLengths_nonneg (c.isLeap d.year)) (d.month - 1).toNat
  have hin := offset_add_day_le h
  have hday := h.2.1
  rw [c.daysBefore_succ, fixedDate, monthStart]
  omega

theorem dateOf_fixedDate {d : Date} (h : c.Valid d) : c.dateOf (c.fixedDate d) = d := by
  have hday := h.2.1
  obtain ⟨hafter, hbefore⟩ := fixedDate_mem_year h
  have hyear : c.yearOf (c.fixedDate d - 1) = d.year := yearOf_eq (by omega) (by omega)
  have hposition : c.fixedDate d - 1 - c.daysBefore d.year =
      offset (monthLengths (c.isLeap d.year)) (d.month - 1).toNat + (d.day - 1) := by
    rw [fixedDate, monthStart]
    omega
  have hplace := place_offset_add (r := d.day - 1) (monthLengths_nonneg _)
    (getElem?_monthLengths h) (by omega) (by have := h.2.2; omega)
  rw [dateOf, hyear, hposition, hplace]
  obtain ⟨year, month, day⟩ := d
  have hmonth := h.1.1
  simp only [Date.mk.injEq, true_and] at hmonth ⊢
  omega

/-- The date of a day exists, and it is the date of this day only. -/
theorem fixedDate_dateOf (c : Reckoning) (n : ℤ) :
    c.Valid (c.dateOf n) ∧ c.fixedDate (c.dateOf n) = n := by
  obtain ⟨hle, hlt⟩ := c.yearOf_spec (n - 1)
  rw [c.daysBefore_succ, ← sum_monthLengths] at hlt
  have hbelow : n - 1 - c.daysBefore (c.yearOf (n - 1)) <
      (monthLengths (c.isLeap (c.yearOf (n - 1)))).sum := by omega
  obtain ⟨l, hl, hrange, hoffset⟩ := place_spec (by omega) hbelow
  have hindex := (List.getElem?_eq_some_iff.mp hl).1
  change _ < 12 at hindex
  have hnat : ((place (monthLengths (c.isLeap (c.yearOf (n - 1))))
      (n - 1 - c.daysBefore (c.yearOf (n - 1)))).1 + 1 - 1 : ℤ).toNat =
      (place (monthLengths (c.isLeap (c.yearOf (n - 1))))
        (n - 1 - c.daysBefore (c.yearOf (n - 1)))).1 := by omega
  refine ⟨⟨?_, ?_⟩, ?_⟩
  · simp only [dateOf]
    omega
  · simp only [dateOf, monthLength, hnat, List.getD_eq_getElem?_getD, hl, Option.getD_some]
    omega
  · simp only [dateOf, fixedDate, monthStart, hnat]
    omega

end Reckoning

def julian : Reckoning where
  isLeap y := y % 4 = 0
  daysBefore y := 365 * (y - 1) + (y - 1) / 4 - 2
  yearOf k := (4 * (k + 2) + 1464) / 1461
  daysBefore_succ y := by
    simp only [decide_eq_true_eq]
    split <;> omega
  yearOf_spec k := by omega

def gregorianDays (y : ℤ) : ℤ := 365 * (y - 1) + (y - 1) / 4 - (y - 1) / 100 + (y - 1) / 400

/-- The days before a year that is given by its cycles of 400, 100 and 4 years. -/
theorem gregorianDays_eq {n400 n100 n4 n1 : ℤ} (h100 : 0 ≤ n100 ∧ n100 ≤ 3)
    (h4 : 0 ≤ n4 ∧ n4 ≤ 24) (h1 : 0 ≤ n1 ∧ n1 ≤ 3) :
    gregorianDays (400 * n400 + 100 * n100 + 4 * n4 + n1 + 1) =
      146097 * n400 + 36524 * n100 + 1461 * n4 + 365 * n1 := by
  have hyear : 400 * n400 + 100 * n100 + 4 * n4 + n1 + 1 - 1 =
      400 * n400 + 100 * n100 + 4 * n4 + n1 := by omega
  have hdiv4 : (400 * n400 + 100 * n100 + 4 * n4 + n1) / 4 = 100 * n400 + 25 * n100 + n4 := by
    omega
  have hdiv100 : (400 * n400 + 100 * n100 + 4 * n4 + n1) / 100 = 4 * n400 + n100 := by omega
  have hdiv400 : (400 * n400 + 100 * n100 + 4 * n4 + n1) / 400 = n400 := by omega
  rw [gregorianDays, hyear, hdiv4, hdiv100, hdiv400]
  omega

theorem gregorianDays_succ (y : ℤ) :
    gregorianDays (y + 1) =
      gregorianDays y + if y % 4 = 0 ∧ (y % 100 ≠ 0 ∨ y % 400 = 0) then 366 else 365 := by
  rw [gregorianDays, gregorianDays]
  split <;> omega

/-- The year of a day of the Gregorian calendar: the last day of four or of 400 years does
not begin another year. -/
def gregorianYear (k : ℤ) : ℤ :=
  let n400 := k / 146097
  let n100 := k % 146097 / 36524
  let n4 := k % 146097 % 36524 / 1461
  let n1 := k % 146097 % 36524 % 1461 / 365
  let year := 400 * n400 + 100 * n100 + 4 * n4 + n1
  if n100 = 4 ∨ n1 = 4 then year else year + 1

theorem gregorianYear_spec (k : ℤ) :
    gregorianDays (gregorianYear k) ≤ k ∧ k < gregorianDays (gregorianYear k + 1) := by
  rw [gregorianYear, gregorianDays_succ]
  generalize h400 : k / 146097 = n400
  generalize h100 : k % 146097 / 36524 = n100
  generalize h4 : k % 146097 % 36524 / 1461 = n4
  generalize h1 : k % 146097 % 36524 % 1461 / 365 = n1
  split
  case isFalse h =>
      rw [gregorianDays_eq (by omega) (by omega) (by omega)]
      split <;> omega
  case isTrue h =>
      by_cases hlast : n100 = 4
      · have hyear : 400 * n400 + 100 * n100 + 4 * n4 + n1 =
            400 * n400 + 100 * 3 + 4 * 24 + 3 + 1 := by omega
        rw [hyear, gregorianDays_eq (by omega) (by omega) (by omega), if_pos (by omega)]
        omega
      · have hyear : 400 * n400 + 100 * n100 + 4 * n4 + n1 =
            400 * n400 + 100 * n100 + 4 * n4 + 3 + 1 := by omega
        rw [hyear, gregorianDays_eq (by omega) (by omega) (by omega), if_pos (by omega)]
        omega

def gregorian : Reckoning where
  isLeap y := y % 4 = 0 ∧ (y % 100 ≠ 0 ∨ y % 400 = 0)
  daysBefore := gregorianDays
  yearOf := gregorianYear
  daysBefore_succ y := by
    simp only [decide_eq_true_eq]
    exact gregorianDays_succ y
  yearOf_spec := gregorianYear_spec

end Calendar
