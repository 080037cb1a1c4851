import HelloBoot.Calendar.Reckoning

/-!
# `java.util.GregorianCalendar`

The lenient calendar of the JDK in a zone with a fixed offset: Julian before the day
`gregorianCutoverDate`, Gregorian from then on. `computeTime` rolls fields that are out of
range over into the next ones, and `computeFields` is how a moment is read. A moment has
the fields that it was computed from if and only if they name a real date and time
(`computeFields_computeTime_iff`).
-/

namespace HelloBoot.GregorianCalendar

open Calendar

inductive Era where
  | bce
  | ce
  deriving DecidableEq, Repr

/-- The fields of a calendar; months are counted from one here. -/
structure Fields where
  era : Era
  year : ℤ
  month : ℤ
  day : ℤ
  hourOfDay : ℤ
  minute : ℤ
  second : ℤ
  deriving DecidableEq, Repr

/-- The day number of 1582-10-15. -/
def gregorianCutoverDate : ℤ := 577736

/-- The day number of 1970-01-01. -/
def epochOffset : ℤ := 719163

def oneDay : ℤ := 86400000

/-- `getFixedDate`: the month is brought into its range, and the day is added to the first
of this month. -/
def getFixedDate (cal : Reckoning) (year month day : ℤ) : ℤ :=
  cal.monthStart (year + (month - 1) / 12) ((month - 1) % 12 + 1) + (day - 1)

/-- The day that `computeTime` settles on; `rolled` is the number of days that the time of
day rolls over. A day that is missing in both calendars is taken as a Julian one. -/
def calculateFixedDate (year month day rolled : ℤ) : ℤ :=
  let gfd := rolled + getFixedDate gregorian year month day
  let jfd := rolled + getFixedDate julian year month day
  if year < 1582 then jfd
  else if gregorianCutoverDate ≤ gfd then gfd
  else jfd

/-- `computeTime()` for the fields of the era `CE`, in milliseconds since 1970. -/
def computeTime (zoneOffset year month day hourOfDay minute second : ℤ) : ℤ :=
  let timeOfDay := ((hourOfDay * 60 + minute) * 60 + second) * 1000
  (calculateFixedDate year month day (timeOfDay / oneDay) - epochOffset) * oneDay +
    timeOfDay % oneDay - zoneOffset

def dateOf (fixedDate : ℤ) : Date :=
  if gregorianCutoverDate ≤ fixedDate then gregorian.dateOf fixedDate
  else julian.dateOf fixedDate

def fieldsAt (date : Date) (timeOfDay : ℤ) : Fields where
  era := if date.year ≤ 0 then .bce else .ce
  year := if date.year ≤ 0 then 1 - date.year else date.year
  month := date.month
  day := date.day
  hourOfDay := timeOfDay / 3600000
  minute := timeOfDay / 60000 % 60
  second := timeOfDay / 1000 % 60

def computeFields (zoneOffset time : ℤ) : Fields :=
  fieldsAt (dateOf ((time + zoneOffset) / oneDay + epochOffset)) ((time + zoneOffset) % oneDay)

/-- The date exists in the Gregorian calendar from the cutover on, or in the Julian calendar
before it. -/
def RealDate (d : Date) : Prop :=
  (gregorian.Valid d ∧ gregorianCutoverDate ≤ gregorian.fixedDate d) ∨
    (julian.Valid d ∧ julian.fixedDate d < gregorianCutoverDate)

/-- The fields name a date that exists and a time of day. -/
def Fields.Real (f : Fields) : Prop :=
  (f.era = .ce ∧ 1 ≤ f.year ∧ RealDate ⟨f.year, f.month, f.day⟩) ∧
    (0 ≤ f.hourOfDay ∧ f.hourOfDay < 24) ∧ (0 ≤ f.minute ∧ f.minute < 60) ∧
    0 ≤ f.second ∧ f.second < 60

theorem realDate_dateOf (n : ℤ) : RealDate (dateOf n) := by
  rw [dateOf]
  split
  case isTrue h =>
      obtain ⟨hvalid, hday⟩ := gregorian.fixedDate_dateOf n
      exact .inl ⟨hvalid, hday.symm ▸ h⟩
  case isFalse h =>
      obtain ⟨hvalid, hday⟩ := julian.fixedDate_dateOf n
      exact .inr ⟨hvalid, hday.symm ▸ Int.not_le.mp h⟩

theorem real_computeFields {zoneOffset time : ℤ} (h : (computeFields zoneOffset time).era = .ce) :
    (computeFields zoneOffset time).Real := by
  have hreal := realDate_dateOf ((time + zoneOffset) / oneDay + epochOffset)
  rw [computeFields, fieldsAt] at h ⊢
  generalize dateOf ((time + zoneOffset) / oneDay + epochOffset) = d at h hreal ⊢
  have hyear : ¬d.year ≤ 0 := fun hle => by simp [hle] at h
  have hday : 0 < oneDay := by decide
  have hnonneg := Int.emod_nonneg (time + zoneOffset) hday.ne'
  have hlt := Int.emod_lt_of_pos (time + zoneOffset) hday
  simp only [if_neg hyear, Fields.Real, oneDay, true_and] at hnonneg hlt ⊢
  exact ⟨⟨by omega, hreal⟩, by omega, by omega, by omega⟩

theorem getFixedDate_of_month {cal : Reckoning} {d : Date} (h : 1 ≤ d.month ∧ d.month ≤ 12) :
    getFixedDate cal d.year d.month d.day = cal.fixedDate d := by
  have hyear : d.year + (d.month - 1) / 12 = d.year := by omega
  have hmonth : (d.month - 1) % 12 + 1 = d.month := by omega
  rw [getFixedDate, hyear, hmonth, Reckoning.fixedDate]

/-- In the year of the cutover the Julian calendar is ten days behind. -/
theorem fixedDate_of_1582 {d : Date} (h : d.year = 1582) :
    julian.fixedDate d = gregorian.fixedDate d + 10 := by
  have hdays : julian.daysBefore 1582 = gregorian.daysBefore 1582 + 10 := by decide
  have hleap : julian.isLeap 1582 = gregorian.isLeap 1582 := by decide
  rw [Reckoning.fixedDate, Reckoning.fixedDate, Reckoning.monthStart, Reckoning.monthStart, h,
    hdays, hleap]
  omega

/-- A date that exists is not rolled over. -/
theorem dateOf_calculateFixedDate {d : Date} (h : RealDate d) :
    dateOf (calculateFixedDate d.year d.month d.day 0) = d := by
  have hmonth : 1 ≤ d.month ∧ d.month ≤ 12 := h.elim (fun h => h.1.1) fun h => h.1.1
  simp only [calculateFixedDate, getFixedDate_of_month hmonth, Int.zero_add]
  rcases h with ⟨hvalid, hcut⟩ | ⟨hvalid, hcut⟩
  · have hyear : ¬d.year < 1582 := fun hlt => by
      have hbefore : gregorian.daysBefore (d.year + 1) ≤ gregorian.daysBefore 1582 :=
        Reckoning.daysBefore_le_iff.mpr hlt
      have hin := (Reckoning.fixedDate_mem_year hvalid).2
      have h1582 : gregorian.daysBefore 1582 < gregorianCutoverDate := by decide
      omega
    rw [if_neg hyear, if_pos hcut, dateOf, if_pos hcut, Reckoning.dateOf_fixedDate hvalid]
  · have hday : (if d.year < 1582 then julian.fixedDate d
        else if gregorianCutoverDate ≤ gregorian.fixedDate d then gregorian.fixedDate d
        else julian.fixedDate d) = julian.fixedDate d := by
      split_ifs with hyear hgreg
      · rfl
      · exfalso
        rcases Int.lt_or_eq_of_le (Int.not_lt.mp hyear) with hlt | heq
        · have hafter : julian.daysBefore 1583 ≤ julian.daysBefore d.year :=
            Reckoning.daysBefore_le_iff.mpr hlt
          have hin := (Reckoning.fixedDate_mem_year hvalid).1
          have h1583 : gregorianCutoverDate < julian.daysBefore 1583 := by decide
          omega
        · have hten := fixedDate_of_1582 heq.symm
          omega
      · rfl
    rw [hday, dateOf, if_neg (Int.not_le.mpr hcut), Reckoning.dateOf_fixedDate hvalid]

theorem computeFields_of_day (zoneOffset n : ℤ) {timeOfDay : ℤ} (hnonneg : 0 ≤ timeOfDay)
    (hlt : timeOfDay < oneDay) :
    computeFields zoneOffset ((n - epochOffset) * oneDay + timeOfDay - zoneOffset) =
      fieldsAt (dateOf n) timeOfDay := by
  have hpos : 0 < oneDay := by decide
  have hday : ((n - epochOffset) * oneDay + timeOfDay) / oneDay = n - epochOffset := by
    rw [Int.add_comm, Int.add_mul_ediv_right _ _ hpos.ne', Int.ediv_eq_zero_of_lt hnonneg hlt,
      Int.zero_add]
  have htime : ((n - epochOffset) * oneDay + timeOfDay) % oneDay = timeOfDay := by
    rw [Int.add_comm, Int.add_mul_emod_self_right, Int.emod_eq_of_lt hnonneg hlt]
  rw [computeFields, Int.sub_add_cancel, hday, htime, Int.sub_add_cancel]

theorem fieldsAt_eq {f : Fields} (h : f.Real) :
    fieldsAt ⟨f.year, f.month, f.day⟩ (((f.hourOfDay * 60 + f.minute) * 60 + f.second) * 1000) =
      f := by
  obtain ⟨⟨hera, hyear, -⟩, hhour, hminute, hsecond⟩ := h
  obtain ⟨era, year, month, day, hourOfDay, minute, second⟩ := f
  simp only at hera hyear hhour hminute hsecond
  have hce : ¬year ≤ 0 := by omega
  simp only [fieldsAt, if_neg hce, hera, Fields.mk.injEq, true_and]
  omega

/-- A moment that is computed from fields of the era has these fields if and only if they
name a real date and time. -/
theorem computeFields_computeTime_iff {f : Fields} (hera : f.era = .ce) (zoneOffset : ℤ) :
    computeFields zoneOffset (computeTime zoneOffset f.year f.month f.day f.hourOfDay f.minute
      f.second) = f ↔ f.Real := by
  constructor
  · intro h
    rw [← h]
    exact real_computeFields (by rw [h, hera])
  · intro h
    have hreal := h
    obtain ⟨⟨-, -, hdate⟩, hhour, hminute, hsecond⟩ := h
    have hnonneg : 0 ≤ ((f.hourOfDay * 60 + f.minute) * 60 + f.second) * 1000 := by omega
    have hlt : ((f.hourOfDay * 60 + f.minute) * 60 + f.second) * 1000 < oneDay := by
      rw [oneDay]
      omega
    rw [computeTime, Int.ediv_eq_zero_of_lt hnonneg hlt, Int.emod_eq_of_lt hnonneg hlt,
      computeFields_of_day zoneOffset _ hnonneg hlt, dateOf_calculateFixedDate hdate,
      fieldsAt_eq hreal]

end HelloBoot.GregorianCalendar
