import HelloBoot.Config.DateFormatConfig

/-!
# Which dates are accepted

On a text of one of the three forms the parser reads the numbers that are written in it
(`parseFields_of_matchesReg`). The calendar is lenient, so none of them is refused: a date
that is returned has the numbers of the text if and only if these name a real date and
time (`exactOrRejected_iff`).
-/

namespace HelloBoot.DateFormatConfig

open GregorianCalendar (Fields computeFields computeFields_computeTime_iff)

def numbers (s : List Char) : List ℕ :=
  ((s.splitOnP fun c => !c.isDigit).filter (· ≠ [])).map fun number => Nat.ofDigitChars 10 number 0

section Numbers

variable {number s : List Char} {c : Char}

theorem numbers_of_digits (hne : number ≠ []) (hdigits : ∀ c ∈ number, c.isDigit = true) :
    numbers number = [Nat.ofDigitChars 10 number 0] := by
  rw [numbers, List.splitOnP_eq_singleton (by simpa using hdigits)]
  simp [hne]

theorem numbers_append (hne : number ≠ []) (hdigits : ∀ c ∈ number, c.isDigit = true)
    (hc : c.isDigit = false) (s : List Char) :
    numbers (number ++ c :: s) = Nat.ofDigitChars 10 number 0 :: numbers s := by
  rw [numbers, List.splitOnP_append_cons_of_forall_mem (by simpa using hdigits) c (by simp [hc])]
  simp [hne, numbers]

end Numbers

theorem exists_of_matchesReg_cons {q : Quantified} {reg : List Quantified} {s : List Char}
    (h : matchesReg (q :: reg) s = true) :
    ∃ p t, s = p ++ t ∧ (q.least ≤ p.length ∧ p.length ≤ q.most) ∧
      (∀ c ∈ p, q.accepts c = true) ∧ matchesReg reg t = true := by
  rw [matchesReg, List.any_eq_true] at h
  obtain ⟨n, hn, htest⟩ := h
  simp only [Bool.and_eq_true, decide_eq_true_eq, List.all_eq_true] at htest
  obtain ⟨⟨hlength, hall⟩, hrest⟩ := htest
  have hrange := List.mem_range'_1.mp hn
  refine ⟨s.take n, s.drop n, (List.take_append_drop n s).symm, ?_, hall, hrest⟩
  rw [List.length_take]
  omega

/-- Numbers with single characters that are no digits between them. -/
inductive Shape : List PatternItem → List Quantified → List CalendarField → Prop where
  | last (f : CalendarField) {least : ℕ} (most : ℕ) (h : 0 < least) :
      Shape [.field f] [digits least most] [f]
  | next (f : CalendarField) {least : ℕ} (most : ℕ) (h : 0 < least) {c : Char}
      (hc : c.isDigit = false) {items : List PatternItem} {reg : List Quantified}
      {fields : List CalendarField} (hrest : Shape items reg fields) :
      Shape (.field f :: .literal c :: items) (digits least most :: single c :: reg)
        (f :: fields)

theorem dropWhile_blank {number : List Char} (hne : number ≠ [])
    (hdigits : ∀ c ∈ number, c.isDigit = true) (t : List Char) :
    (number ++ t).dropWhile (fun c => c = ' ' || c = '\t') = number ++ t := by
  obtain ⟨c, number, rfl⟩ := List.exists_cons_of_ne_nil hne
  have hc := hdigits c (.head number)
  have hblank : (c = ' ' || c = '\t') = false := by
    simp only [Bool.or_eq_false_iff, decide_eq_false_iff_not]
    constructor <;> rintro rfl <;> exact absurd hc (by decide)
  rw [List.cons_append, List.dropWhile_cons, hblank]
  rfl

theorem parseFields_field {number t : List Char} (hne : number ≠ [])
    (hdigits : ∀ c ∈ number, c.isDigit = true) (ht : t.takeWhile Char.isDigit = [])
    (f : CalendarField) (items : List PatternItem) :
    parseFields (.field f :: items) (number ++ t) =
      (parseFields items t).map ((f, Nat.ofDigitChars 10 number 0) :: ·) := by
  have htake : (number ++ t).takeWhile Char.isDigit = number := by
    rw [List.takeWhile_append_of_pos hdigits, ht, List.append_nil]
  have hdrop : (number ++ t).dropWhile Char.isDigit = t := by
    rw [List.dropWhile_append_of_pos hdigits]
    have := List.takeWhile_append_dropWhile (p := Char.isDigit) (l := t)
    rwa [ht, List.nil_append] at this
  simp only [parseFields, dropWhile_blank hne hdigits, htake, hdrop, if_neg hne]

/-- On a text that matches, the parser reads its numbers. -/
theorem parseFields_of_matchesReg {items : List PatternItem} {reg : List Quantified}
    {fields : List CalendarField} (h : Shape items reg fields) {s : List Char}
    (hs : matchesReg reg s = true) :
    parseFields items s = some (fields.zip (numbers s)) ∧
      (numbers s).length = fields.length := by
  induction h generalizing s with
  | last f most hleast =>
      obtain ⟨number, t, rfl, hlength, hdigits, hrest⟩ := exists_of_matchesReg_cons hs
      obtain rfl : t = [] := List.isEmpty_iff.mp hrest
      have hne : number ≠ [] := List.length_pos_iff.mp (hleast.trans_le hlength.1)
      rw [parseFields_field hne hdigits rfl, List.append_nil, numbers_of_digits hne hdigits]
      exact ⟨rfl, rfl⟩
  | next f most hleast hc _ ih =>
      obtain ⟨number, t, rfl, hlength, hdigits, hnext⟩ := exists_of_matchesReg_cons hs
      obtain ⟨p, t, rfl, hone, hsingle, hrest⟩ := exists_of_matchesReg_cons hnext
      have hne : number ≠ [] := List.length_pos_iff.mp (hleast.trans_le hlength.1)
      obtain ⟨c', rfl⟩ := List.length_eq_one_iff.mp (Nat.le_antisymm hone.2 hone.1)
      obtain rfl := of_decide_eq_true (hsingle c' (.head []))
      obtain ⟨hparse, hnumbers⟩ := ih hrest
      have hstop : ([c'] ++ t).takeWhile Char.isDigit = [] := by simp [hc]
      rw [parseFields_field hne hdigits hstop, List.singleton_append,
        numbers_append hne hdigits hc, parseFields, if_pos rfl, hparse]
      exact ⟨rfl, congrArg (· + 1) hnumbers⟩

def FormatEnum.fields : FormatEnum → List CalendarField
  | fmt1 => [.year, .month, .dayOfMonth]
  | fmt2 => [.year, .month, .dayOfMonth, .hourOfDay, .minute]
  | fmt3 => [.year, .month, .dayOfMonth, .hourOfDay, .minute, .second]

theorem FormatEnum.shape (f : FormatEnum) : Shape (compile f.fmt.toList) f.reg f.fields := by
  have hdate {items reg fields} (h : Shape items reg fields) :
      Shape (.field .year :: .literal '-' :: .field .month :: .literal '-' :: items)
        (digits 4 4 :: single '-' :: digits 1 2 :: single '-' :: reg)
        (.year :: .month :: fields) :=
    .next .year 4 (by decide) rfl (.next .month 2 (by decide) rfl h)
  have htime {items reg fields} (h : Shape items reg fields) :
      Shape (.field .dayOfMonth :: .literal ' ' :: .field .hourOfDay :: .literal ':' :: items)
        (digits 1 2 :: single ' ' :: digits 1 2 :: single ':' :: reg)
        (.dayOfMonth :: .hourOfDay :: fields) :=
    .next .dayOfMonth 2 (by decide) rfl (.next .hourOfDay 2 (by decide) rfl h)
  cases f with
  | fmt1 => exact hdate (.last .dayOfMonth 2 (by decide))
  | fmt2 => exact hdate (htime (.last .minute 2 (by decide)))
  | fmt3 => exact hdate (htime (.next .minute 2 (by decide) rfl (.last .second 2 (by decide))))

/-- The date and time that is written in a text; what is not written is zero. -/
def written (s : String) : Fields :=
  let n := numbers s.toList
  ⟨.ce, n.getD 0 0, n.getD 1 0, n.getD 2 0, n.getD 3 0, n.getD 4 0, n.getD 5 0⟩

theorem establish_zip (zoneOffset : ℤ) (f : FormatEnum) {n : List ℕ}
    (hn : n.length = f.fields.length) :
    establish zoneOffset (f.fields.zip n) =
      GregorianCalendar.computeTime zoneOffset (n.getD 0 0) (n.getD 1 0) (n.getD 2 0)
        (n.getD 3 0) (n.getD 4 0) (n.getD 5 0) := by
  -- as many numbers as the format has fields
  rcases n with _ | ⟨year, _ | ⟨month, _ | ⟨day, _ | ⟨hour, _ | ⟨minute, _ | ⟨second, _ |
    ⟨next, n⟩⟩⟩⟩⟩⟩⟩ <;>
    cases f <;> simp only [FormatEnum.fields, List.length_cons, List.length_nil] at hn <;>
    first
    | omega
    | rfl

def HasForm (s : String) : Prop := ∃ f : FormatEnum, matchesReg f.reg s.toList = true

/-- The call has thrown an `IllegalArgumentException`, or returned a date with exactly the
numbers that are written in the text. -/
def ExactOrRejected (zoneOffset : ℤ) (s : String) : Except Throwable (Option ℤ) → Prop
  | .ok (some date) => computeFields zoneOffset date = written s
  | .ok none => False
  | .error t => ∃ message, t = .illegalArgument message

variable {s : String}

theorem convert_of_form (hs : s ≠ "") (hform : HasForm s) (zoneOffset : ℤ) :
    convert zoneOffset s = .ok (some (GregorianCalendar.computeTime zoneOffset (written s).year
      (written s).month (written s).day (written s).hourOfDay (written s).minute
      (written s).second)) := by
  obtain ⟨f, hf⟩ := hform
  cases hfind : FormatEnum.values.find? fun f => matchesReg f.reg s.toList with
  | none =>
      have hmem : f ∈ FormatEnum.values := by cases f <;> decide
      exact absurd hf (List.find?_eq_none.mp hfind f hmem)
  | some f' =>
      have hmatches : matchesReg f'.reg s.toList = true := by
        simpa using List.find?_some hfind
      obtain ⟨hparse, hlength⟩ := parseFields_of_matchesReg f'.shape hmatches
      rw [convert, if_neg hs, hfind]
      simp only [parseDate, hparse, establish_zip zoneOffset f' hlength]
      rfl

theorem convert_of_not_form (hs : s ≠ "") (hform : ¬HasForm s) (zoneOffset : ℤ) :
    convert zoneOffset s = .error (.illegalArgument ("日期参数有误: " ++ s)) := by
  have hfind : FormatEnum.values.find? (fun f => matchesReg f.reg s.toList) = none :=
    List.find?_eq_none.mpr fun f _ hf => hform ⟨f, hf⟩
  rw [convert, if_neg hs, hfind]

/-- A text is converted exactly or rejected if and only if it has none of the three forms
or names a real date and time. -/
theorem exactOrRejected_iff (hs : s ≠ "") (zoneOffset : ℤ) :
    ExactOrRejected zoneOffset s (convert zoneOffset s) ↔ (HasForm s → (written s).Real) := by
  by_cases hform : HasForm s
  · rw [convert_of_form hs hform, ExactOrRejected,
      computeFields_computeTime_iff (f := written s) rfl]
    exact ⟨fun h _ => h, fun h => h hform⟩
  · rw [convert_of_not_form hs hform, ExactOrRejected]
    exact iff_of_true ⟨_, rfl⟩ fun h => absurd h hform

theorem exactOrRejected_iff_of_leapDay :
    ExactOrRejected 28800000 "2024-2-29 23:59" (convert 28800000 "2024-2-29 23:59") ↔
      (HasForm "2024-2-29 23:59" → (written "2024-2-29 23:59").Real) :=
  exactOrRejected_iff (by decide) 28800000

/-- The thirtieth of February is taken for the second of March. -/
theorem not_exactOrRejected_of_february :
    (∃ date, convert 28800000 "2021-02-30" = .ok (some date) ∧
      computeFields 28800000 date = ⟨.ce, 2021, 3, 2, 0, 0, 0⟩) ∧
      ¬ExactOrRejected 28800000 "2021-02-30" (convert 28800000 "2021-02-30") := by
  have hform : HasForm "2021-02-30" := ⟨.fmt1, by decide⟩
  have hwritten : written "2021-02-30" = ⟨.ce, 2021, 2, 30, 0, 0, 0⟩ := by decide
  have hfields : computeFields 28800000
      (GregorianCalendar.computeTime 28800000 2021 2 30 0 0 0) = ⟨.ce, 2021, 3, 2, 0, 0, 0⟩ := by
    decide
  have hconvert := convert_of_form (by decide) hform 28800000
  rw [hwritten] at hconvert
  refine ⟨⟨_, hconvert, hfields⟩, ?_⟩
  rw [hconvert, ExactOrRejected, hfields, hwritten]
  decide

end HelloBoot.DateFormatConfig
