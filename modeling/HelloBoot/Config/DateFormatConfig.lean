import HelloBoot.Java.GregorianCalendar
import HelloBoot.Java.Throwable

/-!
# `DateFormatConfig`

`DateConverter.convert` accepts a text that matches one of three regular expressions and
leaves the rest to a `SimpleDateFormat`, which reads the numbers of the text into the
fields of a lenient calendar. A date is a number of milliseconds since 1970; the zone of
the calendar has a fixed offset.
-/

namespace HelloBoot.DateFormatConfig

open GregorianCalendar (computeTime)

/-- A piece of a regular expression: at least `least` and at most `most` characters of a
class. -/
structure Quantified where
  accepts : Char → Bool
  least : ℕ
  most : ℕ

def digits (least most : ℕ) : Quantified := ⟨Char.isDigit, least, most⟩

def single (c : Char) : Quantified := ⟨(· = c), 1, 1⟩

def matchesReg : List Quantified → List Char → Bool
  | [], s => s.isEmpty
  | q :: reg, s =>
      (List.range' q.least (q.most + 1 - q.least)).any fun n =>
        n ≤ s.length && (s.take n).all q.accepts && matchesReg reg (s.drop n)

inductive CalendarField where
  | year
  | month
  | dayOfMonth
  | hourOfDay
  | minute
  | second
  deriving DecidableEq

def fieldOf : Char → Option CalendarField
  | 'y' => some .year
  | 'M' => some .month
  | 'd' => some .dayOfMonth
  | 'H' => some .hourOfDay
  | 'm' => some .minute
  | 's' => some .second
  | _ => none

inductive PatternItem where
  | field (f : CalendarField)
  | literal (c : Char)
  deriving DecidableEq

/-- `new SimpleDateFormat(pattern)`: a run of one letter is one field, read as a number. -/
def compile : List Char → List PatternItem
  | [] => []
  | c :: pattern =>
      match fieldOf c with
      | none => .literal c :: compile pattern
      | some f => if pattern.head? = some c then compile pattern else .field f :: compile pattern

/-- `parse` of a compiled pattern: the fields with their numbers. What stands behind the last
one is ignored. -/
def parseFields : List PatternItem → List Char → Option (List (CalendarField × ℕ))
  | [], _ => some []
  | .literal _ :: _, [] => none
  | .literal c :: items, c' :: s => if c' = c then parseFields items s else none
  | .field f :: items, s =>
      -- blanks in front of a number are skipped
      let s := s.dropWhile fun c => c = ' ' || c = '\t'
      let number := s.takeWhile Char.isDigit
      if number = [] then none
      else
        (parseFields items (s.dropWhile Char.isDigit)).map
          ((f, Nat.ofDigitChars 10 number 0) :: ·)

/-- The moment of a calendar that has been cleared and then given some fields. -/
def establish (zoneOffset : ℤ) (fields : List (CalendarField × ℕ)) : ℤ :=
  let value (f : CalendarField) (unset : ℕ) : ℕ := (fields.lookup f).getD unset
  computeTime zoneOffset (value .year 1970) (value .month 1) (value .dayOfMonth 1)
    (value .hourOfDay 0) (value .minute 0) (value .second 0)

inductive FormatEnum where
  | fmt1
  | fmt2
  | fmt3
  deriving DecidableEq

namespace FormatEnum

def values : List FormatEnum := [fmt1, fmt2, fmt3]

def fmt : FormatEnum → String
  | fmt1 => "yyyy-MM-dd"
  | fmt2 => "yyyy-MM-dd HH:mm"
  | fmt3 => "yyyy-MM-dd HH:mm:ss"

def reg : FormatEnum → List Quantified
  | fmt1 => [digits 4 4, single '-', digits 1 2, single '-', digits 1 2]
  | fmt2 =>
      [digits 4 4, single '-', digits 1 2, single '-', digits 1 2, single ' ', digits 1 2,
        single ':', digits 1 2]
  | fmt3 =>
      [digits 4 4, single '-', digits 1 2, single '-', digits 1 2, single ' ', digits 1 2,
        single ':', digits 1 2, single ':', digits 1 2]

end FormatEnum

def parseDate (zoneOffset : ℤ) (dateStr format : String) : Except Throwable ℤ :=
  match parseFields (compile format.toList) dateStr.toList with
  | some fields => .ok (establish zoneOffset fields)
  -- the exception of `parse` is caught
  | none => .error (.illegalArgument ("参数有误: " ++ dateStr))

/-- `convert(str)`; null is `none`. -/
def convert (zoneOffset : ℤ) (str : String) : Except Throwable (Option ℤ) :=
  if str = "" then .ok none
  else
    match FormatEnum.values.find? fun formatEnum => matchesReg formatEnum.reg str.toList with
    | some formatEnum => (parseDate zoneOffset str formatEnum.fmt).map some
    | none => .error (.illegalArgument ("日期参数有误: " ++ str))

end HelloBoot.DateFormatConfig
