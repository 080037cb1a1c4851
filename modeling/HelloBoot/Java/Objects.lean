import HelloBoot.Java.Throwable
import Mathlib.Data.List.Basic

/-!
# Objects and strings

An `Object` is a string or some other object, of which only the result of its
`toString()` is kept. A reference that may be null is an `Option`.
-/

namespace HelloBoot

/-- An object that is not null. -/
inductive Obj where
  | string (s : String)
  | other (text : String)
  deriving DecidableEq, Repr

namespace Obj

def toString : Obj → String
  | string s => s
  | other text => text

def valueOf : Option Obj → String
  | some o => o.toString
  | none => "null"

def castString : Option Obj → Except Throwable (Option String)
  | none => .ok none
  | some (string s) => .ok (some s)
  | some (other _) => .error .classCast

@[simp] theorem castString_map_string (s : Option String) : castString (s.map string) = .ok s := by
  cases s <;> rfl

end Obj

def isTrimmed (c : Char) : Bool := c ≤ ' '

def trim (s : String) : String :=
  String.ofList ((s.toList.dropWhile isTrimmed).reverse.dropWhile isTrimmed).reverse

/-- `s.substring(beginIndex, endIndex)`, for indexes in bounds. -/
def substring (s : String) (beginIndex endIndex : ℕ) : String :=
  String.ofList ((s.toList.take endIndex).drop beginIndex)

/-- `s.trim().length() == 0`. -/
def isBlank (s : String) : Bool := s.toList.all isTrimmed

/-- `String.valueOf(j)` for an index. -/
def decimal (j : ℕ) : String := Nat.repr j

theorem decimal_injective : Function.Injective decimal := fun i j h => by
  have htoDigits : Nat.toDigits 10 i = Nat.toDigits 10 j := by
    simpa [decimal] using congrArg String.toList h
  simpa using congrArg (Nat.ofDigitChars 10 · 0) htoDigits

theorem isTrimmed_of_isDigit {c : Char} (h : c.isDigit = true) : isTrimmed c = false := by
  simp only [Char.isDigit, Bool.and_eq_true, decide_eq_true_eq] at h
  rw [isTrimmed, decide_eq_false_iff_not, Char.le_def]
  intro hle
  have hlt : '0'.val ≤ ' '.val := UInt32.le_trans h.1 hle
  exact absurd hlt (by decide)

theorem isBlank_decimal (j : ℕ) : isBlank (decimal j) = false := by
  obtain ⟨c, hc⟩ := List.exists_mem_of_ne_nil _ (Nat.toDigits_ne_nil (b := 10) (n := j))
  have hdigit := Nat.isDigit_of_mem_toDigits (by decide) (by decide) hc
  rw [isBlank, List.all_eq_false]
  exact ⟨c, by simpa [decimal] using hc, by simp [isTrimmed_of_isDigit hdigit]⟩

end HelloBoot
