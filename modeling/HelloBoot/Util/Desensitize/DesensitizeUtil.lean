import HelloBoot.Java.Substring
import HelloBoot.Java.Utf16
import Mathlib.Algebra.Order.Ring.Int

/-!
# `DesensitizeUtil`

A text is the list of its UTF-16 code units, which `length` and `substring` count, and
`none` stands for null. Unless the kept ends cover the text, `desensitize` writes a star
for each unit between them (`desensitize_eq`).
-/

namespace HelloBoot.DesensitizeUtil

/-- A `String` that may be null. -/
abbrev Text := Option (List UInt16)

/-- The largest `int`, and so the largest length of a `String`. -/
def integerMaxValue : ℤ := 2147483647

/-- The `int` that an operation on ints yields. -/
def int (n : ℤ) : ℤ := n.bmod (2 ^ 32)

theorem int_of_le {n : ℤ} (hnonneg : 0 ≤ n) (h : n ≤ integerMaxValue) : int n = n := by
  unfold integerMaxValue at h
  exact Int.bmod_eq_of_le (by omega) (by omega)

def star : UInt16 := 42

def genStarStr (len : ℤ) : List UInt16 :=
  (List.range len.toNat).foldl (fun builder _ => builder ++ [star]) []

theorem genStarStr_eq (len : ℤ) : genStarStr len = List.replicate len.toNat star := by
  rw [genStarStr]
  generalize len.toNat = n
  induction n with
  | zero => rfl
  | succ n ih =>
      rw [List.range_succ, List.foldl_append, ih, List.foldl_cons, List.foldl_nil,
        List.replicate_succ']

def desensitize (text : Text) (leftKeep rightKeep : ℤ) : Except Throwable Text :=
  match text with
  | none => return none
  | some text => do
      if text.isEmpty then return some text
      let length : ℤ := text.length
      let keep := int (leftKeep + rightKeep)
      if length ≤ keep then return some text
      let left ← subSequence text 0 leftKeep
      let right ← subSequence text (int (length - rightKeep)) length
      return some (left ++ genStarStr (int (length - keep)) ++ right)

def desensitizeName (name : Text) : Except Throwable Text :=
  match name with
  | none => throw .nullPointer
  | some units => if 3 < units.length then desensitize name 0 2 else desensitize name 0 1

def desensitizePhone (phone : Text) : Except Throwable Text := desensitize phone 3 4

def desensitizeCredentialNo (credentialNo : Text) : Except Throwable Text :=
  desensitize credentialNo 6 4

/-- The text with a star for each unit between the kept ends. -/
def masked (leftKeep rightKeep : ℕ) (units : List UInt16) : List UInt16 :=
  if units.length ≤ leftKeep + rightKeep then units
  else
    units.take leftKeep ++ List.replicate (units.length - (leftKeep + rightKeep)) star ++
      units.drop (units.length - rightKeep)

theorem substring_left {units : List UInt16} {n : ℕ} (h : n ≤ units.length) :
    subSequence units 0 n = .ok (units.take n) := by
  rw [subSequence, if_pos ⟨le_rfl, by omega, by omega⟩]
  rfl

theorem substring_right {units : List UInt16} {n : ℕ} (h : n ≤ units.length) :
    subSequence units n units.length = .ok (units.drop n) := by
  rw [subSequence, if_pos ⟨by omega, by omega, le_rfl⟩, Int.toNat_natCast, Int.toNat_natCast,
    List.take_length]

/-- What `desensitize` returns for widths whose sum is an `int`. -/
theorem desensitize_eq {units : List UInt16} (hunits : units.length ≤ integerMaxValue)
    {leftKeep rightKeep : ℕ} (hkeep : (leftKeep + rightKeep : ℤ) ≤ integerMaxValue) :
    desensitize (some units) leftKeep rightKeep =
      .ok (some (masked leftKeep rightKeep units)) := by
  have hsum : int (leftKeep + rightKeep) = leftKeep + rightKeep := int_of_le (by omega) hkeep
  rw [desensitize, masked]
  simp only [hsum]
  by_cases hshort : units.length ≤ leftKeep + rightKeep
  · rw [if_pos hshort, if_pos (show (units.length : ℤ) ≤ leftKeep + rightKeep by omega)]
    split <;> rfl
  · have hempty : units.isEmpty = false := by
      cases units with
      | nil => exact absurd (Nat.zero_le _) hshort
      | cons u units => rfl
    have hbegin : int (units.length - rightKeep) = (units.length - rightKeep : ℕ) := by
      rw [int_of_le (by omega) (by omega)]
      omega
    have hstars : int (units.length - (leftKeep + rightKeep)) =
        (units.length - (leftKeep + rightKeep) : ℕ) := by
      rw [int_of_le (by omega) (by omega)]
      omega
    rw [if_neg hshort, if_neg (show ¬(units.length : ℤ) ≤ leftKeep + rightKeep by omega), hempty,
      hbegin, hstars, substring_left (by omega), substring_right (by omega), genStarStr_eq,
      Int.toNat_natCast]
    rfl

end HelloBoot.DesensitizeUtil
