import HelloBoot.Java.Throwable
import Mathlib.Data.List.Infix

/-!
# Parts of a text

The methods of `String` that look for a text in another one, and `substring` with its test
of the bounds, on lists of any kind of characters. `indexOf` finds an occurrence if there
is one (`indexOf_isSome_iff`), and `lastIndexOf` one with none behind it
(`lastIndexOf_append_cons`).
-/

namespace HelloBoot

section Lists

variable {α : Type*} [DecidableEq α]

/-- The index of the first occurrence of `w`, with `none` for -1. -/
def indexOf (w : List α) : List α → Option ℕ
  | [] => if w = [] then some 0 else none
  | a :: l => if w <+: a :: l then some 0 else (indexOf w l).map (· + 1)

/-- The index of the last occurrence of `w`, with `none` for -1. -/
def lastIndexOf (w : List α) : List α → Option ℕ
  | [] => if w = [] then some 0 else none
  | a :: l =>
      match lastIndexOf w l with
      | some i => some (i + 1)
      | none => if w <+: a :: l then some 0 else none

/-- `l.substring(beginIndex, endIndex)`. -/
def subSequence (l : List α) (beginIndex endIndex : ℤ) : Except Throwable (List α) :=
  if 0 ≤ beginIndex ∧ beginIndex ≤ endIndex ∧ endIndex ≤ l.length then
    .ok ((l.take endIndex.toNat).drop beginIndex.toNat)
  else .error .indexOutOfBounds

variable {a : α} {w l r : List α}

theorem indexOf_isSome_iff : (indexOf w l).isSome = true ↔ w <:+: l := by
  induction l with
  | nil =>
      rw [indexOf, List.infix_nil]
      split <;> simp_all
  | cons a l ih =>
      rw [indexOf, List.infix_cons_iff]
      split
      case isTrue h => simp [h]
      case isFalse h => rw [Option.isSome_map, ih, or_iff_right h]

theorem lastIndexOf_singleton_of_notMem (h : a ∉ l) : lastIndexOf [a] l = none := by
  induction l with
  | nil => rfl
  | cons b l ih =>
      obtain ⟨hne, hl⟩ := not_or.mp (mt List.mem_cons.mpr h)
      rw [lastIndexOf, ih hl]
      simp [hne]

/-- The last occurrence of a character is the one with none behind it. -/
theorem lastIndexOf_append_cons (h : a ∉ r) : lastIndexOf [a] (l ++ a :: r) = some l.length := by
  induction l with
  | nil =>
      rw [List.nil_append, lastIndexOf, lastIndexOf_singleton_of_notMem h]
      simp
  | cons b l ih => rw [List.cons_append, lastIndexOf, ih, List.length_cons]

end Lists

def contains (s w : String) : Bool := (indexOf w.toList s.toList).isSome

/-- `s.substring(beginIndex, endIndex)` for an end that `indexOf` has returned. -/
def substringTo (s : String) (endIndex : Option ℕ) : Except Throwable String :=
  (subSequence s.toList 0 (endIndex.elim (-1) (↑))).map String.ofList

theorem substringTo_append (s t : String) :
    substringTo (s ++ t) (some s.toList.length) = .ok s := by
  have hbounds : (s.toList.length : ℤ) ≤ (s ++ t).toList.length := by
    rw [String.toList_append, List.length_append]
    omega
  rw [substringTo, subSequence, if_pos ⟨Int.le_refl 0, Int.natCast_nonneg _, hbounds⟩]
  simp [Except.map]

theorem contains_iff {s w : String} : contains s w = true ↔ w.toList <:+: s.toList :=
  indexOf_isSome_iff

end HelloBoot
