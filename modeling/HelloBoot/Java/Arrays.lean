import HelloBoot.Java.Throwable
import Mathlib.Data.Nat.Notation
import Mathlib.Data.Int.Notation
import Mathlib.Logic.Function.Basic

/-!
# Arrays

An array of length `n` is a function on `Fin n`. An index is an `int`, and reading or
writing beside the array throws.
-/

namespace HelloBoot.Arrays

variable {α : Type*} {n : ℕ}

def read (a : Fin n → α) (i : ℤ) : Except Throwable α :=
  if h : 0 ≤ i ∧ i < n then .ok (a ⟨i.toNat, by omega⟩) else .error .indexOutOfBounds

def write (a : Fin n → α) (i : ℤ) (v : α) : Except Throwable (Fin n → α) :=
  if h : 0 ≤ i ∧ i < n then .ok (Function.update a ⟨i.toNat, by omega⟩ v)
  else .error .indexOutOfBounds

theorem read_of_lt (a : Fin n → α) {i : ℕ} (h : i < n) : read a i = .ok (a ⟨i, h⟩) := by
  simp [read, h]

theorem write_of_lt (a : Fin n → α) {i : ℕ} (h : i < n) (v : α) :
    write a i v = .ok (Function.update a ⟨i, h⟩ v) := by
  simp [write, h]

end HelloBoot.Arrays
