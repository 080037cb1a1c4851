import HelloBoot.Wire.Reader
import Mathlib.Algebra.Order.Ring.Nat
import Mathlib.Data.List.Induction
import Mathlib.Tactic.Ring

/-!
# Numbers in big-endian octets

`bigEndian n x` are the last `n` octets of `x`, the most significant one first, and
`ofBigEndian` is the number that octets spell. The readers at the end take the fixed-width
integers off that are written so.
-/

namespace Wire

def bigEndian : ℕ → ℕ → List UInt8
  | 0, _ => []
  | n + 1, x => bigEndian n (x / 256) ++ [UInt8.ofNat x]

def ofBigEndian (b : List UInt8) : ℕ := b.foldl (fun x u => 256 * x + u.toNat) 0

@[simp] theorem length_bigEndian (n x : ℕ) : (bigEndian n x).length = n := by
  induction n generalizing x with
  | zero => rfl
  | succ n ih => rw [bigEndian, List.length_append, ih, List.length_singleton]

theorem ofBigEndian_append_singleton (b : List UInt8) (u : UInt8) :
    ofBigEndian (b ++ [u]) = 256 * ofBigEndian b + u.toNat := by
  rw [ofBigEndian, List.foldl_append]
  rfl

theorem ofBigEndian_bigEndian (n x : ℕ) : ofBigEndian (bigEndian n x) = x % 256 ^ n := by
  induction n generalizing x with
  | zero => rw [pow_zero, Nat.mod_one]; rfl
  | succ n ih =>
      have hlast : (UInt8.ofNat x).toNat = x % 256 := UInt8.toNat_ofNat'
      rw [bigEndian, ofBigEndian_append_singleton, ih, hlast, pow_succ, mul_comm (256 ^ n),
        Nat.mod_mul, add_comm]

theorem ofBigEndian_bigEndian_of_lt {n x : ℕ} (h : x < 256 ^ n) :
    ofBigEndian (bigEndian n x) = x := by
  rw [ofBigEndian_bigEndian, Nat.mod_eq_of_lt h]

theorem ofBigEndian_lt (b : List UInt8) : ofBigEndian b < 256 ^ b.length := by
  induction b using List.reverseRecOn with
  | nil => decide
  | append_singleton b u ih =>
      have hu : u.toNat < 256 := u.toNat_lt
      rw [ofBigEndian_append_singleton, List.length_append, List.length_singleton, pow_succ]
      omega

theorem bigEndian_ofBigEndian (b : List UInt8) : bigEndian b.length (ofBigEndian b) = b := by
  induction b using List.reverseRecOn with
  | nil => rfl
  | append_singleton b u ih =>
      have hu : u.toNat < 256 := u.toNat_lt
      have hdiv : (256 * ofBigEndian b + u.toNat) / 256 = ofBigEndian b := by omega
      have hlast : UInt8.ofNat (256 * ofBigEndian b + u.toNat) = u := by
        rw [← UInt8.toNat_inj, UInt8.toNat_ofNat']
        omega
      rw [List.length_append, List.length_singleton, bigEndian, ofBigEndian_append_singleton, hdiv,
        hlast, ih]

/-- The bits of the number but for the last ones of the octets are determined by the octets
without their last bits. -/
theorem testBit_ofBigEndian_congr {b b' : List UInt8}
    (h : b.map (fun u => u.toNat / 2) = b'.map (fun u => u.toNat / 2)) {i : ℕ} (hi : i % 8 ≠ 0) :
    (ofBigEndian b).testBit i = (ofBigEndian b').testBit i := by
  induction b using List.reverseRecOn generalizing b' i with
  | nil => rw [List.map_eq_nil_iff.mp h.symm]
  | append_singleton b u ih =>
      rw [List.map_append, List.map_singleton] at h
      obtain ⟨c, d, rfl, hc, hd⟩ := List.map_eq_append_iff.mp h.symm
      obtain ⟨v, rfl, hv⟩ := List.map_eq_singleton_iff.mp hd
      have hu : u.toNat < 2 ^ 8 := u.toNat_lt
      have hv' : v.toNat < 2 ^ 8 := v.toNat_lt
      rw [ofBigEndian_append_singleton, ofBigEndian_append_singleton,
        Nat.testBit_two_pow_mul_add _ hu, Nat.testBit_two_pow_mul_add _ hv']
      split
      case isTrue hlt =>
          obtain ⟨k, rfl⟩ : ∃ k, i = k + 1 := ⟨i - 1, by omega⟩
          rw [Nat.testBit_succ, Nat.testBit_succ, hv]
      case isFalse hge => exact ih hc.symm (by omega)

namespace Reader

variable {ε α : Type}

def number (e : ε) (n : ℕ) (f : ℕ → α) : Reader UInt8 ε α :=
  mapOption e (fun b => some (f (ofBigEndian b))) (take e n)

theorem takes_number (e : ε) {n x : ℕ} (h : x < 256 ^ n) {f : ℕ → α} {a : α} (hf : f x = a) :
    Takes (number e n f) (bigEndian n x) a := by
  have htake := takes_take e (bigEndian n x)
  rw [length_bigEndian] at htake
  exact htake.mapOption (by rw [ofBigEndian_bigEndian_of_lt h, hf])

theorem strict_number (e : ε) {n : ℕ} (hn : 0 < n) (f : ℕ → α) : (number e n f).Strict :=
  (strict_take e hn).mapOption e _

end Reader

end Wire
