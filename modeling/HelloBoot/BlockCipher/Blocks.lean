import Mathlib.Data.List.Basic
import Mathlib.Algebra.Order.Ring.Nat

/-!
# Texts in blocks

`ecb n f` does `f` to each block of `n` symbols of a text by itself. `pad n` fills a text of octets
up with as many octets as the last block lacks, or a whole block, each of which is their number, so
that they can be told from the text and taken off again (`unpad_pad`).
-/

namespace BlockCipher

variable {β : Type}

/-- What holds of the empty text and goes over from a text to that with a block before it holds of
every text that consists of blocks. -/
theorem blocks_induction {n : ℕ} {P : List β → Prop} (hnil : P [])
    (happend : ∀ b bs : List β, b.length = n → n ∣ bs.length → P bs → P (b ++ bs))
    {bs : List β} (h : n ∣ bs.length) : P bs := by
  obtain ⟨k, hk⟩ := h
  induction k generalizing bs with
  | zero =>
      rw [Nat.mul_zero] at hk
      rw [List.eq_nil_of_length_eq_zero hk]
      exact hnil
  | succ k ih =>
      rw [Nat.mul_succ] at hk
      have htake : (bs.take n).length = n := List.length_take_of_le (by omega)
      have hdrop : (bs.drop n).length = n * k := by
        rw [List.length_drop]
        omega
      rw [← List.take_append_drop n bs]
      exact happend _ _ htake ⟨k, hdrop⟩ (ih hdrop)

def onBlocks (n : ℕ) (f : List β → List β) : ℕ → List β → List β
  | 0, _ => []
  | k + 1, bs => f (bs.take n) ++ onBlocks n f k (bs.drop n)

/-- `f` on each block of `n`. -/
def ecb (n : ℕ) (f : List β → List β) (bs : List β) : List β := onBlocks n f (bs.length / n) bs

section Ecb

variable {n : ℕ} {f g : List β → List β}

theorem ecb_nil : ecb n f ([] : List β) = [] := by
  rw [ecb, List.length_nil, Nat.zero_div]
  rfl

theorem ecb_block_append (hn : 0 < n) {b : List β} (hb : b.length = n) (bs : List β) :
    ecb n f (b ++ bs) = f b ++ ecb n f bs := by
  have hlength : (b ++ bs).length / n = bs.length / n + 1 := by
    rw [List.length_append, hb, Nat.add_comm, Nat.add_div_right _ hn]
  rw [ecb, hlength, onBlocks, List.take_left' hb, List.drop_left' hb, ecb]

/-- The blocks do not depend on one another. -/
theorem ecb_append (hn : 0 < n) {as : List β} (has : n ∣ as.length) (bs : List β) :
    ecb n f (as ++ bs) = ecb n f as ++ ecb n f bs := by
  refine blocks_induction (P := fun as => ecb n f (as ++ bs) = ecb n f as ++ ecb n f bs) ?_ ?_ has
  · rw [ecb_nil]
    rfl
  · intro a as ha _ ih
    rw [List.append_assoc, ecb_block_append hn ha, ecb_block_append hn ha, ih, List.append_assoc]

theorem length_ecb (hn : 0 < n) (hf : ∀ b, b.length = n → (f b).length = n) {bs : List β}
    (hbs : n ∣ bs.length) : (ecb n f bs).length = bs.length := by
  refine blocks_induction (P := fun bs => (ecb n f bs).length = bs.length) ?_ ?_ hbs
  · rw [ecb_nil]
  · intro b bs hb _ ih
    rw [ecb_block_append hn hb, List.length_append, List.length_append, ih, hf b hb, hb]

theorem ecb_ecb (hn : 0 < n) (hf : ∀ b, b.length = n → (f b).length = n)
    (hg : ∀ b, b.length = n → g (f b) = b) {bs : List β} (hbs : n ∣ bs.length) :
    ecb n g (ecb n f bs) = bs := by
  refine blocks_induction (P := fun bs => ecb n g (ecb n f bs) = bs) ?_ ?_ hbs
  · rw [ecb_nil, ecb_nil]
  · intro b bs hb _ ih
    rw [ecb_block_append hn hb, ecb_block_append hn (hf b hb), hg b hb, ih]

end Ecb

/-! ### Padding -/

/-- The octets that fill a text up. -/
def padding (n : ℕ) (bs : List UInt8) : List UInt8 :=
  List.replicate (n - bs.length % n) (UInt8.ofNat (n - bs.length % n))

def pad (n : ℕ) (bs : List UInt8) : List UInt8 := bs ++ padding n bs

/-- The text before the padding; `none` if what there is is no padding. The empty text counts as
one without padding. -/
def unpad (n : ℕ) (bs : List UInt8) : Option (List UInt8) :=
  match bs.getLast? with
  | none => some []
  | some u =>
      let start := bs.length - u.toNat
      if 1 ≤ u.toNat ∧ u.toNat ≤ n ∧ u.toNat ≤ bs.length ∧
          bs.drop start = List.replicate u.toNat u then some (bs.take start)
      else none

theorem length_pad {n : ℕ} (hn : 0 < n) (bs : List UInt8) :
    (pad n bs).length = n * (bs.length / n + 1) := by
  have hdiv := Nat.div_add_mod bs.length n
  have hmod := Nat.mod_lt bs.length hn
  rw [pad, padding, List.length_append, List.length_replicate, Nat.mul_succ]
  omega

theorem dvd_length_pad {n : ℕ} (hn : 0 < n) (bs : List UInt8) : n ∣ (pad n bs).length :=
  ⟨_, length_pad hn bs⟩

theorem pad_append {n : ℕ} {as : List UInt8} (has : n ∣ as.length) (bs : List UInt8) :
    pad n (as ++ bs) = as ++ pad n bs := by
  have hmod : (as ++ bs).length % n = bs.length % n := by
    rw [List.length_append, Nat.add_mod, Nat.mod_eq_zero_of_dvd has, Nat.zero_add, Nat.mod_mod]
  rw [pad, padding, hmod, List.append_assoc, pad, padding]

theorem unpad_pad {n : ℕ} (hn : 0 < n) (hlt : n < 256) (bs : List UInt8) :
    unpad n (pad n bs) = some bs := by
  have hmod := Nat.mod_lt bs.length hn
  obtain ⟨k, hk⟩ : ∃ k, n - bs.length % n = k + 1 := ⟨n - bs.length % n - 1, by omega⟩
  have htoNat : (UInt8.ofNat (k + 1)).toNat = k + 1 := by
    rw [UInt8.toNat_ofNat']
    exact Nat.mod_eq_of_lt (by omega)
  have hlast : (pad n bs).getLast? = some (UInt8.ofNat (k + 1)) := by
    rw [pad, padding, hk, List.replicate_succ', ← List.append_assoc, List.getLast?_concat]
  have hstart : (pad n bs).length - (k + 1) = bs.length := by
    rw [pad, padding, hk, List.length_append, List.length_replicate, Nat.add_sub_cancel]
  have hle : k + 1 ≤ (pad n bs).length := by
    rw [pad, padding, hk, List.length_append, List.length_replicate]
    omega
  have hdrop : (pad n bs).drop bs.length = List.replicate (k + 1) (UInt8.ofNat (k + 1)) := by
    rw [pad, List.drop_left, padding, hk]
  unfold unpad
  simp only [hlast, htoNat, hstart, hdrop]
  rw [if_pos ⟨by omega, by omega, hle, trivial⟩, pad, List.take_left]

end BlockCipher
