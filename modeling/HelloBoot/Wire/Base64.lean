import Mathlib.Data.List.Basic
import Mathlib.Algebra.Order.Ring.Nat

/-!
# Base64

Three octets are written as four letters of six bits each, and what is left over at the end as
two or three letters, filled up with `=`. `ofBase64` reads such a text; it does without the `=` at
the end, but where there is one nothing may follow it.
-/

namespace Wire

/-- The letters, in the order of the six bits for which they stand. -/
def base64Letters : List Char :=
  ['A', 'B', 'C', 'D', 'E', 'F', 'G', 'H', 'I', 'J', 'K', 'L', 'M', 'N', 'O', 'P',
    'Q', 'R', 'S', 'T', 'U', 'V', 'W', 'X', 'Y', 'Z', 'a', 'b', 'c', 'd', 'e', 'f',
    'g', 'h', 'i', 'j', 'k', 'l', 'm', 'n', 'o', 'p', 'q', 'r', 's', 't', 'u', 'v',
    'w', 'x', 'y', 'z', '0', '1', '2', '3', '4', '5', '6', '7', '8', '9', '+', '/']

def letter (x : ℕ) : Char := base64Letters.getD (x % 64) 'A'

/-- The bits for which a letter stands. -/
def letterBits? (c : Char) : Option ℕ :=
  if c ∈ base64Letters then some (base64Letters.idxOf c) else none

def toBase64 : List UInt8 → List Char
  | [] => []
  | [a] =>
      let x := a.toNat * 65536
      [letter (x / 262144), letter (x / 4096), '=', '=']
  | [a, b] =>
      let x := a.toNat * 65536 + b.toNat * 256
      [letter (x / 262144), letter (x / 4096), letter (x / 64), '=']
  | a :: b :: c :: bs =>
      let x := a.toNat * 65536 + b.toNat * 256 + c.toNat
      letter (x / 262144) :: letter (x / 4096) :: letter (x / 64) :: letter x :: toBase64 bs

def ofTwo (p q : ℕ) : List UInt8 := [UInt8.ofNat ((p * 262144 + q * 4096) / 65536)]

def ofThree (p q r : ℕ) : List UInt8 :=
  let x := p * 262144 + q * 4096 + r * 64
  [UInt8.ofNat (x / 65536), UInt8.ofNat (x / 256)]

def ofFour (p q r s : ℕ) : List UInt8 :=
  let x := p * 262144 + q * 4096 + r * 64 + s
  [UInt8.ofNat (x / 65536), UInt8.ofNat (x / 256), UInt8.ofNat x]

def ofBase64 : List Char → Option (List UInt8)
  | [] => some []
  | [_] => none
  | [c, d] => do
      let p ← letterBits? c
      let q ← letterBits? d
      some (ofTwo p q)
  | [c, d, e] => do
      let p ← letterBits? c
      let q ← letterBits? d
      let r ← letterBits? e
      some (ofThree p q r)
  | c :: d :: e :: f :: cs => do
      let p ← letterBits? c
      let q ← letterBits? d
      if e = '=' then
        if f = '=' ∧ cs = [] then some (ofTwo p q) else none
      else
        let r ← letterBits? e
        if f = '=' then
          if cs = [] then some (ofThree p q r) else none
        else
          let s ← letterBits? f
          let bs ← ofBase64 cs
          some (ofFour p q r s ++ bs)

/-! ### The letters -/

theorem letter_facts :
    ∀ x < 64, letter x ≠ '=' ∧ (letter x).toNat < 128 ∧ letterBits? (letter x) = some x := by
  decide

theorem letter_mod (x : ℕ) : letter (x % 64) = letter x := by
  rw [letter, letter, Nat.mod_mod]

theorem letter_ne_pad (x : ℕ) : letter x ≠ '=' := by
  rw [← letter_mod]
  exact (letter_facts _ (Nat.mod_lt x (by decide))).1

theorem toNat_letter_lt (x : ℕ) : (letter x).toNat < 128 := by
  rw [← letter_mod]
  exact (letter_facts _ (Nat.mod_lt x (by decide))).2.1

theorem letterBits?_letter (x : ℕ) : letterBits? (letter x) = some (x % 64) := by
  rw [← letter_mod]
  exact (letter_facts _ (Nat.mod_lt x (by decide))).2.2

/-! ### Reading back -/

/-- The bits of four letters together. -/
theorem bits_eq {x : ℕ} (h : x < 16777216) :
    x / 262144 % 64 * 262144 + x / 4096 % 64 * 4096 + x / 64 % 64 * 64 + x % 64 = x := by
  omega

theorem ofNat_eq {u : UInt8} {x : ℕ} (h : x % 256 = u.toNat) : UInt8.ofNat x = u := by
  rw [← UInt8.toNat_inj, UInt8.toNat_ofNat']
  exact h

section Groups

variable (x : ℕ) {a b c : UInt8}

theorem ofTwo_letters (hx : a.toNat * 65536 = x) :
    ofTwo (x / 262144 % 64) (x / 4096 % 64) = [a] := by
  have ha : a.toNat < 256 := a.toNat_lt
  generalize hm : a.toNat = m at hx ha
  have hbits := bits_eq (x := x) (by omega)
  have hfst : (x / 262144 % 64 * 262144 + x / 4096 % 64 * 4096) / 65536 % 256 = m := by omega
  rw [ofTwo, ofNat_eq (hfst.trans hm.symm)]

theorem ofThree_letters (hx : a.toNat * 65536 + b.toNat * 256 = x) :
    ofThree (x / 262144 % 64) (x / 4096 % 64) (x / 64 % 64) = [a, b] := by
  have ha : a.toNat < 256 := a.toNat_lt
  have hb : b.toNat < 256 := b.toNat_lt
  generalize hm : a.toNat = m at hx ha
  generalize hn : b.toNat = n at hx hb
  have hbits := bits_eq (x := x) (by omega)
  have hlast : x % 64 = 0 := by omega
  rw [hlast, Nat.add_zero] at hbits
  have hfst : x / 65536 % 256 = m := by omega
  have hsnd : x / 256 % 256 = n := by omega
  rw [ofThree, hbits, ofNat_eq (hfst.trans hm.symm), ofNat_eq (hsnd.trans hn.symm)]

theorem ofFour_letters (hx : a.toNat * 65536 + b.toNat * 256 + c.toNat = x) :
    ofFour (x / 262144 % 64) (x / 4096 % 64) (x / 64 % 64) (x % 64) = [a, b, c] := by
  have ha : a.toNat < 256 := a.toNat_lt
  have hb : b.toNat < 256 := b.toNat_lt
  have hc : c.toNat < 256 := c.toNat_lt
  generalize hm : a.toNat = m at hx ha
  generalize hn : b.toNat = n at hx hb
  generalize hk : c.toNat = k at hx hc
  have hbits := bits_eq (x := x) (by omega)
  have hfst : x / 65536 % 256 = m := by omega
  have hsnd : x / 256 % 256 = n := by omega
  have hthd : x % 256 = k := by omega
  rw [ofFour, hbits, ofNat_eq (hfst.trans hm.symm), ofNat_eq (hsnd.trans hn.symm),
    ofNat_eq (hthd.trans hk.symm)]

end Groups

theorem ofBase64_toBase64 (bs : List UInt8) : ofBase64 (toBase64 bs) = some bs := by
  induction bs using toBase64.induct with
  | case1 => rfl
  | case2 a =>
      simp only [toBase64, ofBase64, letterBits?_letter, Option.bind_eq_bind, Option.bind_some,
        if_true, and_self]
      rw [ofTwo_letters _ rfl]
  | case3 a b =>
      simp only [toBase64, ofBase64, letterBits?_letter, Option.bind_eq_bind, Option.bind_some,
        if_true, if_neg (letter_ne_pad _)]
      rw [ofThree_letters _ rfl]
  | case4 a b c bs ih =>
      simp only [toBase64, ofBase64, letterBits?_letter, Option.bind_eq_bind, Option.bind_some, ih,
        if_neg (letter_ne_pad _)]
      rw [ofFour_letters _ rfl]
      rfl

/-- A text in Base64 consists of ASCII characters. -/
theorem toNat_lt_of_mem_toBase64 {bs : List UInt8} {c : Char} (h : c ∈ toBase64 bs) :
    c.toNat < 128 := by
  have hpad : '='.toNat < 128 := by decide
  induction bs using toBase64.induct with
  | case1 => cases h
  | case2 a =>
      simp only [toBase64, List.mem_cons, List.not_mem_nil, or_false] at h
      rcases h with rfl | rfl | rfl | rfl
      · exact toNat_letter_lt _
      · exact toNat_letter_lt _
      · exact hpad
      · exact hpad
  | case3 a b =>
      simp only [toBase64, List.mem_cons, List.not_mem_nil, or_false] at h
      rcases h with rfl | rfl | rfl | rfl
      · exact toNat_letter_lt _
      · exact toNat_letter_lt _
      · exact toNat_letter_lt _
      · exact hpad
  | case4 a b c bs ih =>
      simp only [toBase64, List.mem_cons] at h
      rcases h with rfl | rfl | rfl | rfl | h
      · exact toNat_letter_lt _
      · exact toNat_letter_lt _
      · exact toNat_letter_lt _
      · exact toNat_letter_lt _
      · exact ih h

theorem toBase64_eq_nil_iff {bs : List UInt8} : toBase64 bs = [] ↔ bs = [] := by
  fun_cases toBase64 bs <;> simp

theorem length_toBase64 (bs : List UInt8) : (toBase64 bs).length = (bs.length + 2) / 3 * 4 := by
  induction bs using toBase64.induct with
  | case1 => rfl
  | case2 a => simp only [toBase64, List.length_cons, List.length_nil]
  | case3 a b => simp only [toBase64, List.length_cons, List.length_nil]
  | case4 a b c bs ih =>
      simp only [toBase64, List.length_cons, ih]
      omega

end Wire
