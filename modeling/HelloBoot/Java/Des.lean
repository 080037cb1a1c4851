import HelloBoot.BlockCipher.Blocks
import HelloBoot.BlockCipher.Feistel
import HelloBoot.Wire.BigEndian

/-!
# DES

The cipher that `Cipher.getInstance("DES")` of the language's library gives, on one block. A block
is permuted, goes through sixteen Feistel rounds with a subkey each, and is permuted back; with
the subkeys in the reverse order this is undone (`crypt_reverse_crypt`). The subkeys are selected
from the key without the last bit of each octet (`subkeys_congr`).

Bits are numbered from the most significant one, which is the first; the tables are those of the
standard.
-/

namespace Des

open BlockCipher Wire

/-- The bits of `x` whose numbers stand in the table. -/
def select {n : ℕ} (table : List ℕ) (x : BitVec n) : BitVec table.length :=
  (BitVec.ofBoolListBE (table.map fun i => x.getMsbD (i - 1))).cast (List.length_map _)

def initialPermutation : List ℕ :=
  [58, 50, 42, 34, 26, 18, 10, 2, 60, 52, 44, 36, 28, 20, 12, 4,
    62, 54, 46, 38, 30, 22, 14, 6, 64, 56, 48, 40, 32, 24, 16, 8,
    57, 49, 41, 33, 25, 17, 9, 1, 59, 51, 43, 35, 27, 19, 11, 3,
    61, 53, 45, 37, 29, 21, 13, 5, 63, 55, 47, 39, 31, 23, 15, 7]

def finalPermutation : List ℕ :=
  [40, 8, 48, 16, 56, 24, 64, 32, 39, 7, 47, 15, 55, 23, 63, 31,
    38, 6, 46, 14, 54, 22, 62, 30, 37, 5, 45, 13, 53, 21, 61, 29,
    36, 4, 44, 12, 52, 20, 60, 28, 35, 3, 43, 11, 51, 19, 59, 27,
    34, 2, 42, 10, 50, 18, 58, 26, 33, 1, 41, 9, 49, 17, 57, 25]

def expansion : List ℕ :=
  [32, 1, 2, 3, 4, 5, 4, 5, 6, 7, 8, 9,
    8, 9, 10, 11, 12, 13, 12, 13, 14, 15, 16, 17,
    16, 17, 18, 19, 20, 21, 20, 21, 22, 23, 24, 25,
    24, 25, 26, 27, 28, 29, 28, 29, 30, 31, 32, 1]

def roundPermutation : List ℕ :=
  [16, 7, 20, 21, 29, 12, 28, 17, 1, 15, 23, 26, 5, 18, 31, 10,
    2, 8, 24, 14, 32, 27, 3, 9, 19, 13, 30, 6, 22, 11, 4, 25]

/-- The bits of the key that are used. -/
def permutedChoice1 : List ℕ :=
  [57, 49, 41, 33, 25, 17, 9, 1, 58, 50, 42, 34, 26, 18,
    10, 2, 59, 51, 43, 35, 27, 19, 11, 3, 60, 52, 44, 36,
    63, 55, 47, 39, 31, 23, 15, 7, 62, 54, 46, 38, 30, 22,
    14, 6, 61, 53, 45, 37, 29, 21, 13, 5, 28, 20, 12, 4]

def permutedChoice2 : List ℕ :=
  [14, 17, 11, 24, 1, 5, 3, 28, 15, 6, 21, 10,
    23, 19, 12, 4, 26, 8, 16, 7, 27, 20, 13, 2,
    41, 52, 31, 37, 47, 55, 30, 40, 51, 45, 33, 48,
    44, 49, 39, 56, 34, 53, 46, 42, 50, 36, 29, 32]

/-- By how many bits the halves of the key are rotated before each round. -/
def rotations : List ℕ :=
  [1, 1, 2, 2, 2, 2, 2, 2, 1, 2, 2, 2, 2, 2, 2, 1]

/-- The substitution boxes, four rows of sixteen each. -/
def boxes : List (List ℕ) :=
  [[14, 4, 13, 1, 2, 15, 11, 8, 3, 10, 6, 12, 5, 9, 0, 7,
      0, 15, 7, 4, 14, 2, 13, 1, 10, 6, 12, 11, 9, 5, 3, 8,
      4, 1, 14, 8, 13, 6, 2, 11, 15, 12, 9, 7, 3, 10, 5, 0,
      15, 12, 8, 2, 4, 9, 1, 7, 5, 11, 3, 14, 10, 0, 6, 13],
    [15, 1, 8, 14, 6, 11, 3, 4, 9, 7, 2, 13, 12, 0, 5, 10,
      3, 13, 4, 7, 15, 2, 8, 14, 12, 0, 1, 10, 6, 9, 11, 5,
      0, 14, 7, 11, 10, 4, 13, 1, 5, 8, 12, 6, 9, 3, 2, 15,
      13, 8, 10, 1, 3, 15, 4, 2, 11, 6, 7, 12, 0, 5, 14, 9],
    [10, 0, 9, 14, 6, 3, 15, 5, 1, 13, 12, 7, 11, 4, 2, 8,
      13, 7, 0, 9, 3, 4, 6, 10, 2, 8, 5, 14, 12, 11, 15, 1,
      13, 6, 4, 9, 8, 15, 3, 0, 11, 1, 2, 12, 5, 10, 14, 7,
      1, 10, 13, 0, 6, 9, 8, 7, 4, 15, 14, 3, 11, 5, 2, 12],
    [7, 13, 14, 3, 0, 6, 9, 10, 1, 2, 8, 5, 11, 12, 4, 15,
      13, 8, 11, 5, 6, 15, 0, 3, 4, 7, 2, 12, 1, 10, 14, 9,
      10, 6, 9, 0, 12, 11, 7, 13, 15, 1, 3, 14, 5, 2, 8, 4,
      3, 15, 0, 6, 10, 1, 13, 8, 9, 4, 5, 11, 12, 7, 2, 14],
    [2, 12, 4, 1, 7, 10, 11, 6, 8, 5, 3, 15, 13, 0, 14, 9,
      14, 11, 2, 12, 4, 7, 13, 1, 5, 0, 15, 10, 3, 9, 8, 6,
      4, 2, 1, 11, 10, 13, 7, 8, 15, 9, 12, 5, 6, 3, 0, 14,
      11, 8, 12, 7, 1, 14, 2, 13, 6, 15, 0, 9, 10, 4, 5, 3],
    [12, 1, 10, 15, 9, 2, 6, 8, 0, 13, 3, 4, 14, 7, 5, 11,
      10, 15, 4, 2, 7, 12, 9, 5, 6, 1, 13, 14, 0, 11, 3, 8,
      9, 14, 15, 5, 2, 8, 12, 3, 7, 0, 4, 10, 1, 13, 11, 6,
      4, 3, 2, 12, 9, 5, 15, 10, 11, 14, 1, 7, 6, 0, 8, 13],
    [4, 11, 2, 14, 15, 0, 8, 13, 3, 12, 9, 7, 5, 10, 6, 1,
      13, 0, 11, 7, 4, 9, 1, 10, 14, 3, 5, 12, 2, 15, 8, 6,
      1, 4, 11, 13, 12, 3, 7, 14, 10, 15, 6, 8, 0, 5, 9, 2,
      6, 11, 13, 8, 1, 4, 10, 7, 9, 5, 0, 15, 14, 2, 3, 12],
    [13, 2, 8, 4, 6, 15, 11, 1, 10, 9, 3, 14, 5, 0, 12, 7,
      1, 15, 13, 8, 10, 3, 7, 4, 12, 5, 6, 11, 0, 14, 9, 2,
      7, 11, 4, 1, 9, 12, 14, 2, 0, 6, 10, 13, 15, 3, 5, 8,
      2, 1, 14, 7, 4, 10, 8, 13, 15, 12, 9, 0, 3, 5, 6, 11]]

def initial (x : BitVec 64) : BitVec 64 := select initialPermutation x

def final (x : BitVec 64) : BitVec 64 := select finalPermutation x

def expand (x : BitVec 32) : BitVec 48 := select expansion x

def permute (x : BitVec 32) : BitVec 32 := select roundPermutation x

def choose1 (x : BitVec 64) : BitVec 56 := select permutedChoice1 x

def choose2 (x : BitVec 56) : BitVec 48 := select permutedChoice2 x

/-- A box on six bits: the outer ones are the row, the inner ones the column. -/
def substitute (box : List ℕ) (x : BitVec 6) : BitVec 4 :=
  let row := 2 * (x.getMsbD 0).toNat + (x.getMsbD 5).toNat
  let column := (x.extractLsb' 1 4).toNat
  BitVec.ofNat 4 (box.getD (16 * row + column) 0)

def substituteAll (x : BitVec 48) : BitVec 32 :=
  boxes.zipIdx.foldl (fun acc b =>
    acc <<< 4 ||| (substitute b.1 (x.extractLsb' (42 - 6 * b.2) 6)).zeroExtend 32) 0

def roundFunction (subkey : BitVec 48) (x : BitVec 32) : BitVec 32 :=
  permute (substituteAll (expand x ^^^ subkey))

/-- The subkeys that come of the halves of the key, each rotated before it is used. -/
def subkeysFrom : List ℕ → BitVec 28 → BitVec 28 → List (BitVec 48)
  | [], _, _ => []
  | k :: ks, c, d =>
      let c := c.rotateLeft k
      let d := d.rotateLeft k
      choose2 (c ++ d) :: subkeysFrom ks c d

def subkeys (key : BitVec 64) : List (BitVec 48) :=
  let x := choose1 key
  subkeysFrom rotations (x.extractLsb' 28 28) (x.extractLsb' 0 28)

/-- The cipher with the subkeys in their order. -/
def crypt (subkeys : List (BitVec 48)) (block : BitVec 64) : BitVec 64 :=
  let x := initial block
  let y := feistel (· ^^^ ·) (subkeys.map roundFunction) (x.extractLsb' 32 32, x.extractLsb' 0 32)
  final (y.1 ++ y.2)

/-- The number that the octets of a block, or of a key, spell. -/
def ofOctets (b : List UInt8) : BitVec 64 := BitVec.ofNat 64 (ofBigEndian b)

def toOctets (x : BitVec 64) : List UInt8 := bigEndian 8 x.toNat

def encryptBlock (key : List UInt8) (b : List UInt8) : List UInt8 :=
  toOctets (crypt (subkeys (ofOctets key)) (ofOctets b))

def decryptBlock (key : List UInt8) (b : List UInt8) : List UInt8 :=
  toOctets (crypt (subkeys (ofOctets key)).reverse (ofOctets b))

/-! ### The blocks are read back -/

section Select

variable {n : ℕ} {table : List ℕ}

theorem getMsbD_select (x : BitVec n) {i : ℕ} (h : i < table.length) :
    (select table x).getMsbD i = x.getMsbD (table.getD i 0 - 1) := by
  rw [select, BitVec.getMsbD_cast, BitVec.getMsbD_ofBoolListBE, List.getD_eq_getElem?_getD,
    List.getElem?_map, List.getElem?_eq_getElem h, List.getD_eq_getElem?_getD,
    List.getElem?_eq_getElem h]
  rfl

theorem select_congr {x y : BitVec n} (h : ∀ i ∈ table, x.getMsbD (i - 1) = y.getMsbD (i - 1)) :
    select table x = select table y := by
  refine BitVec.eq_of_getMsbD_eq fun i hi => ?_
  rw [getMsbD_select x hi, getMsbD_select y hi]
  rw [List.getD_eq_getElem?_getD, List.getElem?_eq_getElem hi]
  exact h _ (List.getElem_mem hi)

end Select

theorem permutations_inverse :
    (∀ i < 64, finalPermutation.getD i 0 - 1 < 64 ∧
      initialPermutation.getD (finalPermutation.getD i 0 - 1) 0 - 1 = i) ∧
    ∀ i < 64, initialPermutation.getD i 0 - 1 < 64 ∧
      finalPermutation.getD (initialPermutation.getD i 0 - 1) 0 - 1 = i := by
  decide

theorem final_initial (x : BitVec 64) : final (initial x) = x := by
  refine BitVec.eq_of_getMsbD_eq fun i hi => ?_
  obtain ⟨hlt, hinv⟩ := permutations_inverse.1 i hi
  have hfinal : (final (initial x)).getMsbD i =
      (initial x).getMsbD (finalPermutation.getD i 0 - 1) := getMsbD_select _ hi
  have hinitial : (initial x).getMsbD (finalPermutation.getD i 0 - 1) =
      x.getMsbD (initialPermutation.getD (finalPermutation.getD i 0 - 1) 0 - 1) :=
    getMsbD_select x hlt
  rw [hfinal, hinitial, hinv]

theorem initial_final (x : BitVec 64) : initial (final x) = x := by
  refine BitVec.eq_of_getMsbD_eq fun i hi => ?_
  obtain ⟨hlt, hinv⟩ := permutations_inverse.2 i hi
  have hinitial : (initial (final x)).getMsbD i =
      (final x).getMsbD (initialPermutation.getD i 0 - 1) := getMsbD_select _ hi
  have hfinal : (final x).getMsbD (initialPermutation.getD i 0 - 1) =
      x.getMsbD (finalPermutation.getD (initialPermutation.getD i 0 - 1) 0 - 1) :=
    getMsbD_select x hlt
  rw [hinitial, hfinal, hinv]

theorem xor_xor_self (a b : BitVec 32) : a ^^^ b ^^^ b = a := by
  rw [BitVec.xor_assoc, BitVec.xor_self, BitVec.xor_zero]

/-- With the subkeys in the reverse order, the cipher goes back. -/
theorem crypt_reverse_crypt (subkeys : List (BitVec 48)) (block : BitVec 64) :
    crypt subkeys.reverse (crypt subkeys block) = block := by
  obtain ⟨x, hx⟩ : ∃ x, initial block = x := ⟨_, rfl⟩
  obtain ⟨y, hy⟩ : ∃ y, feistel (· ^^^ ·) (subkeys.map roundFunction)
      (x.extractLsb' 32 32, x.extractLsb' 0 32) = y := ⟨_, rfl⟩
  have hback : feistel (· ^^^ ·) (subkeys.reverse.map roundFunction) y =
      (x.extractLsb' 32 32, x.extractLsb' 0 32) := by
    rw [List.map_reverse, ← hy]
    exact feistel_reverse_feistel xor_xor_self _ _
  have hfst : (y.1 ++ y.2).extractLsb' 32 32 = y.1 := BitVec.extractLsb'_append_eq_left
  have hsnd : (y.1 ++ y.2).extractLsb' 0 32 = y.2 := BitVec.extractLsb'_append_eq_right
  have hjoin : x.extractLsb' 32 32 ++ x.extractLsb' 0 32 = x :=
    BitVec.extractLsb'_append_extractLsb'
  simp only [crypt, hx, hy, initial_final, hfst, hsnd, hback, hjoin]
  rw [← hx, final_initial]

theorem length_toOctets (x : BitVec 64) : (toOctets x).length = 8 := length_bigEndian 8 x.toNat

theorem ofOctets_toOctets (x : BitVec 64) : ofOctets (toOctets x) = x := by
  have hlt : x.toNat < 256 ^ 8 := x.isLt
  rw [ofOctets, toOctets, ofBigEndian_bigEndian_of_lt hlt, BitVec.ofNat_toNat, BitVec.setWidth_eq]

theorem toOctets_ofOctets {b : List UInt8} (h : b.length = 8) : toOctets (ofOctets b) = b := by
  have hlt := ofBigEndian_lt b
  rw [h] at hlt
  have htoNat : (ofOctets b).toNat = ofBigEndian b := Nat.mod_eq_of_lt hlt
  have hb := bigEndian_ofBigEndian b
  rw [h] at hb
  rw [toOctets, htoNat, hb]

theorem length_encryptBlock (key b : List UInt8) : (encryptBlock key b).length = 8 :=
  length_toOctets _

theorem decryptBlock_encryptBlock (key : List UInt8) {b : List UInt8} (h : b.length = 8) :
    decryptBlock key (encryptBlock key b) = b := by
  rw [decryptBlock, encryptBlock, ofOctets_toOctets, crypt_reverse_crypt, toOctets_ofOctets h]

/-! ### What of the key is used -/

theorem permutedChoice1_spec : ∀ i ∈ permutedChoice1, 1 ≤ i ∧ i ≤ 64 ∧ i % 8 ≠ 0 := by decide

/-- The last bit of each octet of the key has no part in the subkeys. -/
theorem subkeys_congr {key key' : List UInt8}
    (h : key.map (fun u => u.toNat / 2) = key'.map (fun u => u.toNat / 2)) :
    subkeys (ofOctets key) = subkeys (ofOctets key') := by
  have hchosen : choose1 (ofOctets key) = choose1 (ofOctets key') := by
    refine select_congr fun i hi => ?_
    obtain ⟨hone, hle, hmod⟩ := permutedChoice1_spec i hi
    have hbit (k : List UInt8) : (ofOctets k).getMsbD (i - 1) = (ofBigEndian k).testBit (64 - i) := by
      have hlt : i - 1 < 64 := by omega
      have hindex : 64 - 1 - (i - 1) = 64 - i := by omega
      have hsmall : 64 - i < 64 := by omega
      rw [BitVec.getMsbD_eq_getLsbD, hindex, ofOctets, BitVec.getLsbD_ofNat, decide_eq_true hlt,
        decide_eq_true hsmall, Bool.true_and, Bool.true_and]
    rw [hbit, hbit]
    exact testBit_ofBigEndian_congr h (by omega)
  rw [subkeys, subkeys, hchosen]

theorem encryptBlock_congr {key key' : List UInt8}
    (h : key.map (fun u => u.toNat / 2) = key'.map (fun u => u.toNat / 2)) :
    encryptBlock key = encryptBlock key' := by
  funext b
  rw [encryptBlock, encryptBlock, subkeys_congr h]

theorem decryptBlock_congr {key key' : List UInt8}
    (h : key.map (fun u => u.toNat / 2) = key'.map (fun u => u.toNat / 2)) :
    decryptBlock key = decryptBlock key' := by
  funext b
  rw [decryptBlock, decryptBlock, subkeys_congr h]

end Des
