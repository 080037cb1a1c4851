import Mathlib.Data.List.Basic

/-!
# Percent coding of text

The text is first written in UTF-8 (`utf8`). `encode` keeps the letters, the digits and
`.`, `-`, `*`, `_`, writes a space as `+` and every other octet as `%` and two
hexadecimal digits; `decode` goes the other way, and fails at a `%` that two hexadecimal
digits do not follow, and at octets that are not UTF-8.

What has been encoded can be decoded (`decode_encode`). A text that is decoded without
having been encoded loses two octets for each `%` (`length_of_decode`), and without a `%`
its plus signs become spaces (`unescape_of_notMem`).
-/

namespace FormUrlEncoded

abbrev Octets := List UInt8

def amp : UInt8 := 38
def equals : UInt8 := 61
def plus : UInt8 := 43
def percent : UInt8 := 37
def space : UInt8 := 32

def utf8 (s : String) : Octets := s.toByteArray.data.toList

def ofUtf8? (b : Octets) : Option String := String.fromUTF8? b.toByteArray

section Utf8

variable {s t : String} {b : Octets}

theorem utf8_eq (s : String) : utf8 s = s.toList.flatMap String.utf8EncodeChar := by
  rw [utf8, ← String.utf8Encode_toList, List.utf8Encode, List.toList_data_toByteArray]

theorem toByteArray_utf8 (s : String) : (utf8 s).toByteArray = s.toByteArray := by
  rw [utf8_eq, ← List.utf8Encode, String.utf8Encode_toList]

@[simp] theorem ofUtf8?_utf8 (s : String) : ofUtf8? (utf8 s) = some s := by
  rw [ofUtf8?, toByteArray_utf8]
  exact dif_pos s.isValidUTF8

theorem ofUtf8?_eq_some_iff : ofUtf8? b = some s ↔ b = utf8 s := by
  constructor
  · intro h
    rw [ofUtf8?, String.fromUTF8?] at h
    split at h
    · rw [← List.toByteArray_inj, toByteArray_utf8, ← Option.some.inj h]
      rfl
    · cases h
  · rintro rfl
    exact ofUtf8?_utf8 s

@[simp] theorem utf8_append (s t : String) : utf8 (s ++ t) = utf8 s ++ utf8 t := by
  simp [utf8_eq]

theorem utf8_ofList (l : List Char) : utf8 (String.ofList l) = l.flatMap String.utf8EncodeChar := by
  rw [utf8_eq, String.toList_ofList]

/-- The octet of an ASCII character occurs for that character only. -/
theorem mem_utf8EncodeChar_iff {c : Char} (hc : c.val.toNat < 128) (d : Char) :
    c.val.toUInt8 ∈ String.utf8EncodeChar d ↔ c = d := by
  have heq : c = d ↔ c.val.toNat = d.val.toNat := by
    rw [Char.ext_iff, UInt32.toNat_inj]
  have hoctet : c.val.toUInt8.toNat = c.val.toNat := by
    rw [UInt32.toNat_toUInt8]
    omega
  -- every octet of a longer code is at least 128
  rw [heq, String.utf8EncodeChar]
  split <;> [skip; split <;> [skip; split]] <;>
    simp only [List.mem_cons, List.not_mem_nil, or_false, ← UInt8.toNat_inj, hoctet,
      UInt8.toNat_ofNat'] <;> omega

theorem mem_utf8_iff {c : Char} (hc : c.val.toNat < 128) :
    c.val.toUInt8 ∈ utf8 s ↔ c ∈ s.toList := by
  rw [utf8_eq, List.mem_flatMap]
  simp only [mem_utf8EncodeChar_iff hc, exists_eq_right']

def ascii (b : Octets) : String := String.ofList (b.map Char.ofUInt8)

theorem utf8EncodeChar_ofUInt8 {x : UInt8} (hx : x < 128) :
    String.utf8EncodeChar (Char.ofUInt8 x) = [x] := by
  have hlt : x.toNat < 128 := UInt8.lt_iff_toNat_lt.mp hx
  have hval : (Char.ofUInt8 x).val.toNat = x.toNat := UInt8.toNat_toUInt32 x
  rw [String.utf8EncodeChar, hval, if_pos (by omega), UInt8.ofNat_toNat]

theorem utf8_ascii (hb : ∀ x ∈ b, x < 128) : utf8 (ascii b) = b := by
  rw [ascii, utf8_ofList, List.flatMap_map]
  induction b with
  | nil => rfl
  | cons x b ih =>
      obtain ⟨hx, hb⟩ := List.forall_mem_cons.mp hb
      rw [List.flatMap_cons, utf8EncodeChar_ofUInt8 hx, ih hb]
      rfl

end Utf8

def hexDigit (n : ℕ) : UInt8 := UInt8.ofNat (if n < 10 then 48 + n else 55 + n)

def hexValue? (x : UInt8) : Option ℕ :=
  let n := x.toNat
  if 48 ≤ n ∧ n ≤ 57 then some (n - 48)
  else if 65 ≤ n ∧ n ≤ 70 then some (n - 55)
  else if 97 ≤ n ∧ n ≤ 102 then some (n - 87)
  else none

theorem hexValue?_hexDigit {n : ℕ} (hn : n < 16) : hexValue? (hexDigit n) = some n := by
  revert n
  decide

def unescape : Octets → Option Octets
  | [] => some []
  | x :: b =>
      if x = percent then
        match b with
        | h :: l :: b => do
            let h ← hexValue? h
            let l ← hexValue? l
            return UInt8.ofNat (16 * h + l) :: (← unescape b)
        | _ => none
      else if x = plus then (unescape b).map (space :: ·)
      else (unescape b).map (x :: ·)

section Unescape

variable {b c : Octets}

theorem ne_percent_of_hexValue? {x : UInt8} {n : ℕ} (h : hexValue? x = some n) : x ≠ percent := by
  rintro rfl
  cases h

theorem unescape_percent_cons {h l : UInt8} {m n : ℕ} (hm : hexValue? h = some m)
    (hn : hexValue? l = some n) (b : Octets) :
    unescape (percent :: h :: l :: b) = (unescape b).map (UInt8.ofNat (16 * m + n) :: ·) := by
  rw [unescape, if_pos rfl, hm, hn]
  cases unescape b <;> rfl

theorem exists_of_unescape_percent_cons {h l : UInt8}
    (hc : unescape (percent :: h :: l :: b) = some c) :
    h ≠ percent ∧ l ≠ percent ∧ ∃ x d, unescape b = some d ∧ c = x :: d := by
  cases hm : hexValue? h with
  | none =>
      rw [unescape, if_pos rfl, hm] at hc
      cases hc
  | some m =>
      cases hn : hexValue? l with
      | none =>
          rw [unescape, if_pos rfl, hm, hn] at hc
          cases hc
      | some n =>
          rw [unescape_percent_cons hm hn] at hc
          obtain ⟨d, hd, rfl⟩ := Option.map_eq_some_iff.mp hc
          exact ⟨ne_percent_of_hexValue? hm, ne_percent_of_hexValue? hn, _, d, hd, rfl⟩

theorem unescape_plus_cons (b : Octets) :
    unescape (plus :: b) = (unescape b).map (space :: ·) := by
  rw [unescape.eq_def]
  exact (if_neg (by decide)).trans (if_pos rfl)

theorem unescape_cons {x : UInt8} (hpercent : x ≠ percent) (hplus : x ≠ plus) (b : Octets) :
    unescape (x :: b) = (unescape b).map (x :: ·) := by
  rw [unescape.eq_def]
  exact (if_neg hpercent).trans (if_neg hplus)

theorem length_of_unescape (h : unescape b = some c) :
    c.length + 2 * b.count percent = b.length := by
  induction b using unescape.induct generalizing c with
  | case1 =>
      cases h
      rfl
  | case2 x y b ih =>
      obtain ⟨hx, hy, z, d, hd, rfl⟩ := exists_of_unescape_percent_cons h
      have hlen := ih hd
      rw [List.count_cons_self, List.count_cons_of_ne hx, List.count_cons_of_ne hy]
      simp only [List.length_cons]
      omega
  | case3 b hb =>
      rw [unescape, if_pos rfl] at h
      · cases h
      · exact hb
  | case4 b hne ih =>
      rw [unescape_plus_cons] at h
      obtain ⟨d, hd, rfl⟩ := Option.map_eq_some_iff.mp h
      have hlen := ih hd
      rw [List.count_cons_of_ne hne]
      simp only [List.length_cons]
      omega
  | case5 x b hpercent hplus ih =>
      rw [unescape_cons hpercent hplus] at h
      obtain ⟨d, hd, rfl⟩ := Option.map_eq_some_iff.mp h
      have hlen := ih hd
      rw [List.count_cons_of_ne hpercent]
      simp only [List.length_cons]
      omega

theorem unescape_of_notMem (h : percent ∉ b) :
    unescape b = some (b.map fun x => if x = plus then space else x) := by
  induction b with
  | nil => rfl
  | cons x b ih =>
      rw [List.mem_cons, not_or] at h
      by_cases hplus : x = plus
      · subst hplus
        rw [unescape_plus_cons, ih h.2]
        rfl
      · rw [unescape_cons (Ne.symm h.1) hplus, ih h.2, List.map_cons, if_neg hplus]
        rfl

end Unescape

def isUnreserved (x : UInt8) : Bool :=
  let n := x.toNat
  (48 ≤ n && n ≤ 57) || (65 ≤ n && n ≤ 90) || (97 ≤ n && n ≤ 122) ||
    n = 46 || n = 45 || n = 42 || n = 95

def escapeOctet (x : UInt8) : Octets :=
  if isUnreserved x then [x]
  else if x = space then [plus]
  else [percent, hexDigit (x.toNat / 16), hexDigit (x.toNat % 16)]

section Escape

variable {x y : UInt8}

theorem ne_of_isUnreserved (hx : isUnreserved x = true) (hy : isUnreserved y = false) : x ≠ y := by
  rintro rfl
  rw [hx] at hy
  cases hy

theorem lt_of_isUnreserved (hx : isUnreserved x = true) : x < 128 := by
  simp only [isUnreserved, Bool.or_eq_true, Bool.and_eq_true, decide_eq_true_eq] at hx
  rw [UInt8.lt_iff_toNat_lt]
  change x.toNat < 128
  omega

theorem isUnreserved_hexDigit {n : ℕ} (hn : n < 16) : isUnreserved (hexDigit n) = true := by
  revert n
  decide

/-- An escape is made of unreserved octets, `%` and `+`. -/
theorem of_mem_escapeOctet (h : y ∈ escapeOctet x) :
    isUnreserved y = true ∨ y = percent ∨ y = plus := by
  have hx := x.toNat_lt
  rw [escapeOctet] at h
  split at h
  case isTrue hun => exact .inl (List.mem_singleton.mp h ▸ hun)
  case isFalse =>
      split at h
      · exact .inr (.inr (List.mem_singleton.mp h))
      · simp only [List.mem_cons, List.not_mem_nil, or_false] at h
        rcases h with rfl | rfl | rfl
        · exact .inr (.inl rfl)
        · exact .inl (isUnreserved_hexDigit (by omega))
        · exact .inl (isUnreserved_hexDigit (by omega))

theorem unescape_escapeOctet (x : UInt8) (b : Octets) :
    unescape (escapeOctet x ++ b) = (unescape b).map (x :: ·) := by
  rw [escapeOctet]
  split
  case isTrue h =>
      exact unescape_cons (ne_of_isUnreserved h (by decide)) (ne_of_isUnreserved h (by decide)) b
  case isFalse =>
      split
      case isTrue h =>
          rw [h]
          exact unescape_plus_cons b
      case isFalse =>
          have hx := x.toNat_lt
          rw [List.cons_append, List.cons_append, List.cons_append, List.nil_append,
            unescape_percent_cons (hexValue?_hexDigit (by omega)) (hexValue?_hexDigit (by omega)),
            Nat.div_add_mod, UInt8.ofNat_toNat]

end Escape

def encode (s : String) : Octets := (utf8 s).flatMap escapeOctet

def decode (b : Octets) : Option String := (unescape b).bind ofUtf8?

section Decode

variable {s : String} {b : Octets}

@[simp] theorem decode_nil : decode [] = some "" := ofUtf8?_utf8 ""

theorem decode_eq_some_iff : decode b = some s ↔ unescape b = some (utf8 s) := by
  rw [decode, Option.bind_eq_some_iff]
  simp only [ofUtf8?_eq_some_iff, exists_eq_right]

@[simp] theorem decode_encode (s : String) : decode (encode s) = some s := by
  have hunescape : ∀ b : Octets, unescape (b.flatMap escapeOctet) = some b := by
    intro b
    induction b with
    | nil => rfl
    | cons x b ih => rw [List.flatMap_cons, unescape_escapeOctet, ih, Option.map_some]
  exact decode_eq_some_iff.mpr (hunescape (utf8 s))

theorem length_of_decode (h : decode b = some s) :
    (utf8 s).length + 2 * b.count percent = b.length :=
  length_of_unescape (decode_eq_some_iff.mp h)

theorem map_of_plus_notMem (h : plus ∉ b) :
    (b.map fun x => if x = plus then space else x) = b := by
  have hself : ∀ x ∈ b, (if x = plus then space else x) = x := by
    intro x hx
    rw [if_neg]
    rintro rfl
    exact h hx
  rw [List.map_congr_left hself, List.map_id']

theorem utf8_of_decode (hb : percent ∉ b) (h : decode b = some s) :
    utf8 s = b.map fun x => if x = plus then space else x := by
  rw [decode_eq_some_iff, unescape_of_notMem hb] at h
  exact (Option.some.inj h).symm

theorem plus_notMem_of_decode (hb : percent ∉ b) (h : decode b = some s) : plus ∉ utf8 s := by
  rw [utf8_of_decode hb h, List.mem_map]
  rintro ⟨x, -, hx⟩
  split at hx
  · cases hx
  · contradiction

/-- A text without `%` and `+` stands for itself. -/
theorem decode_utf8 (hpercent : percent ∉ utf8 s) (hplus : plus ∉ utf8 s) :
    decode (utf8 s) = some s := by
  rw [decode_eq_some_iff, unescape_of_notMem hpercent, map_of_plus_notMem hplus]

/-- Only what is unreserved, `%` and `+` occurs in an encoded text. -/
theorem notMem_encode {x : UInt8} (hx : isUnreserved x = false) (hpercent : x ≠ percent)
    (hplus : x ≠ plus) (s : String) : x ∉ encode s := by
  rw [encode, List.mem_flatMap]
  rintro ⟨y, -, hy⟩
  rcases of_mem_escapeOctet hy with h | h | h
  · exact ne_of_isUnreserved h hx rfl
  · exact hpercent h
  · exact hplus h

theorem lt_of_mem_encode {x : UInt8} (h : x ∈ encode s) : x < 128 := by
  obtain ⟨y, -, hy⟩ := List.mem_flatMap.mp h
  rcases of_mem_escapeOctet hy with h | rfl | rfl
  · exact lt_of_isUnreserved h
  · decide
  · decide

end Decode

end FormUrlEncoded
