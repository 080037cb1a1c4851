import HelloBoot.Wire.BigEndian

/-!
# Numbers of varying width

`varint x` writes a number in groups of seven bits, the lowest first, with the high bit of an
octet set where another one follows; `zigzag` numbers the integers so that those near zero stay
short. `ofBits` and `toBits` go between a set of bits and a number.
-/

namespace Wire

def varint (x : ℕ) : List UInt8 :=
  if x < 128 then [UInt8.ofNat x] else UInt8.ofNat (x % 128 + 128) :: varint (x / 128)

namespace Reader

variable {ε : Type}

def runVarint (e : ε) : List UInt8 → Except ε (ℕ × List UInt8)
  | [] => .error e
  | u :: ws =>
      if u.toNat < 128 then .ok (u.toNat, ws)
      else
        match runVarint e ws with
        | .error e => .error e
        | .ok (x, rest) => .ok (u.toNat - 128 + 128 * x, rest)

theorem runVarint_length_le (e : ε) {ws rest : List UInt8} {x : ℕ}
    (h : runVarint e ws = .ok (x, rest)) : rest.length ≤ ws.length := by
  induction ws generalizing x with
  | nil => cases h
  | cons u ws ih =>
      rw [runVarint] at h
      split at h
      · cases h
        exact Nat.le_succ _
      · split at h
        · cases h
        · rename_i y rest' hrun
          cases h
          exact Nat.le_succ_of_le (ih hrun)

def varint (e : ε) : Reader UInt8 ε ℕ where
  run := runVarint e
  length_le := runVarint_length_le e

theorem takes_varint (e : ε) (x : ℕ) : Takes (varint e) (Wire.varint x) x := by
  intro rest
  change runVarint e (Wire.varint x ++ rest) = _
  induction x using Nat.strong_induction_on with
  | _ x ih =>
      rw [Wire.varint]
      split
      case isTrue hlt =>
          have hx : (UInt8.ofNat x).toNat = x := by
            rw [UInt8.toNat_ofNat']
            omega
          rw [List.singleton_append, runVarint, hx, if_pos hlt]
      case isFalse hge =>
          have hx : (UInt8.ofNat (x % 128 + 128)).toNat = x % 128 + 128 := by
            rw [UInt8.toNat_ofNat']
            omega
          have hsum : x % 128 + 128 - 128 + 128 * (x / 128) = x := by omega
          rw [List.cons_append, runVarint, hx, if_neg (by omega), ih (x / 128) (by omega)]
          simp only [hsum]

end Reader

/-! ### Integers -/

def zigzag : ℤ → ℕ
  | .ofNat n => 2 * n
  | .negSucc n => 2 * n + 1

def unzigzag (x : ℕ) : ℤ := if x % 2 = 0 then .ofNat (x / 2) else .negSucc (x / 2)

@[simp] theorem unzigzag_zigzag (i : ℤ) : unzigzag (zigzag i) = i := by
  cases i with
  | ofNat n =>
      have h : 2 * n % 2 = 0 := by omega
      rw [zigzag, unzigzag, if_pos h]
      congr 1
      omega
  | negSucc n =>
      have h : ¬(2 * n + 1) % 2 = 0 := by omega
      rw [zigzag, unzigzag, if_neg h]
      congr 1
      omega

/-! ### Sets of bits -/

/-- The number with the given bits, the lowest first. -/
def ofBits : List Bool → ℕ
  | [] => 0
  | b :: bits => 2 * ofBits bits + b.toNat

def toBits : ℕ → ℕ → List Bool
  | 0, _ => []
  | n + 1, x => decide (x % 2 = 1) :: toBits n (x / 2)

theorem ofBits_lt (bits : List Bool) : ofBits bits < 2 ^ bits.length := by
  induction bits with
  | nil => exact Nat.one_pos
  | cons b bits ih =>
      have hb := b.toNat_le
      rw [ofBits, List.length_cons, pow_succ]
      omega

theorem toBits_ofBits (bits : List Bool) : toBits bits.length (ofBits bits) = bits := by
  induction bits with
  | nil => rfl
  | cons b bits ih =>
      have hmod : decide ((2 * ofBits bits + b.toNat) % 2 = 1) = b := by
        cases b <;> simp
      have hdiv : (2 * ofBits bits + b.toNat) / 2 = ofBits bits := by
        have hb := b.toNat_lt
        omega
      rw [List.length_cons, ofBits, toBits, hmod, hdiv, ih]

end Wire
