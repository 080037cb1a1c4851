import HelloBoot.Util.Desensitize.KeptEnds

/-!
# Surrogate pairs in masked texts

`desensitize` cuts a text at positions that count code units. A masked text is well formed
if and only if the text is short enough to be returned as it is or neither cut is inside a
surrogate pair (`staysWellFormed_iff`).
-/

namespace HelloBoot.DesensitizeUtil

open Utf16

variable {units : List UInt16} {leftKeep rightKeep : ℕ}

/-- If the text is cut at all, the last unit before the left cut does not begin a pair, and
the first one after the right cut does not end one. -/
def CutsNoPair (leftKeep rightKeep : ℕ) (units : List UInt16) : Prop :=
  leftKeep + rightKeep < units.length →
    (∀ u ∈ (units.take leftKeep).getLast?, ¬IsHigh u) ∧
      ∀ u ∈ (units.drop (units.length - rightKeep)).head?, ¬IsLow u

def StaysWellFormed (mask : Text → Except Throwable Text) (units : List UInt16) : Prop :=
  ∃ result, mask (some units) = .ok (some result) ∧ WellFormed result

theorem wellFormed_masked_iff (h : WellFormed units) :
    WellFormed (masked leftKeep rightKeep units) ↔ CutsNoPair leftKeep rightKeep units := by
  rw [masked, CutsNoPair]
  by_cases hshort : units.length ≤ leftKeep + rightKeep
  · rw [if_pos hshort]
    exact iff_of_true h fun hlong => absurd hlong (Nat.not_lt.mpr hshort)
  · have hlong : leftKeep + rightKeep < units.length := Nat.not_le.mp hshort
    have hleft : WellFormed (units.take leftKeep) ↔ _ :=
      wellFormed_left_iff (by rwa [List.take_append_drop leftKeep])
    have hright : WellFormed (units.drop (units.length - rightKeep)) ↔ _ :=
      wellFormed_right_iff (by rwa [List.take_append_drop (units.length - rightKeep)])
    rw [if_neg hshort, wellFormed_around_iff (by decide) (by decide) (by omega), hleft, hright,
      forall_prop_of_true hlong]

theorem staysWellFormed_iff_of_masked {mask : Text → Except Throwable Text}
    (hmask : mask (some units) = .ok (some (masked leftKeep rightKeep units)))
    (h : WellFormed units) :
    StaysWellFormed mask units ↔ CutsNoPair leftKeep rightKeep units := by
  rw [← wellFormed_masked_iff h]
  constructor
  · rintro ⟨result, hresult, hwell⟩
    cases hmask.symm.trans hresult
    exact hwell
  · exact fun hwell => ⟨_, hmask, hwell⟩

/-- The masked forms of a well formed text are well formed if and only if no cut is inside a
surrogate pair. -/
theorem staysWellFormed_iff (h : WellFormed units) (hunits : units.length ≤ integerMaxValue) :
    (StaysWellFormed desensitizeName units ↔ CutsNoPair 0 (nameKeep units.length) units) ∧
    (StaysWellFormed desensitizePhone units ↔ CutsNoPair 3 4 units) ∧
    (StaysWellFormed desensitizeCredentialNo units ↔ CutsNoPair 6 4 units) :=
  ⟨staysWellFormed_iff_of_masked (desensitizeName_eq hunits) h,
    staysWellFormed_iff_of_masked (desensitizePhone_eq hunits) h,
    staysWellFormed_iff_of_masked (desensitizeCredentialNo_eq hunits) h⟩

theorem staysWellFormed_iff_of_name :
    (StaysWellFormed desensitizeName (utf16 "张三丰") ↔ CutsNoPair 0 1 (utf16 "张三丰")) ∧
    (StaysWellFormed desensitizePhone (utf16 "张三丰") ↔ CutsNoPair 3 4 (utf16 "张三丰")) ∧
    (StaysWellFormed desensitizeCredentialNo (utf16 "张三丰") ↔
      CutsNoPair 6 4 (utf16 "张三丰")) :=
  staysWellFormed_iff (wellFormed_utf16 _) (by decide)

/-- A name of three characters, of which the second takes two units, keeps the second of
these. -/
theorem not_staysWellFormed_of_pair :
    WellFormed (utf16 "李𠀀明") ∧
      desensitizeName (some (utf16 "李𠀀明")) = .ok (some [star, star, 0xDC00, 0x660E]) ∧
      ¬StaysWellFormed desensitizeName (utf16 "李𠀀明") := by
  have hmask : desensitizeName (some (utf16 "李𠀀明")) =
      .ok (some [star, star, 0xDC00, 0x660E]) := by decide
  refine ⟨wellFormed_utf16 _, hmask, ?_⟩
  rintro ⟨result, hresult, hwell⟩
  cases hmask.symm.trans hresult
  exact absurd hwell (by decide)

end HelloBoot.DesensitizeUtil
