import HelloBoot.Util.Desensitize.DesensitizeUtil

/-!
# What a masked text reveals

Two texts of one length that agree on the kept ends have the same masked text
(`masked_congr`), also when the ends cover the text and it is returned as it is. So the
result tells nothing of a text but its length and its ends (`revealsOnlyEnds`).
-/

namespace HelloBoot.DesensitizeUtil

variable {units units' : List UInt16} {leftKeep rightKeep : ℕ}

@[simp] theorem length_masked : (masked leftKeep rightKeep units).length = units.length := by
  rw [masked]
  split
  case isTrue => rfl
  case isFalse h =>
      simp only [List.length_append, List.length_take, List.length_replicate, List.length_drop]
      omega

/-- Ends that cover a text determine it. -/
theorem eq_of_ends (hlength : units.length = units'.length)
    (hshort : units.length ≤ leftKeep + rightKeep)
    (hleft : units.take leftKeep = units'.take leftKeep)
    (hright : units.drop (units.length - rightKeep) = units'.drop (units.length - rightKeep)) :
    units = units' := by
  obtain ⟨n, hn⟩ : ∃ n, units.length - rightKeep + n = leftKeep :=
    Nat.le.dest (by omega)
  rw [← List.take_append_drop leftKeep units, ← List.take_append_drop leftKeep units', hleft,
    ← hn, ← List.drop_drop, ← List.drop_drop, hright]

theorem masked_congr (hlength : units.length = units'.length)
    (hleft : units.take leftKeep = units'.take leftKeep)
    (hright : units.drop (units.length - rightKeep) = units'.drop (units.length - rightKeep)) :
    masked leftKeep rightKeep units = masked leftKeep rightKeep units' := by
  by_cases hshort : units.length ≤ leftKeep + rightKeep
  · rw [eq_of_ends hlength hshort hleft hright]
  · rw [masked, masked, ← hlength, if_neg hshort, if_neg hshort, hleft, hright]

theorem getElem?_masked {i : ℕ} (hleft : leftKeep ≤ i) (hright : i < units.length - rightKeep) :
    (masked leftKeep rightKeep units)[i]? = some star := by
  have hlong : ¬units.length ≤ leftKeep + rightKeep := by omega
  have htake : (units.take leftKeep).length = leftKeep := List.length_take_of_le (by omega)
  rw [masked, if_neg hlong, List.append_assoc, List.getElem?_append_right (by omega), htake,
    List.getElem?_append_left (by rw [List.length_replicate]; omega),
    List.getElem?_replicate_of_lt (by omega)]

/-- What the methods do to a text: it keeps its length and has a star at each position
outside the kept ends, whose widths may depend on the length; and texts of one length with
the same ends have the same result. -/
structure RevealsOnlyEnds (mask : Text → Except Throwable Text) (leftKeep rightKeep : ℕ → ℕ) :
    Prop where
  same : ∀ units units' : List UInt16, units.length ≤ integerMaxValue →
    units.length = units'.length →
    units.take (leftKeep units.length) = units'.take (leftKeep units.length) →
    units.drop (units.length - rightKeep units.length) =
      units'.drop (units.length - rightKeep units.length) →
    mask (some units) = mask (some units')
  stars : ∀ units : List UInt16, units.length ≤ integerMaxValue →
    ∃ result, mask (some units) = .ok (some result) ∧ result.length = units.length ∧
      ∀ i, leftKeep units.length ≤ i → i < units.length - rightKeep units.length →
        result[i]? = some star

theorem revealsOnlyEnds_of_masked {mask : Text → Except Throwable Text}
    {leftKeep rightKeep : ℕ → ℕ}
    (h : ∀ units : List UInt16, units.length ≤ integerMaxValue → mask (some units) =
      .ok (some (masked (leftKeep units.length) (rightKeep units.length) units))) :
    RevealsOnlyEnds mask leftKeep rightKeep where
  same units units' hunits hlength hleft hright := by
    rw [h units hunits, h units' (hlength ▸ hunits), ← hlength, masked_congr hlength hleft hright]
  stars units hunits := ⟨_, h units hunits, length_masked, fun _ => getElem?_masked⟩

/-- How many units of a name are kept at its end. -/
def nameKeep (length : ℕ) : ℕ := if 3 < length then 2 else 1

theorem desensitizeName_eq (hunits : units.length ≤ integerMaxValue) :
    desensitizeName (some units) = .ok (some (masked 0 (nameKeep units.length) units)) := by
  rw [desensitizeName, nameKeep]
  split
  case isTrue => exact desensitize_eq hunits (by decide)
  case isFalse => exact desensitize_eq hunits (by decide)

theorem desensitizePhone_eq (hunits : units.length ≤ integerMaxValue) :
    desensitizePhone (some units) = .ok (some (masked 3 4 units)) :=
  desensitize_eq hunits (by decide)

theorem desensitizeCredentialNo_eq (hunits : units.length ≤ integerMaxValue) :
    desensitizeCredentialNo (some units) = .ok (some (masked 6 4 units)) :=
  desensitize_eq hunits (by decide)

/-- The methods reveal the length of a text and its kept ends only. -/
theorem revealsOnlyEnds :
    (∀ leftKeep rightKeep : ℤ, 0 ≤ leftKeep → 0 ≤ rightKeep →
      leftKeep + rightKeep ≤ integerMaxValue →
      RevealsOnlyEnds (desensitize · leftKeep rightKeep) (fun _ => leftKeep.toNat)
        (fun _ => rightKeep.toNat)) ∧
    RevealsOnlyEnds desensitizePhone (fun _ => 3) (fun _ => 4) ∧
    RevealsOnlyEnds desensitizeCredentialNo (fun _ => 6) (fun _ => 4) ∧
    RevealsOnlyEnds desensitizeName (fun _ => 0) nameKeep := by
  refine ⟨fun leftKeep rightKeep hleft hright hkeep => ?_, ?_, ?_, ?_⟩
  · obtain ⟨leftKeep, rfl⟩ := Int.eq_ofNat_of_zero_le hleft
    obtain ⟨rightKeep, rfl⟩ := Int.eq_ofNat_of_zero_le hright
    exact revealsOnlyEnds_of_masked fun units hunits => desensitize_eq hunits hkeep
  · exact revealsOnlyEnds_of_masked fun units => desensitizePhone_eq
  · exact revealsOnlyEnds_of_masked fun units => desensitizeCredentialNo_eq
  · exact revealsOnlyEnds_of_masked fun units => desensitizeName_eq

theorem desensitizePhone_same :
    desensitizePhone (some (Utf16.utf16 "13812345678")) =
      desensitizePhone (some (Utf16.utf16 "13887655678")) :=
  revealsOnlyEnds.2.1.same _ _ (by decide) (by decide) (by decide) (by decide)

end HelloBoot.DesensitizeUtil
