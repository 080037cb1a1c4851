import HelloBoot.Allocation.DynamicProgramming

/-!
# What `dynamicProgramming` answers

The table answers exactly the question whether some of the projects cost the target
amount (`dynamicProgramming_complete`). The comment at its head promises more, the
largest total that does not exceed the target; but only the last cell is looked at, so
the promise is kept if and only if the target itself is reached (`findsOptimum_iff`).
-/

namespace HelloBoot.DynamicProgrammingTest

open Knapsack

variable {projects : List Project} {targetAmount : ℤ}

/-- The method returns, so every index was within the arrays. It returns null if and only
if no sublist costs the target amount, and else such a sublist. -/
theorem dynamicProgramming_complete (hcost : ∀ p ∈ projects, 0 ≤ p.cost)
    (hnonneg : 0 ≤ targetAmount) (htarget : targetAmount < integerMaxValue) :
    ∃ answer, dynamicProgramming projects targetAmount = .ok answer ∧
      (answer = none ↔
        ¬ ∃ l : List Project, l.Sublist projects ∧ (l.map Project.cost).sum = targetAmount) ∧
      ∀ l, answer = some l → l.Sublist projects ∧ (l.map Project.cost).sum = targetAmount := by
  obtain ⟨t, rfl⟩ := Int.eq_ofNat_of_zero_le hnonneg
  obtain ⟨answer, hanswer, hsound, hcomplete⟩ := dynamicProgramming_eq hcost htarget
  exact ⟨answer, hanswer, by rw [← not_iff_not, not_not]; exact hcomplete, hsound⟩

theorem dynamicProgramming_complete_two :
    ∃ answer, dynamicProgramming [⟨"A", 0⟩, ⟨"B", 5⟩] 4 = .ok answer ∧
      (answer = none ↔ ¬ ∃ l : List Project, l.Sublist [⟨"A", 0⟩, ⟨"B", 5⟩] ∧
        (l.map Project.cost).sum = 4) ∧
      ∀ l, answer = some l → l.Sublist [⟨"A", 0⟩, ⟨"B", 5⟩] ∧ (l.map Project.cost).sum = 4 :=
  dynamicProgramming_complete (by simp) (by decide) (by decide)

/-- The comment at the head of the method: the largest total up to the target amount. -/
def FindsOptimum (projects : List Project) (targetAmount : ℤ) : Prop :=
  ∃ l, dynamicProgramming projects targetAmount = .ok (some l) ∧
    IsBest Project.cost projects targetAmount l

/-- For the largest `int` the length of the arrays wraps around. -/
theorem dynamicProgramming_max (projects : List Project) :
    dynamicProgramming projects integerMaxValue = .error .negativeArraySize := by
  have hlength : addInt integerMaxValue 1 = -2147483648 := by decide
  rw [dynamicProgramming, hlength]
  rfl

/-- The promise of the comment is kept exactly where some of the projects cost the target
amount. -/
theorem findsOptimum_iff (hcost : ∀ p ∈ projects, 0 < p.cost) (hnonneg : 0 ≤ targetAmount)
    (hint : targetAmount ≤ integerMaxValue) :
    FindsOptimum projects targetAmount ↔ targetAmount < integerMaxValue ∧
      ∃ l : List Project, l.Sublist projects ∧ (l.map Project.cost).sum = targetAmount := by
  rcases hint.lt_or_eq with htarget | rfl
  · obtain ⟨t, rfl⟩ := Int.eq_ofNat_of_zero_le hnonneg
    obtain ⟨answer, hanswer, hsome, hcomplete⟩ :=
      dynamicProgramming_eq (fun p hp => (hcost p hp).le) htarget
    constructor
    · rintro ⟨l, hl, -⟩
      exact ⟨htarget, l, hsome l (Except.ok.inj (hanswer.symm.trans hl))⟩
    · rintro ⟨-, hattains⟩
      obtain ⟨l, rfl⟩ := Option.ne_none_iff_exists'.mp (hcomplete.mpr hattains)
      obtain ⟨hl, hsum⟩ := hsome l rfl
      exact ⟨l, hanswer, isBest_of_sum_eq hl hsum⟩
  · refine iff_of_false ?_ fun h => h.1.false
    rintro ⟨l, hl, -⟩
    rw [dynamicProgramming_max] at hl
    cases hl

theorem findsOptimum_iff_two :
    FindsOptimum [⟨"A", 100⟩, ⟨"B", 200⟩] 300 ↔ 300 < integerMaxValue ∧
      ∃ l : List Project, l.Sublist [⟨"A", 100⟩, ⟨"B", 200⟩] ∧ (l.map Project.cost).sum = 300 :=
  findsOptimum_iff (by simp) (by decide) (by decide)

/-- A single project that costs less than the target amount: the best that can be done is
to take it, and the method returns null. -/
theorem not_findsOptimum_of_gap :
    IsBest Project.cost [⟨"A", 2⟩] 3 [⟨"A", 2⟩] ∧
      dynamicProgramming [⟨"A", 2⟩] 3 = .ok none ∧ ¬ FindsOptimum [⟨"A", 2⟩] 3 := by
  have hrun : dynamicProgramming [⟨"A", 2⟩] 3 = .ok none := rfl
  refine ⟨⟨.refl _, by decide, fun s hs _ => ?_⟩, hrun, ?_⟩
  · rcases List.sublist_singleton.mp hs with rfl | rfl <;> decide
  · rintro ⟨l, hl, -⟩
    rw [hrun] at hl
    cases hl

end HelloBoot.DynamicProgrammingTest
