import HelloBoot.Allocation.CostAllocation
import HelloBoot.Allocation.DynamicProgramming
import Mathlib.Algebra.Order.Floor.Ring
import Mathlib.Data.Rat.Floor

/-!
# The two searches agree

`allocateCost` searches through the orders in which projects can be selected, and
`dynamicProgramming` fills a table. Both come down to whether some of the projects cost
exactly the target (`Knapsack.Attains`), so one succeeds if and only if the other does.
-/

namespace HelloBoot.CostAllocation

open Knapsack DynamicProgrammingTest

def Project.toInt (p : Project) : DynamicProgrammingTest.Project := ⟨p.name, ⌊p.cost⌋⟩

theorem add_tolerance_le_maxValue {target : ℤ} (h : target < integerMaxValue) :
    target + tolerance ≤ maxValue := by
  have hlt : (target : ℚ) < integerMaxValue := by exact_mod_cast h
  have hmax : (integerMaxValue : ℚ) + tolerance ≤ 2 ^ 53 - 1 := by
    norm_num [integerMaxValue, tolerance]
  exact le_maxValue (by linarith)

/-- Nothing but the orders of selection is searched through. -/
theorem completes_nil_iff {projects : List Project} (hprojects : projects.Nodup) {target : ℚ} :
    Completes projects [] target 0 ↔ Attains Project.cost projects target := by
  simp [Completes, attains_iff_of_nodup hprojects]

/-- Whether the costs are read as `int` or as `double` does not matter. -/
theorem attains_toInt {projects : List Project} (hcost : ∀ p ∈ projects, ∃ c : ℤ, p.cost = c)
    {target : ℤ} :
    Attains DynamicProgrammingTest.Project.cost (projects.map Project.toInt) target ↔
      Attains Project.cost projects target := by
  rw [attains_map]
  refine (attains_iff_of_hom (Int.castAddHom ℚ) Int.cast_injective fun p hp => ?_).symm
  obtain ⟨c, hc⟩ := hcost p hp
  simp [Project.toInt, hc]

theorem Outcome.sum_eq_iff {target : ℚ} {P : Prop} {r : ℚ × List Project}
    (h : Outcome target P r) (hzero : target = 0 → P) :
    (r.2.map Project.cost).sum = target ↔ P := by
  rcases h with ⟨hP, -, hsum⟩ | ⟨hP, rfl⟩
  · exact iff_of_true hsum hP
  · refine iff_of_false (fun hsum => hP (hzero ?_)) hP
    simpa using hsum.symm

/-- The projects that `allocateCost(target)` selects cost exactly the target if and only
if `dynamicProgramming` returns a list. -/
theorem allocateCost_sum_iff (order : IterationOrder Project) {projects : List Project}
    (hprojects : projects.Nodup) (hcost : ∀ p ∈ projects, ∃ c : ℤ, 0 < c ∧ p.cost = c)
    {target : ℤ} (hnonneg : 0 ≤ target) (htarget : target < integerMaxValue) {depth : ℕ}
    (hdepth : projects.length < depth) :
    ∃ result answer, allocateCost order projects depth target = .ok result ∧
      dynamicProgramming (projects.map Project.toInt) target = .ok answer ∧
      ((result.map Project.cost).sum = target ↔ answer ≠ none) := by
  have hint : ∀ p ∈ projects, ∃ c : ℤ, p.cost = c := fun p hp =>
    (hcost p hp).imp fun _ hc => hc.2
  have hcost' : ∀ p ∈ projects, 0 ≤ p.cost := fun p hp => by
    obtain ⟨c, hc, hpc⟩ := hcost p hp
    rw [hpc]
    exact_mod_cast hc.le
  obtain ⟨t, rfl⟩ := Int.eq_ofNat_of_zero_le hnonneg
  obtain ⟨r, hrun, hr⟩ := allocateCost_finds order hcost' (by exact_mod_cast hnonneg)
    (add_tolerance_le_maxValue htarget) hdepth
  have hints : ∀ p ∈ projects.map Project.toInt, 0 ≤ p.cost := fun p hp => by
    obtain ⟨q, hq, rfl⟩ := List.mem_map.mp hp
    obtain ⟨c, hc, hqc⟩ := hcost q hq
    simpa [Project.toInt, hqc] using hc.le
  obtain ⟨answer, hanswer, -, hiff⟩ := dynamicProgramming_eq hints htarget
  refine ⟨r.2, answer, hrun, hanswer, ?_⟩
  rw [hiff, attains_toInt hint, ← completes_nil_iff hprojects, ← reaches_nil_iff hint]
  refine (hr.outcome hint).sum_eq_iff fun hzero => (reaches_nil_iff hint).mpr ?_
  exact ⟨[], by simp, by simp, by simpa using hzero.symm⟩

theorem allocateCost_sum_iff_two :
    ∃ result answer,
      allocateCost insertionOrder [⟨0, "A", 100⟩, ⟨1, "B", 200⟩] 3 (300 : ℤ) = .ok result ∧
      dynamicProgramming ([⟨0, "A", 100⟩, ⟨1, "B", 200⟩].map Project.toInt) 300 = .ok answer ∧
      ((result.map Project.cost).sum = (300 : ℤ) ↔ answer ≠ none) :=
  allocateCost_sum_iff insertionOrder (by decide)
    (by simpa using ⟨⟨100, by norm_num, by norm_num⟩, ⟨200, by norm_num, by norm_num⟩⟩)
    (by norm_num) (by norm_num [integerMaxValue]) (by decide)

end HelloBoot.CostAllocation
