import HelloBoot.Allocation.CostAllocation

/-!
# How close `allocateCost` comes

The search is to return the closest selection that does not exceed the target. A call
that can add nothing more does not report its own sum, though, but `Double.MAX_VALUE`
with no projects, so only a selection within the tolerance is ever found. The result is
closest if there is such a selection, or if nothing that fits is worth more than the
tolerance (`isClosest_iff`).
-/

namespace HelloBoot.CostAllocation

/-- Distinct projects within the target, and no others within it are closer by more than
`1e-6`. -/
def IsClosest (projects : List Project) (target : ℚ) (result : List Project) : Prop :=
  result.Nodup ∧ result ⊆ projects ∧ (result.map Project.cost).sum ≤ target ∧
    ∀ s : List Project, s.Nodup → s ⊆ projects → (s.map Project.cost).sum ≤ target →
      |target - (result.map Project.cost).sum| ≤ |target - (s.map Project.cost).sum| + tolerance

variable {projects : List Project} {target : ℚ}

theorem Close.isClosest {r : ℚ × List Project} (h : Close projects target r) :
    IsClosest projects target r.2 := by
  have hsum := h.sum_eq
  have hle := h.le
  have hnear := h.near
  refine ⟨h.nodup, h.subset, hsum ▸ hle, fun s _ _ _ => ?_⟩
  rw [hsum, abs_of_nonneg (by linarith)]
  have hnonneg := abs_nonneg (target - (s.map Project.cost).sum)
  linarith

theorem isClosest_nil_iff (hnonneg : 0 ≤ target) :
    IsClosest projects target [] ↔ ∀ s : List Project, s.Nodup → s ⊆ projects →
      (s.map Project.cost).sum ≤ target → (s.map Project.cost).sum ≤ tolerance := by
  have hgap : ∀ s : List Project, (s.map Project.cost).sum ≤ target →
      (|target - (([] : List Project).map Project.cost).sum| ≤
        |target - (s.map Project.cost).sum| + tolerance ↔
          (s.map Project.cost).sum ≤ tolerance) := by
    intro s hs
    rw [List.map_nil, List.sum_nil, sub_zero, abs_of_nonneg hnonneg,
      abs_of_nonneg (sub_nonneg.mpr hs)]
    constructor <;> intro h <;> linarith
  constructor
  · rintro ⟨-, -, -, hclosest⟩ s hnodup hsub hs
    exact (hgap s hs).mp (hclosest s hnodup hsub hs)
  · intro hsmall
    exact ⟨List.nodup_nil, List.nil_subset projects, by simpa using hnonneg,
      fun s hnodup hsub hs => (hgap s hs).mpr (hsmall s hnodup hsub hs)⟩

/-- The result is the closest selection if and only if some selection comes within the
tolerance of the target, or none that fits exceeds the tolerance. -/
theorem isClosest_iff (order : IterationOrder Project) (hcost : ∀ p ∈ projects, 0 < p.cost)
    (hnonneg : 0 ≤ target) (htarget : target + tolerance ≤ maxValue) {depth : ℕ}
    (hdepth : projects.length < depth) :
    ∃ result, allocateCost order projects depth target = .ok result ∧
      (IsClosest projects target result ↔
        (∃ s : List Project, s.Nodup ∧ s ⊆ projects ∧ (s.map Project.cost).sum ≤ target ∧
          target - (s.map Project.cost).sum < tolerance) ∨
        ∀ s : List Project, s.Nodup → s ⊆ projects → (s.map Project.cost).sum ≤ target →
          (s.map Project.cost).sum ≤ tolerance) := by
  obtain ⟨r, hrun, hr⟩ :=
    allocateCost_finds order (fun p hp => (hcost p hp).le) hnonneg htarget hdepth
  refine ⟨r.2, hrun, ?_⟩
  have hreaches : Reaches projects [] target 0 ↔
      ∃ s : List Project, s.Nodup ∧ s ⊆ projects ∧ (s.map Project.cost).sum ≤ target ∧
        target - (s.map Project.cost).sum < tolerance := by
    simp [Reaches]
  rw [← hreaches]
  rcases hr with ⟨hfound, hclose⟩ | ⟨hnone, rfl⟩
  · exact iff_of_true hclose.isClosest (.inl hfound)
  · rw [isClosest_nil_iff hnonneg]
    exact ⟨.inr, fun h => h.resolve_left hnone⟩

theorem isClosest_iff_two :
    ∃ result, allocateCost insertionOrder [⟨0, "A", 100⟩, ⟨1, "B", 200⟩] 3 250 = .ok result ∧
      (IsClosest [⟨0, "A", 100⟩, ⟨1, "B", 200⟩] 250 result ↔
        (∃ s : List Project, s.Nodup ∧ s ⊆ [⟨0, "A", 100⟩, ⟨1, "B", 200⟩] ∧
          (s.map Project.cost).sum ≤ 250 ∧ 250 - (s.map Project.cost).sum < tolerance) ∨
        ∀ s : List Project, s.Nodup → s ⊆ [⟨0, "A", 100⟩, ⟨1, "B", 200⟩] →
          (s.map Project.cost).sum ≤ 250 → (s.map Project.cost).sum ≤ tolerance) :=
  isClosest_iff insertionOrder (by simp) (by norm_num)
    (le_maxValue (by norm_num [tolerance])) (by decide)

/-- A single project that costs less than the target: it fits, and is not returned. -/
theorem not_isClosest_of_gap :
    allocateCost insertionOrder [⟨0, "A", 2⟩] 2 3 = .ok [] ∧
      ¬ IsClosest [⟨0, "A", 2⟩] 3 [] := by
  refine ⟨by decide +kernel, fun h => ?_⟩
  have hsmall := (isClosest_nil_iff (by norm_num)).mp h [⟨0, "A", 2⟩] (List.nodup_singleton _)
    (List.Subset.refl _) (by norm_num)
  norm_num [tolerance] at hsmall

end HelloBoot.CostAllocation
