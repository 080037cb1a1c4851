import HelloBoot.Java.Throwable
import HelloBoot.Knapsack.SubsetSum
import Mathlib.Data.Rat.Cast.Order
import Mathlib.Algebra.Order.Ring.Rat
import Mathlib.Tactic.NormNum
import Mathlib.Tactic.Linarith

/-!
# `CostAllocation`

The search adds one project after the other to its selection and gives up where no
project fits any more. It stops only at a selection within `1e-6` of the target, and
answers `Double.MAX_VALUE` where none is below; so with integer costs it finds a
selection that meets the target, or nothing (`Finds.outcome`). `double`s
are read as exact rationals.
-/

namespace HelloBoot.CostAllocation

open Knapsack

structure Project where
  id : ℕ
  name : String
  cost : ℚ
  deriving DecidableEq

/-- The order in which a `HashSet` yields its elements, which may depend on how it came
to hold them. -/
structure IterationOrder (α : Type) where
  toList : List α → List α
  perm : ∀ l, (toList l).Perm l

def insertionOrder : IterationOrder Project := ⟨id, fun _ => .refl _⟩

def maxValue : ℚ := (2 ^ 53 - 1) * 2 ^ 971

theorem le_maxValue {x : ℚ} (h : x ≤ 2 ^ 53 - 1) : x ≤ maxValue := by
  calc x ≤ (2 ^ 53 - 1) * 1 := by linarith
    _ ≤ maxValue := mul_le_mul_of_nonneg_left (one_le_pow₀ (by norm_num)) (by norm_num)

def tolerance : ℚ := 1 / 10 ^ 6

/-- The body of the loop, with the search that starts from a larger selection. -/
def consider (search : List Project → ℚ → Except Throwable (ℚ × List Project))
    (selected : List Project) (target currentSum : ℚ) (closest : ℚ × List Project)
    (project : Project) : Except Throwable (ℚ × List Project) := do
  if project ∈ selected then
    return closest
  else if currentSum + project.cost ≤ target then
    let temp ← search (selected ++ [project]) (currentSum + project.cost)
    if |target - temp.1| < |target - closest.1| then return temp else return closest
  else
    return closest

section Search

variable (order : IterationOrder Project) (projects : List Project)

/-- The search on from a selection with the sum `currentSum`, on a call stack of the
given depth: the closest sum, and what the call leaves in `result`, which it clears
before it writes. -/
def findClosestCombination (target : ℚ) :
    ℕ → List Project → ℚ → Except Throwable (ℚ × List Project)
  | 0, _, _ => throw .stackOverflow
  | depth + 1, selected, currentSum =>
      if |target - currentSum| < tolerance then
        return (currentSum, order.toList selected)
      else
        projects.foldlM
          (consider (findClosestCombination target depth) selected target currentSum)
          (maxValue, [])

def allocateCost (depth : ℕ) (targetAmount : ℚ) : Except Throwable (List Project) := do
  let result ← findClosestCombination order projects targetAmount depth [] 0
  return result.2

end Search

/-- A result of a search that came close to the target: distinct projects whose sum is
below it by less than the tolerance. -/
structure Close (projects : List Project) (target : ℚ) (r : ℚ × List Project) : Prop where
  nodup : r.2.Nodup
  subset : r.2 ⊆ projects
  sum_eq : (r.2.map Project.cost).sum = r.1
  le : r.1 ≤ target
  near : target - r.1 < tolerance

/-- What a search comes to: it came close if it could, as `P` says, and found nothing
otherwise. -/
def Finds (projects : List Project) (target : ℚ) (P : Prop) (r : ℚ × List Project) : Prop :=
  P ∧ Close projects target r ∨ ¬ P ∧ r = (maxValue, [])

def Fits (selected : List Project) (target currentSum : ℚ) (project : Project) : Prop :=
  project ∉ selected ∧ currentSum + project.cost ≤ target

/-- Some further projects take the selection close to the target. -/
def Reaches (projects selected : List Project) (target currentSum : ℚ) : Prop :=
  ∃ s, (selected ++ s).Nodup ∧ s ⊆ projects ∧ currentSum + (s.map Project.cost).sum ≤ target ∧
    target - (currentSum + (s.map Project.cost).sum) < tolerance

section Outcome

variable {projects : List Project} {target currentSum : ℚ}
  {search : List Project → ℚ → Except Throwable (ℚ × List Project)}
  {selected : List Project} {closest : ℚ × List Project} {P : Prop}

/-- What came close is closer than the value that stands for nothing. -/
theorem Close.abs_lt {r : ℚ × List Project} (h : Close projects target r)
    (htarget : target + tolerance ≤ maxValue) : |target - r.1| < |target - maxValue| := by
  have hle := h.le
  have hnear := h.near
  have hmax : target ≤ maxValue := by linarith
  rw [abs_of_nonneg (by linarith), abs_of_nonpos (by linarith)]
  linarith

theorem consider_finds (htarget : target + tolerance ≤ maxValue)
    (hclosest : Finds projects target P closest) {project : Project} {Q : Prop}
    (hsearch : Fits selected target currentSum project → ∃ temp,
      search (selected ++ [project]) (currentSum + project.cost) = .ok temp ∧
        Finds projects target Q temp) :
    ∃ r, consider search selected target currentSum closest project = .ok r ∧
      Finds projects target (P ∨ Fits selected target currentSum project ∧ Q) r := by
  by_cases hfits : Fits selected target currentSum project
  · obtain ⟨temp, hrun, htemp⟩ := hsearch hfits
    have hconsider : consider search selected target currentSum closest project =
        .ok (if |target - temp.1| < |target - closest.1| then temp else closest) := by
      rw [consider, if_neg hfits.1, if_pos hfits.2, hrun]
      simp only [bind, Except.bind, pure, Except.pure]
      split <;> rfl
    refine ⟨_, hconsider, ?_⟩
    rcases htemp with ⟨hQ, htemp⟩ | ⟨hQ, rfl⟩
    · refine .inl ⟨.inr ⟨hfits, hQ⟩, ?_⟩
      rcases hclosest with ⟨-, hclosest⟩ | ⟨-, rfl⟩
      · split
        · exact htemp
        · exact hclosest
      · rwa [if_pos (htemp.abs_lt htarget)]
    · rcases hclosest with ⟨hP, hclosest⟩ | ⟨hP, rfl⟩
      · rw [if_neg (hclosest.abs_lt htarget).not_gt]
        exact .inl ⟨.inl hP, hclosest⟩
      · rw [if_neg (lt_irrefl _)]
        exact .inr ⟨by tauto, rfl⟩
  · refine ⟨closest, ?_, by simpa [hfits] using hclosest⟩
    rw [consider]
    split
    · rfl
    · rename_i hnew
      rw [if_neg fun hle => hfits ⟨hnew, hle⟩]
      rfl

variable (search selected) (currentSum) in
theorem foldlM_consider (htarget : target + tolerance ≤ maxValue) (Q : Project → Prop)
    (candidates : List Project) (hclosest : Finds projects target P closest)
    (hsearch : ∀ project ∈ candidates, Fits selected target currentSum project → ∃ temp,
      search (selected ++ [project]) (currentSum + project.cost) = .ok temp ∧
        Finds projects target (Q project) temp) :
    ∃ r, candidates.foldlM (consider search selected target currentSum) closest = .ok r ∧
      Finds projects target
        (P ∨ ∃ project ∈ candidates, Fits selected target currentSum project ∧ Q project) r := by
  induction candidates generalizing closest P with
  | nil => exact ⟨closest, rfl, by simpa using hclosest⟩
  | cons project candidates ih =>
      obtain ⟨hproject, hcandidates⟩ := List.forall_mem_cons.mp hsearch
      obtain ⟨r, hrun, hr⟩ := consider_finds htarget hclosest hproject
      obtain ⟨r', hrun', hr'⟩ := ih hr hcandidates
      refine ⟨r', ?_, by simpa [or_assoc] using hr'⟩
      rw [List.foldlM_cons, hrun]
      exact hrun'

/-- A selection that is not close yet is taken there by adding a project that fits. -/
theorem reaches_iff (hcost : ∀ p ∈ projects, 0 ≤ p.cost)
    (hfar : tolerance ≤ target - currentSum) :
    Reaches projects selected target currentSum ↔
      ∃ project ∈ projects, Fits selected target currentSum project ∧
        Reaches projects (selected ++ [project]) target (currentSum + project.cost) := by
  constructor
  · rintro ⟨s, hnodup, hsub, hle, hnear⟩
    cases s with
    | nil =>
        rw [List.map_nil, List.sum_nil, add_zero] at hnear
        exact absurd hnear hfar.not_gt
    | cons project s =>
        obtain ⟨hproject, hs⟩ := List.cons_subset.mp hsub
        have hnonneg : 0 ≤ (s.map Project.cost).sum := List.sum_nonneg fun x hx => by
          obtain ⟨p, hp, rfl⟩ := List.mem_map.mp hx
          exact hcost p (hs hp)
        have hnew : project ∉ selected := fun hold =>
          (List.nodup_append.mp hnodup).2.2 project hold project (.head s) rfl
        rw [List.map_cons, List.sum_cons, ← add_assoc] at hle hnear
        exact ⟨project, hproject, ⟨hnew, by linarith⟩, s, by simpa using hnodup, hs, hle, hnear⟩
  · rintro ⟨project, hproject, -, s, hnodup, hsub, hle, hnear⟩
    refine ⟨project :: s, by simpa using hnodup, List.cons_subset.mpr ⟨hproject, hsub⟩, ?_⟩
    rw [List.map_cons, List.sum_cons, ← add_assoc]
    exact ⟨hle, hnear⟩

/-- On a call stack as deep as there are projects, the search comes close to the target if
some selection does. -/
theorem findClosestCombination_finds (order : IterationOrder Project)
    (hcost : ∀ p ∈ projects, 0 ≤ p.cost) (htarget : target + tolerance ≤ maxValue) (depth : ℕ)
    (hnodup : selected.Nodup) (hsub : selected ⊆ projects)
    (hsum : (selected.map Project.cost).sum = currentSum) (hle : currentSum ≤ target)
    (hdepth : projects.length < depth + selected.length) :
    ∃ r, findClosestCombination order projects target depth selected currentSum = .ok r ∧
      Finds projects target (Reaches projects selected target currentSum) r := by
  induction depth generalizing selected currentSum with
  | zero =>
      have hlength := (hnodup.subperm hsub).length_le
      omega
  | succ depth ih =>
      rw [findClosestCombination, abs_of_nonneg (sub_nonneg.mpr hle)]
      split
      case isTrue hnear =>
          have hperm := order.perm selected
          refine ⟨_, rfl, .inl ⟨⟨[], by simpa using hnodup, by simp, by simpa using hle,
            by simpa using hnear⟩, hperm.nodup_iff.mpr hnodup,
            fun p hp => hsub (hperm.subset hp), ?_, hle,
            hnear⟩⟩
          exact (hperm.map Project.cost).sum_eq.trans hsum
      case isFalse hfar =>
          have hnone : Finds projects target False (maxValue, []) := .inr ⟨id, rfl⟩
          obtain ⟨r, hrun, hr⟩ := foldlM_consider
            currentSum (findClosestCombination order projects target depth) selected htarget
            (fun project => Reaches projects (selected ++ [project]) target
              (currentSum + project.cost))
            projects hnone fun project hproject hfits =>
              ih (hnodup.append (List.nodup_singleton project) (by simpa using hfits.1))
                (by simp [hsub, hproject]) (by simp [hsum]) hfits.2
                (by rw [List.length_append, List.length_singleton]; omega)
          refine ⟨r, hrun, ?_⟩
          rw [reaches_iff hcost (not_lt.mp hfar)]
          simpa using hr

end Outcome

theorem allocateCost_finds (order : IterationOrder Project) {projects : List Project}
    (hcost : ∀ p ∈ projects, 0 ≤ p.cost) {target : ℚ} (hnonneg : 0 ≤ target)
    (htarget : target + tolerance ≤ maxValue) {depth : ℕ} (hdepth : projects.length < depth) :
    ∃ r, allocateCost order projects depth target = .ok r.2 ∧
      Finds projects target (Reaches projects [] target 0) r := by
  obtain ⟨r, hrun, hr⟩ := findClosestCombination_finds order hcost htarget depth List.nodup_nil
    (List.nil_subset projects) (by simp) hnonneg hdepth
  refine ⟨r, ?_, hr⟩
  rw [allocateCost, hrun]
  rfl

/-- What a search comes to: a selection that meets the target if there is one, as `P`
says, and nothing otherwise. -/
def Outcome (target : ℚ) (P : Prop) (r : ℚ × List Project) : Prop :=
  (P ∧ r.1 = target ∧ (r.2.map Project.cost).sum = target) ∨ ¬ P ∧ r = (maxValue, [])

def Completes (projects selected : List Project) (target currentSum : ℚ) : Prop :=
  ∃ s, (selected ++ s).Nodup ∧ s ⊆ projects ∧ currentSum + (s.map Project.cost).sum = target

section Integers

variable {projects : List Project} (hcost : ∀ p ∈ projects, ∃ c : ℤ, p.cost = c) {target : ℤ}

/-- An integer below another by less than the tolerance is equal to it. -/
theorem sub_lt_tolerance_iff {t u : ℤ} (h : (u : ℚ) ≤ t) :
    (t : ℚ) - u < tolerance ↔ (u : ℚ) = t := by
  constructor
  · intro hnear
    have hlt : (t : ℚ) - u < 1 := hnear.trans (by norm_num [tolerance])
    have hle : u ≤ t := by exact_mod_cast h
    have hlt' : t - u < 1 := by exact_mod_cast hlt
    have heq : u = t := by omega
    rw [heq]
  · intro heq
    rw [heq, sub_self]
    norm_num [tolerance]

include hcost

theorem exists_sum_eq {s : List Project} (hs : s ⊆ projects) :
    ∃ c : ℤ, (s.map Project.cost).sum = c := by
  induction s with
  | nil => exact ⟨0, by simp⟩
  | cons p s ih =>
      obtain ⟨hp, hs⟩ := List.cons_subset.mp hs
      obtain ⟨a, ha⟩ := hcost p hp
      obtain ⟨b, hb⟩ := ih hs
      exact ⟨a + b, by rw [List.map_cons, List.sum_cons, ha, hb, Int.cast_add]⟩

theorem reaches_nil_iff : Reaches projects [] target 0 ↔ Completes projects [] target 0 := by
  refine exists_congr fun s => and_congr_right fun _ => and_congr_right fun hs => ?_
  obtain ⟨c, hc⟩ := exists_sum_eq hcost hs
  rw [hc, zero_add]
  constructor
  · rintro ⟨hle, hnear⟩
    exact (sub_lt_tolerance_iff hle).mp hnear
  · intro heq
    exact ⟨heq.le, (sub_lt_tolerance_iff heq.le).mpr heq⟩

/-- With integer costs a search that comes close to an integer meets it. -/
theorem Finds.outcome {P : Prop} {r : ℚ × List Project} (h : Finds projects target P r) :
    Outcome target P r := by
  refine h.imp (fun ⟨hP, hr⟩ => ⟨hP, ?_⟩) id
  obtain ⟨c, hc⟩ := exists_sum_eq hcost hr.subset
  have hsum : r.1 = c := hr.sum_eq.symm.trans hc
  have hle := hr.le
  have hnear := hr.near
  rw [hsum] at hle hnear
  have heq := (sub_lt_tolerance_iff hle).mp hnear
  exact ⟨hsum.trans heq, hc.trans heq⟩

end Integers

end HelloBoot.CostAllocation
