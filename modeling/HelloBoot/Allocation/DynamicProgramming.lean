import HelloBoot.Java.Arrays
import HelloBoot.Knapsack.SubsetSum
import Mathlib.Algebra.Order.Ring.Int

/-!
# `dynamicProgramming`

The table `dp` says for every amount up to the target whether some of the projects met
so far cost exactly this, and `combination` holds such projects. A project is entered by
a loop over the amounts in descending order, in place: the cell it reads is not below
the cells that are done, so the loop has the effect of entering the project in all cells
at once (`fill_eq`).
-/

namespace HelloBoot.DynamicProgrammingTest

open Knapsack

structure Project where
  name : String
  cost : ℤ
  deriving DecidableEq

def integerMaxValue : ℤ := 2147483647

/-- The sum of two `int`s, which wraps around. The differences in the loops are between
amounts that are not negative, and stay in range. -/
def addInt (a b : ℤ) : ℤ := (a + b).bmod (2 ^ 32)

theorem addInt_one_of_lt {t : ℕ} (ht : (t : ℤ) < integerMaxValue) : addInt t 1 = t + 1 := by
  unfold integerMaxValue at ht
  exact Int.bmod_eq_of_le (by omega) (by omega)

@[ext] structure Tables (n : ℕ) where
  dp : Fin n → Bool
  combination : Fin n → List Project

variable {n : ℕ}

/-- The body of the inner loop. -/
def relax (project : Project) (tables : Tables n) (j : ℤ) : Except Throwable (Tables n) := do
  if ← Arrays.read tables.dp (j - project.cost) then
    let dp ← Arrays.write tables.dp j true
    let selected ← Arrays.read tables.combination (j - project.cost)
    let combination ← Arrays.write tables.combination j (selected ++ [project])
    return ⟨dp, combination⟩
  else
    return tables

/-- `for (int j = targetAmount; j >= cost; j--)`. -/
def descend (targetAmount cost : ℤ) : List ℤ :=
  (List.range (targetAmount - cost + 1).toNat).map fun k => targetAmount - (k : ℕ)

def fill (targetAmount : ℤ) (tables : Tables n) (project : Project) :
    Except Throwable (Tables n) :=
  (descend targetAmount project.cost).foldlM (relax project) tables

def dynamicProgramming (projects : List Project) (targetAmount : ℤ) :
    Except Throwable (Option (List Project)) := do
  let length := addInt targetAmount 1
  if length < 0 then throw .negativeArraySize
  let dp ← Arrays.write (fun _ : Fin length.toNat => false) 0 true
  let tables ← projects.foldlM (fill targetAmount) ⟨dp, fun _ => []⟩
  if ← Arrays.read tables.dp targetAmount then
    return some (← Arrays.read tables.combination targetAmount)
  else
    return none

/-- The tables after the project has been entered in all cells at once. -/
def Tables.enter (tables : Tables n) (project : Project) (c : ℕ) : Tables n where
  dp i := tables.dp i || (decide (c ≤ i) && tables.dp ⟨i - c, by omega⟩)
  combination i :=
    if c ≤ i ∧ tables.dp ⟨i - c, by omega⟩ = true then
      tables.combination ⟨i - c, by omega⟩ ++ [project]
    else tables.combination i

/-- The tables after the project has been entered in the cells from `m` on. -/
def Tables.enterFrom (tables : Tables n) (project : Project) (c m : ℕ) : Tables n where
  dp i := if m ≤ i then (tables.enter project c).dp i else tables.dp i
  combination i :=
    if m ≤ i then (tables.enter project c).combination i else tables.combination i

theorem relax_eq {project : Project} {c : ℕ} (hcost : project.cost = c) (tables : Tables n)
    {j : ℕ} (hj : c ≤ j) (hn : j < n) :
    relax project tables j = .ok
      (if tables.dp ⟨j - c, by omega⟩ = true then
        { dp := Function.update tables.dp ⟨j, hn⟩ true
          combination := Function.update tables.combination ⟨j, hn⟩
            (tables.combination ⟨j - c, by omega⟩ ++ [project]) }
      else tables) := by
  have hsub : (j : ℤ) - project.cost = (j - c : ℕ) := by
    rw [hcost]
    omega
  have hlt : j - c < n := by omega
  simp only [relax, hsub, Arrays.read_of_lt _ hlt, Arrays.write_of_lt _ hn]
  cases h : tables.dp ⟨j - c, hlt⟩ <;> simp [bind, Except.bind, pure, Except.pure]

def Tables.cell (tables : Tables n) (i : Fin n) : Bool × List Project :=
  (tables.dp i, tables.combination i)

theorem Tables.ext_cell {s t : Tables n} (h : ∀ i, s.cell i = t.cell i) : s = t :=
  Tables.ext (funext fun i => congrArg Prod.fst (h i)) (funext fun i => congrArg Prod.snd (h i))

section EnterFrom

variable (tables : Tables n) (project : Project) (c : ℕ) {i : Fin n} {m : ℕ}

theorem cell_enterFrom_of_ge (h : m ≤ i) :
    (tables.enterFrom project c m).cell i = (tables.enter project c).cell i :=
  Prod.ext (if_pos h) (if_pos h)

theorem cell_enterFrom_of_lt (h : i < m) :
    (tables.enterFrom project c m).cell i = tables.cell i :=
  Prod.ext (if_neg (by omega)) (if_neg (by omega))

theorem cell_enterFrom_of_ne (h : (i : ℕ) ≠ m) :
    (tables.enterFrom project c (m + 1)).cell i = (tables.enterFrom project c m).cell i :=
  Prod.ext (if_congr (by omega) rfl rfl) (if_congr (by omega) rfl rfl)

theorem cell_enter_of_lt (h : i < c) : (tables.enter project c).cell i = tables.cell i := by
  have hnot : ¬ c ≤ (i : ℕ) := by omega
  simp [Tables.cell, Tables.enter, hnot]

theorem enterFrom_of_le (hm : m ≤ c) :
    tables.enterFrom project c m = tables.enter project c := by
  refine Tables.ext_cell fun i => ?_
  rcases Nat.lt_or_ge i m with hi | hi
  · rw [cell_enterFrom_of_lt _ _ _ hi, cell_enter_of_lt _ _ _ (by omega)]
  · exact cell_enterFrom_of_ge tables project c hi

theorem enterFrom_of_ge (hm : n ≤ m) : tables.enterFrom project c m = tables :=
  Tables.ext_cell fun i => cell_enterFrom_of_lt tables project c (by omega)

end EnterFrom

/-- The round for amount `j` enters the project there. -/
theorem relax_enterFrom {project : Project} {c : ℕ} (hcost : project.cost = c)
    (tables : Tables n) {j : ℕ} (hj : c ≤ j) (hn : j < n) :
    relax project (tables.enterFrom project c (j + 1)) j =
      .ok (tables.enterFrom project c j) := by
  have hself : j ≤ ((⟨j, hn⟩ : Fin n) : ℕ) := le_rfl
  -- the cell that is read is below those that are done
  have hread := cell_enterFrom_of_lt tables project c (i := ⟨j - c, by omega⟩) (m := j + 1)
    (Nat.lt_succ_of_le (Nat.sub_le j c))
  obtain ⟨hdp, hcombination⟩ := Prod.mk.inj hread
  rw [relax_eq hcost _ hj hn, hdp, hcombination]
  refine congrArg Except.ok (Tables.ext_cell fun i => ?_)
  by_cases hi : i = ⟨j, hn⟩
  · subst hi
    rw [cell_enterFrom_of_ge tables project c hself]
    cases h : tables.dp ⟨j - c, by omega⟩ with
    | true => simp [Tables.cell, Tables.enter, h, hj]
    | false =>
        rw [if_neg nofun, cell_enterFrom_of_lt tables project c (Nat.lt_succ_self j)]
        simp [Tables.cell, Tables.enter, h]
  · rw [← cell_enterFrom_of_ne tables project c fun heq => hi (Fin.ext heq)]
    split
    · exact Prod.ext (Function.update_of_ne hi _ _) (Function.update_of_ne hi _ _)
    · rfl

/-- After `k` rounds the project has been entered in the upper `k` cells. -/
theorem foldlM_relax {t c : ℕ} {project : Project} (hcost : project.cost = c)
    (tables : Tables (t + 1)) {k : ℕ} (hk : k ≤ t + 1 - c) :
    ((List.range k).map fun i => (t : ℤ) - (i : ℕ)).foldlM (relax project) tables =
      .ok (tables.enterFrom project c (t + 1 - k)) := by
  induction k with
  | zero => rw [enterFrom_of_ge tables _ _ (by omega)]; rfl
  | succ k ih =>
      have hj : (t : ℤ) - (k : ℕ) = (t - k : ℕ) := by omega
      rw [List.range_succ, List.map_append, List.foldlM_append, ih (by omega)]
      have hstep := relax_enterFrom hcost tables (j := t - k) (by omega) (by omega)
      rw [show t - k + 1 = t + 1 - k by omega] at hstep
      simp only [List.map_cons, List.map_nil, List.foldlM_cons, List.foldlM_nil, hj, bind,
        Except.bind, hstep]
      rw [show t - k = t + 1 - (k + 1) by omega]
      rfl

/-- The inner loop enters the project in all cells at once. -/
theorem fill_eq {t c : ℕ} {project : Project} (hcost : project.cost = c)
    (tables : Tables (t + 1)) : fill t tables project = .ok (tables.enter project c) := by
  have hlen : ((t : ℤ) - project.cost + 1).toNat = t + 1 - c := by omega
  rw [fill, descend, hlen, foldlM_relax hcost tables le_rfl, enterFrom_of_le tables _ _ (by omega)]

/-- What the tables hold when the projects of `l` have been entered. -/
structure Tables.Holds (tables : Tables n) (l : List Project) : Prop where
  sound : ∀ i, tables.dp i = true → (tables.combination i).Sublist l ∧
    ((tables.combination i).map Project.cost).sum = (i : ℕ)
  complete : ∀ i : Fin n, Attains Project.cost l (i : ℕ) → tables.dp i = true

theorem Tables.Holds.enter {tables : Tables n} {l : List Project} (h : tables.Holds l)
    (hl : ∀ p ∈ l, 0 ≤ p.cost) {project : Project} {c : ℕ} (hcost : project.cost = c) :
    (tables.enter project c).Holds (l ++ [project]) where
  sound i hi := by
    by_cases htake : c ≤ i ∧ tables.dp ⟨i - c, by omega⟩ = true
    · obtain ⟨hsub, hsum⟩ := h.sound _ htake.2
      simp only [Tables.enter, if_pos htake]
      refine ⟨hsub.append (.refl _), ?_⟩
      simp only [List.map_append, List.sum_append, hsum, List.map_cons, List.map_nil,
        List.sum_cons, List.sum_nil, hcost]
      omega
    · have hold : tables.dp i = true := by
        rw [Tables.enter, Bool.or_eq_true, Bool.and_eq_true, decide_eq_true_iff] at hi
        exact hi.resolve_right htake
      simp only [Tables.enter, if_neg htake]
      exact (h.sound i hold).imp_left (·.trans (List.sublist_append_left l [project]))
  complete i hi := by
    simp only [Tables.enter, Bool.or_eq_true, Bool.and_eq_true, decide_eq_true_iff]
    rcases attains_concat.mp hi with hi | ⟨u, hu, hsum⟩
    · exact .inl (h.complete i hi)
    · have hnonneg := hu.nonneg hl
      refine .inr ⟨by omega, h.complete _ ?_⟩
      rwa [show ((i - c : ℕ) : ℤ) = u by omega]

theorem foldlM_fill {t : ℕ} {tables : Tables (t + 1)} {l : List Project} (h : tables.Holds l)
    (hl : ∀ p ∈ l, 0 ≤ p.cost) {projects : List Project} (hcost : ∀ p ∈ projects, 0 ≤ p.cost) :
    ∃ tables', projects.foldlM (fill t) tables = .ok tables' ∧ tables'.Holds (l ++ projects) := by
  induction projects generalizing tables l with
  | nil => exact ⟨tables, rfl, by simpa using h⟩
  | cons project projects ih =>
      obtain ⟨hproject, hprojects⟩ := List.forall_mem_cons.mp hcost
      obtain ⟨c, hc⟩ := Int.eq_ofNat_of_zero_le hproject
      obtain ⟨tables', hrun, hholds⟩ := ih (h.enter hl hc) (l := l ++ [project])
        (by grind) hprojects
      refine ⟨tables', ?_, by simpa using hholds⟩
      rw [List.foldlM_cons, fill_eq hc]
      exact hrun

theorem holds_nil {t : ℕ} :
    Tables.Holds ⟨Function.update (fun _ : Fin (t + 1) => false) 0 true, fun _ => []⟩ [] where
  sound i hi := by
    rcases eq_or_ne i 0 with rfl | hne
    · exact ⟨.slnil, rfl⟩
    · simp [hne] at hi
  complete i hi := by
    obtain rfl : i = 0 := by
      rw [attains_nil] at hi
      exact Fin.ext (by simpa using hi)
    simp

/-- The answer is a selection of the projects that costs exactly the target, and there is
one whenever there is such a selection. -/
theorem dynamicProgramming_eq {projects : List Project} (hcost : ∀ p ∈ projects, 0 ≤ p.cost)
    {t : ℕ} (ht : (t : ℤ) < integerMaxValue) :
    ∃ answer, dynamicProgramming projects t = .ok answer ∧
      (∀ l, answer = some l → l.Sublist projects ∧ (l.map Project.cost).sum = t) ∧
      (answer ≠ none ↔ Attains Project.cost projects t) := by
  obtain ⟨tables, hrun, hholds⟩ := foldlM_fill (holds_nil (t := t)) nofun hcost
  have hwrite : Arrays.write (fun _ : Fin (t + 1) => false) 0 true =
      .ok (Function.update (fun _ => false) 0 true) := Arrays.write_of_lt _ (Nat.succ_pos t) true
  have hlt := Nat.lt_succ_self t
  have hanswer : dynamicProgramming projects t = .ok
      (if tables.dp ⟨t, hlt⟩ = true then some (tables.combination ⟨t, hlt⟩) else none) := by
    rw [dynamicProgramming]
    generalize hlength : addInt t 1 = length
    rw [addInt_one_of_lt ht] at hlength
    generalize hn : length.toNat = n
    obtain rfl : n = t + 1 := by omega
    rw [if_neg (by omega)]
    simp only [hwrite, hrun, Arrays.read_of_lt _ hlt, bind, Except.bind, pure, Except.pure]
    split <;> rfl
  refine ⟨_, hanswer, ?_, ?_⟩
  · intro l hl
    obtain ⟨hdp, heq⟩ := Option.ite_none_right_eq_some.mp hl
    obtain rfl := Option.some.inj heq
    exact hholds.sound ⟨t, hlt⟩ hdp
  · constructor
    · intro hsome
      obtain ⟨l, hl⟩ := Option.ne_none_iff_exists'.mp hsome
      obtain ⟨hdp, -⟩ := Option.ite_none_right_eq_some.mp hl
      exact ⟨_, hholds.sound ⟨t, hlt⟩ hdp⟩
    · intro hattains
      rw [if_pos (hholds.complete ⟨t, hlt⟩ hattains)]
      nofun

end HelloBoot.DynamicProgrammingTest
