import HelloBoot.Transition.Maximal
import Mathlib.Data.Finite.Prod
import Mathlib.Data.Fintype.Lattice

/-!
# Locks

Threads that take locks and give them back, each as its program says; a thread that is to take a
lock that another one has waits. If there is an order of the locks in which each thread takes them,
so that it only ever takes a lock above all those it has (`Ordered`), then no threads wait for one
another: as long as not all of them are done, one of them can go on (`done_of_stuck`).
-/

namespace Transition

inductive LockAct (κ : Type*) where
  | lock (k : κ)
  | unlock (k : κ)

/-- The owners of the locks, and what the threads have still to do. -/
structure Locks (τ κ : Type*) where
  owner : κ → Option τ
  rest : τ → List (LockAct κ)

namespace Locks

variable {τ κ : Type*} [DecidableEq τ] [DecidableEq κ]

def step (s : Locks τ κ) (t : τ) : Option (Locks τ κ) :=
  match s.rest t with
  | [] => none
  | .lock k :: as =>
      match s.owner k with
      | none => some ⟨Function.update s.owner k (some t), Function.update s.rest t as⟩
      | some _ => none
  | .unlock k :: as => some ⟨Function.update s.owner k none, Function.update s.rest t as⟩

def system (program : τ → List (LockAct κ)) : System (Locks τ κ) τ where
  init := ⟨fun _ => none, program⟩
  step := step

theorem step_cases {s s' : Locks τ κ} {t : τ} (h : s.step t = some s') :
    (∃ k as, s.rest t = .lock k :: as ∧ s.owner k = none ∧
      s' = ⟨Function.update s.owner k (some t), Function.update s.rest t as⟩) ∨
    ∃ k as, s.rest t = .unlock k :: as ∧
      s' = ⟨Function.update s.owner k none, Function.update s.rest t as⟩ := by
  unfold step at h
  split at h
  · cases h
  · rename_i k as hrest
    split at h
    · rename_i howner
      exact .inl ⟨k, as, hrest, howner, (Option.some.inj h).symm⟩
    · cases h
  · rename_i k as hrest
    exact .inr ⟨k, as, hrest, (Option.some.inj h).symm⟩

/-- A program that has the locks `held` takes each lock above all it has then, and gives back what
it has. -/
def Ordered (rank : κ → ℕ) : List κ → List (LockAct κ) → Prop
  | held, [] => held = []
  | held, .lock k :: as => (∀ h ∈ held, rank h < rank k) ∧ Ordered rank (k :: held) as
  | held, .unlock k :: as => k ∈ held ∧ Ordered rank (held.erase k) as

/-- The threads have the locks `held`, and go on in order. -/
structure Holding (rank : κ → ℕ) (held : τ → List κ) (s : Locks τ κ) : Prop where
  ordered : ∀ t, Ordered rank (held t) (s.rest t)
  nodup : ∀ t, (held t).Nodup
  owner_iff : ∀ t k, s.owner k = some t ↔ k ∈ held t

section Ordered

variable {rank : κ → ℕ} {held : τ → List κ} {s : Locks τ κ} {t : τ} {k : κ}
  {as : List (LockAct κ)}

theorem Holding.lock (hs : Holding rank held s) (hrest : s.rest t = .lock k :: as)
    (howner : s.owner k = none) :
    Holding rank (Function.update held t (k :: held t))
      ⟨Function.update s.owner k (some t), Function.update s.rest t as⟩ := by
  have hnot (u : τ) : k ∉ held u := fun hk => by
    rw [(hs.owner_iff u k).mpr hk] at howner
    cases howner
  have hordered := hs.ordered t
  rw [hrest] at hordered
  refine ⟨fun u => ?_, fun u => ?_, fun u l => ?_⟩
  · by_cases hu : u = t
    · subst hu
      simpa only [Function.update_self] using hordered.2
    · simpa only [Function.update_of_ne hu] using hs.ordered u
  · by_cases hu : u = t
    · subst hu
      simpa only [Function.update_self] using List.nodup_cons.mpr ⟨hnot u, hs.nodup u⟩
    · simpa only [Function.update_of_ne hu] using hs.nodup u
  · by_cases hl : l = k <;> by_cases hu : u = t
    · subst hl hu
      simp only [Function.update_self, List.mem_cons_self]
    · subst hl
      simp only [Function.update_self, Function.update_of_ne hu, Option.some_inj]
      exact iff_of_false (Ne.symm hu) (hnot u)
    · subst hu
      simp only [Function.update_self, Function.update_of_ne hl, List.mem_cons, hl, false_or]
      exact hs.owner_iff u l
    · simp only [Function.update_of_ne hu, Function.update_of_ne hl]
      exact hs.owner_iff u l

theorem Holding.unlock (hs : Holding rank held s) (hrest : s.rest t = .unlock k :: as) :
    Holding rank (Function.update held t ((held t).erase k))
      ⟨Function.update s.owner k none, Function.update s.rest t as⟩ := by
  have hordered := hs.ordered t
  rw [hrest] at hordered
  have hnot (u : τ) (hu : u ≠ t) : k ∉ held u := fun hk => by
    have hsome := (hs.owner_iff u k).mpr hk
    rw [(hs.owner_iff t k).mpr hordered.1, Option.some_inj] at hsome
    exact hu hsome.symm
  refine ⟨fun u => ?_, fun u => ?_, fun u l => ?_⟩
  · by_cases hu : u = t
    · subst hu
      simpa only [Function.update_self] using hordered.2
    · simpa only [Function.update_of_ne hu] using hs.ordered u
  · by_cases hu : u = t
    · subst hu
      simpa only [Function.update_self] using (hs.nodup u).erase k
    · simpa only [Function.update_of_ne hu] using hs.nodup u
  · by_cases hl : l = k <;> by_cases hu : u = t
    · subst hl hu
      simp only [Function.update_self, (hs.nodup u).mem_erase_iff, ne_eq, not_true_eq_false,
        false_and, reduceCtorEq]
    · subst hl
      simp only [Function.update_self, Function.update_of_ne hu, reduceCtorEq, false_iff]
      exact hnot u hu
    · subst hu
      simp only [Function.update_self, Function.update_of_ne hl, (hs.nodup u).mem_erase_iff, ne_eq,
        hl, not_false_eq_true, true_and]
      exact hs.owner_iff u l
    · simp only [Function.update_of_ne hu, Function.update_of_ne hl]
      exact hs.owner_iff u l

theorem exists_holding_of_reached {program : τ → List (LockAct κ)}
    (h : ∀ t, Ordered rank [] (program t)) (hs : (system program).Reached s) :
    ∃ held, Holding rank held s := by
  refine hs.invariant (I := fun s => ∃ held, Holding rank held s) ?_ ?_
  · exact ⟨fun _ => [], h, fun _ => List.nodup_nil, fun _ _ => ⟨nofun, nofun⟩⟩
  · rintro s t s' ⟨held, hs⟩ - hstep
    rcases step_cases hstep with ⟨k, as, hrest, howner, rfl⟩ | ⟨k, as, hrest, rfl⟩
    · exact ⟨_, hs.lock hrest howner⟩
    · exact ⟨_, hs.unlock hrest⟩

/-- The rank of the lock for which a thread waits. -/
def awaited (rank : κ → ℕ) (s : Locks τ κ) (t : τ) : ℕ :=
  match s.rest t with
  | .lock k :: _ => rank k
  | _ => 0

/-- Where no thread can go on, one that is not done waits for one that is not done either and waits
for a lock of higher rank. -/
theorem Holding.exists_awaited_lt {program : τ → List (LockAct κ)} (hs : Holding rank held s)
    (hstuck : (system program).Stuck (fun _ _ => True) s) (ht : s.rest t ≠ []) :
    ∃ u, s.rest u ≠ [] ∧ awaited rank s t < awaited rank s u := by
  have hwaits (u : τ) (hu : s.rest u ≠ []) :
      ∃ k as v, s.rest u = .lock k :: as ∧ s.owner k = some v := by
    have hnone : s.step u = none := hstuck u trivial
    unfold step at hnone
    split at hnone
    · rename_i hrest
      exact absurd hrest hu
    · rename_i k as hrest
      split at hnone
      · cases hnone
      · rename_i v howner
        exact ⟨k, as, v, hrest, howner⟩
    · cases hnone
  obtain ⟨k, as, u, hrest, howner⟩ := hwaits t ht
  have hk := (hs.owner_iff u k).mp howner
  have hu : s.rest u ≠ [] := by
    intro hdone
    have hordered := hs.ordered u
    rw [hdone] at hordered
    have hnil : held u = [] := hordered
    rw [hnil] at hk
    cases hk
  obtain ⟨l, bs, v, hrest', -⟩ := hwaits u hu
  refine ⟨u, hu, ?_⟩
  have hordered := hs.ordered u
  rw [hrest'] at hordered
  rw [awaited, hrest, awaited, hrest']
  exact hordered.1 k hk

theorem done_of_stuck [Finite τ] {program : τ → List (LockAct κ)}
    (h : ∀ t, Ordered rank [] (program t)) (hs : (system program).Reached s)
    (hstuck : (system program).Stuck (fun _ _ => True) s) :
    (∀ t, s.rest t = []) ∧ ∀ k, s.owner k = none := by
  obtain ⟨held, hholding⟩ := exists_holding_of_reached h hs
  have hdone (t : τ) : s.rest t = [] := by
    by_contra ht
    have : Nonempty {t // s.rest t ≠ []} := ⟨⟨t, ht⟩⟩
    obtain ⟨⟨u, hu⟩, hmax⟩ := Finite.exists_max fun u : {t // s.rest t ≠ []} => awaited rank s u.1
    obtain ⟨v, hv, hlt⟩ := hholding.exists_awaited_lt hstuck hu
    exact absurd (hmax ⟨v, hv⟩) (not_le.mpr hlt)
  refine ⟨hdone, fun k => ?_⟩
  cases howner : s.owner k with
  | none => rfl
  | some t =>
      have hk := (hholding.owner_iff t k).mp howner
      have hordered := hholding.ordered t
      rw [hdone t] at hordered
      have hnil : held t = [] := hordered
      rw [hnil] at hk
      cases hk

end Ordered

end Locks

end Transition
