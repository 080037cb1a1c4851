import HelloBoot.Transition.System
import Mathlib.Logic.Function.Iterate

/-!
# Maximal runs

A maximal run goes on as long as a step is enabled that meets the guard; it may be
finite or infinite. If every step from a state that is reached lowers a measure, no run
goes on forever: a maximal run ends, in a state in which nothing is enabled
(`MaximalRun.ends`), and such a state is reached (`exists_stuck`).
-/

namespace Transition.System

variable {σ α : Type*} (S : System σ α)

def Stuck (ok : σ → α → Prop) (s : σ) : Prop := ∀ a, ok s a → S.step s a = none

/-- A sequence of states, which may end, that starts in the initial state, takes a step
from each state to the next, and ends only where no step is enabled. -/
structure MaximalRun (ok : σ → α → Prop) (r : ℕ → Option σ) : Prop where
  init : r 0 = some S.init
  step : ∀ i s s', r i = some s → r (i + 1) = some s' → ∃ a, ok s a ∧ S.step s a = some s'
  stop : ∀ i s, r i = some s → r (i + 1) = none → S.Stuck ok s
  stopped : ∀ i, r i = none → r (i + 1) = none

variable {S} {ok : σ → α → Prop} {r : ℕ → Option σ}

theorem exists_step_of_not_stuck {s : σ} (h : ¬ S.Stuck ok s) :
    ∃ a s', ok s a ∧ S.step s a = some s' := by
  simp only [Stuck, not_forall] at h
  obtain ⟨a, hok, hstep⟩ := h
  obtain ⟨s', hs'⟩ := Option.ne_none_iff_exists'.mp hstep
  exact ⟨a, s', hok, hs'⟩

open Classical in
noncomputable def next (S : System σ α) (ok : σ → α → Prop) (s : σ) : Option σ :=
  if h : S.Stuck ok s then none else some (exists_step_of_not_stuck h).choose_spec.choose

theorem next_eq_none {s : σ} (h : S.next ok s = none) : S.Stuck ok s := by
  by_contra hstuck
  simp [next, hstuck] at h

theorem next_eq_some {s s' : σ} (h : S.next ok s = some s') :
    ∃ a, ok s a ∧ S.step s a = some s' := by
  unfold next at h
  split at h
  · cases h
  · rename_i hstuck
    exact ⟨_, Option.some.inj h ▸ (exists_step_of_not_stuck hstuck).choose_spec.choose_spec⟩

variable (S ok) in
theorem exists_maximalRun : ∃ r, S.MaximalRun ok r := by
  refine ⟨fun i => (Option.bind · (S.next ok))^[i] (some S.init), rfl, ?_, ?_, ?_⟩
  · intro i s s' hi hnext
    rw [Function.iterate_succ_apply', hi] at hnext
    exact next_eq_some hnext
  · intro i s hi hnext
    rw [Function.iterate_succ_apply', hi] at hnext
    exact next_eq_none hnext
  · intro i hi
    rw [Function.iterate_succ_apply', hi]
    rfl

theorem MaximalRun.reached (hr : S.MaximalRun ok r) {i : ℕ} {s : σ} (hi : r i = some s) :
    S.ReachedBy ok s := by
  induction i generalizing s with
  | zero =>
      rw [hr.init] at hi
      cases hi
      exact .init
  | succ i ih =>
      cases hbefore : r i with
      | none =>
          rw [hr.stopped i hbefore] at hi
          cases hi
      | some s' =>
          obtain ⟨a, hok, hstep⟩ := hr.step i s' s hbefore hi
          exact (ih hbefore).step hok hstep

section Measure

variable (m : σ → ℕ)
  (hm : ∀ s a s', S.ReachedBy ok s → ok s a → S.step s a = some s' → m s' < m s)

include m hm

/-- From every state that is reached one gets stuck. -/
theorem exists_stuck_of_reachedBy {s : σ} (h : S.ReachedBy ok s) :
    ∃ s', S.ReachedBy ok s' ∧ S.Stuck ok s' := by
  induction hn : m s using Nat.strongRecOn generalizing s with
  | ind n ih =>
      by_cases hstuck : S.Stuck ok s
      · exact ⟨s, h, hstuck⟩
      · obtain ⟨a, s', hok, hstep⟩ := exists_step_of_not_stuck hstuck
        exact ih (m s') (hn ▸ hm s a s' h hok hstep) (h.step hok hstep) rfl

theorem exists_stuck : ∃ s, S.ReachedBy ok s ∧ S.Stuck ok s :=
  exists_stuck_of_reachedBy m hm .init

/-- A maximal run that has got to `s` ends. -/
theorem MaximalRun.ends_of_eq (hr : S.MaximalRun ok r) {i : ℕ} {s : σ} (hi : r i = some s)
    (h : S.ReachedBy ok s) :
    ∃ j s', r j = some s' ∧ r (j + 1) = none ∧ S.ReachedBy ok s' ∧ S.Stuck ok s' := by
  induction hn : m s using Nat.strongRecOn generalizing i s with
  | ind n ih =>
      cases hnext : r (i + 1) with
      | none => exact ⟨i, s, hi, hnext, h, hr.stop i s hi hnext⟩
      | some s' =>
          obtain ⟨a, hok, hstep⟩ := hr.step i s s' hi hnext
          exact ih (m s') (hn ▸ hm s a s' h hok hstep) hnext (h.step hok hstep) rfl

/-- A maximal run ends, and nothing is enabled in its last state. -/
theorem MaximalRun.ends (hr : S.MaximalRun ok r) :
    ∃ j s, r j = some s ∧ r (j + 1) = none ∧ S.ReachedBy ok s ∧ S.Stuck ok s :=
  hr.ends_of_eq m hm hr.init .init

end Measure

end Transition.System
