import Mathlib.Data.List.Basic
import Mathlib.Logic.Relation

/-!
# Transition systems with guarded runs

A `System` is an initial state with a partial step function on labels, so that a
run on given labels can be computed. `ReachedBy ok` collects the states that a
run reaches when each of its steps meets the guard `ok`, which may look at the
state before the step and at its label; with the trivial guard these are all the
reachable states. An invariant is proved once for the initial state and one step
(`ReachedBy.invariant`), and a map of states that turns every guarded step into
nothing or a step of another system carries runs over to that system
(`ReachedBy.simulation`). `Leads` relates a state to those that a run goes on to.
-/

namespace Transition

/-- An initial state and a partial step function on labels. -/
structure System (σ α : Type*) where
  init : σ
  step : σ → α → Option σ

namespace System

variable {σ α τ β : Type*} (S : System σ α)

/-- The state reached from `s` on the labels `as`, if every step is enabled and
meets the guard. -/
def execBy (ok : σ → α → Prop) [∀ s a, Decidable (ok s a)] (s : σ) (as : List α) :
    Option σ :=
  as.foldlM (fun s a => if ok s a then S.step s a else none) s

theorem execBy_cons (ok : σ → α → Prop) [∀ s a, Decidable (ok s a)] (s : σ) (a : α)
    (as : List α) :
    S.execBy ok s (a :: as) =
      (if ok s a then S.step s a else none).bind fun s' => S.execBy ok s' as := by
  rw [execBy, List.foldlM_cons]
  rfl

/-- The states that runs reach whose every step meets the guard. -/
inductive ReachedBy (ok : σ → α → Prop) : σ → Prop
  | init : ReachedBy ok S.init
  | step {s : σ} {a : α} {s' : σ} (hs : ReachedBy ok s) (hok : ok s a)
      (hstep : S.step s a = some s') : ReachedBy ok s'

abbrev Reached : σ → Prop := S.ReachedBy fun _ _ => True

variable {S} {ok ok' : σ → α → Prop} {s : σ}

namespace ReachedBy

/-- What holds initially and is preserved by every guarded step holds in every
state that guarded runs reach. -/
theorem invariant {I : σ → Prop} (hinit : I S.init)
    (hstep : ∀ s a s', I s → ok s a → S.step s a = some s' → I s')
    (h : S.ReachedBy ok s) : I s := by
  induction h with
  | init => exact hinit
  | step _ hok hs ih => exact hstep _ _ _ ih hok hs

theorem mono (h : S.ReachedBy ok s) (himp : ∀ s a, ok s a → ok' s a) :
    S.ReachedBy ok' s := by
  induction h with
  | init => exact .init
  | step _ hok hs ih => exact .step ih (himp _ _ hok) hs

theorem execBy [∀ s a, Decidable (ok s a)] (h : S.ReachedBy ok s) {as : List α} {s' : σ}
    (hexec : S.execBy ok s as = some s') : S.ReachedBy ok s' := by
  induction as generalizing s with
  | nil => exact Option.some.inj hexec ▸ h
  | cons a as ih =>
      rw [execBy_cons] at hexec
      obtain ⟨s₁, hstep, hexec⟩ := Option.bind_eq_some_iff.mp hexec
      obtain ⟨hok, hstep⟩ := Option.ite_none_right_eq_some.mp hstep
      exact ih (h.step hok hstep) hexec

theorem exists_of_execBy [∀ s a, Decidable (ok s a)] {P : σ → Prop} (as : List α)
    (h : ∃ s ∈ S.execBy ok S.init as, P s) : ∃ s, S.ReachedBy ok s ∧ P s := by
  obtain ⟨s, hs, hp⟩ := h
  exact ⟨s, ReachedBy.init.execBy hs, hp⟩

/-- A map that turns every guarded step into nothing or into a step of `T` maps
what is reached to what `T` reaches. -/
theorem simulation {T : System τ β} (f : σ → τ) (hinit : f S.init = T.init)
    (hstep : ∀ s a s', S.ReachedBy ok s → ok s a → S.step s a = some s' →
      f s' = f s ∨ ∃ b, T.step (f s) b = some (f s'))
    (h : S.ReachedBy ok s) : T.Reached (f s) := by
  induction h with
  | init => exact hinit ▸ .init
  | step hs hok hstep' ih =>
      rcases hstep _ _ _ hs hok hstep' with heq | ⟨b, hb⟩
      · exact heq ▸ ih
      · exact ih.step trivial hb

end ReachedBy

variable (S) in
/-- A run that is in the first state may go on to the second. -/
def Leads : σ → σ → Prop := Relation.ReflTransGen fun s s' => ∃ a, S.step s a = some s'

theorem leads_of_execBy [∀ s a, Decidable (ok s a)] {as : List α} {s' : σ}
    (hexec : S.execBy ok s as = some s') : S.Leads s s' := by
  induction as generalizing s with
  | nil => exact Option.some.inj hexec ▸ .refl
  | cons a as ih =>
      rw [execBy_cons] at hexec
      obtain ⟨s₁, hstep, hexec⟩ := Option.bind_eq_some_iff.mp hexec
      obtain ⟨-, hstep⟩ := Option.ite_none_right_eq_some.mp hstep
      exact .head ⟨a, hstep⟩ (ih hexec)

end System

end Transition
