import HelloBoot.Transition.System
import Mathlib.Logic.Function.Basic

/-!
# Atomic commitment

What an atomic commitment protocol is for, without the protocol: participants
that wait for one verdict and then carry it out. The verdict is given once, and
a participant concludes once, only as the verdict says. Whatever runs like this
agrees (`fate_eq_verdict`): no participant commits while another aborts.
-/

namespace Transition

/-- The verdict, if it was given, and what each participant did, if it has
concluded; `true` is to commit. -/
structure Commitment (ι : Type*) where
  verdict : Option Bool
  fate : ι → Option Bool

namespace Commitment

variable {ι : Type*}

inductive Act (ι : Type*) where
  | decide (b : Bool)
  | conclude (i : ι) (b : Bool)

variable [DecidableEq ι]

def step (s : Commitment ι) : Act ι → Option (Commitment ι)
  | .decide b => if s.verdict = none then some { s with verdict := some b } else none
  | .conclude i b =>
      if s.verdict = some b ∧ s.fate i = none then
        some { s with fate := Function.update s.fate i (some b) }
      else none

variable (ι) in
def system : System (Commitment ι) (Act ι) where
  init := ⟨none, fun _ => none⟩
  step := step

theorem step_decide {s : Commitment ι} (hs : s.verdict = none) (b : Bool) :
    s.step (.decide b) = some { s with verdict := some b } := if_pos hs

theorem step_conclude {s : Commitment ι} {i : ι} {b : Bool} (hs : s.verdict = some b)
    (hi : s.fate i = none) :
    s.step (.conclude i b) = some { s with fate := Function.update s.fate i (some b) } :=
  if_pos ⟨hs, hi⟩

/-- Who has concluded did what the verdict says. -/
theorem fate_eq_verdict {s : Commitment ι} (h : (system ι).Reached s) {i : ι}
    {b : Bool} (hi : s.fate i = some b) : s.verdict = some b := by
  refine System.ReachedBy.invariant
    (I := fun s : Commitment ι => ∀ i b, s.fate i = some b → s.verdict = some b)
    ?_ ?_ h i b hi
  · intro i b hi
    cases hi
  · intro s a s' ih _ hstep i b hi
    cases a with
    | decide c =>
        obtain ⟨hnone, heq⟩ := Option.ite_none_right_eq_some.mp hstep
        obtain rfl := Option.some.inj heq
        have hsome := ih i b hi
        rw [hnone] at hsome
        cases hsome
    | conclude j c =>
        obtain ⟨⟨hverdict, -⟩, heq⟩ := Option.ite_none_right_eq_some.mp hstep
        obtain rfl := Option.some.inj heq
        rcases eq_or_ne i j with rfl | hij
        · simp only [Function.update_self] at hi
          exact hverdict.trans hi
        · simp only [Function.update_of_ne hij] at hi
          exact ih i b hi

end Commitment

end Transition
