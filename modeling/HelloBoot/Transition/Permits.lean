import HelloBoot.Transition.System
import Mathlib.Data.Set.Card

/-!
# Permits

Clients that share a number of permits: a client asks for one, holds it, and gives it
back; a client that asks when none is free waits. Every permit is free or held
(`Inv`), so a client waits only when there are more clients than permits
(`lt_card_of_waiting`). There may be infinitely many clients.
-/

namespace Transition

inductive Permits.Place where
  | idle
  | waiting
  | holding
  deriving DecidableEq

structure Permits (C : Type*) where
  free : ℕ
  place : C → Permits.Place

namespace Permits

variable {C : Type*}

/-- A client asks, perhaps again, or gives its permit back. -/
inductive Act (C : Type*) where
  | acquire (c : C)
  | release (c : C)

def holders (s : Permits C) : Set C := {c | s.place c = .holding}

variable [DecidableEq C]

def step (s : Permits C) : Act C → Option (Permits C)
  | .acquire c =>
      if s.place c = .holding then none
      else
        match s.free with
        | 0 => some { s with place := Function.update s.place c .waiting }
        | k + 1 => some ⟨k, Function.update s.place c .holding⟩
  | .release c =>
      if s.place c = .holding then some ⟨s.free + 1, Function.update s.place c .idle⟩ else none

variable (C) in
def system (n : ℕ) : System (Permits C) (Act C) where
  init := ⟨n, fun _ => .idle⟩
  step := step

theorem step_acquire_zero {s : Permits C} {c : C} (hc : s.place c ≠ .holding) (hs : s.free = 0) :
    s.step (.acquire c) = some { s with place := Function.update s.place c .waiting } := by
  rw [step, if_neg hc, hs]

theorem step_acquire_succ {s : Permits C} {c : C} {k : ℕ} (hc : s.place c ≠ .holding)
    (hs : s.free = k + 1) :
    s.step (.acquire c) = some ⟨k, Function.update s.place c .holding⟩ := by
  rw [step, if_neg hc, hs]

theorem step_release {s : Permits C} {c : C} (hc : s.place c = .holding) :
    s.step (.release c) = some ⟨s.free + 1, Function.update s.place c .idle⟩ := by
  rw [step, if_pos hc]

theorem holders_update_holding (s : Permits C) (c : C) (k : ℕ) :
    holders ⟨k, Function.update s.place c .holding⟩ = insert c s.holders := by
  ext d
  rcases eq_or_ne d c with rfl | hd
  · simp [holders]
  · simp [holders, hd]

theorem holders_update_of_ne (s : Permits C) (c : C) {p : Place} (hp : p ≠ .holding) (k : ℕ) :
    holders ⟨k, Function.update s.place c p⟩ = s.holders \ {c} := by
  ext d
  rcases eq_or_ne d c with rfl | hd
  · simp [holders, hp]
  · simp [holders, hd]

/-- Every permit is free or held, and a client has waited only if there are too many. -/
structure Inv (n : ℕ) (s : Permits C) : Prop where
  free_add : (s.free : ℕ∞) + s.holders.encard = n
  waits : ∀ c, s.place c = .waiting → (n : ℕ∞) < ENat.card C

theorem Inv.step {n : ℕ} {s s' : Permits C} {a : Act C} (hs : Inv n s)
    (h : s.step a = some s') : Inv n s' := by
  cases a with
  | acquire c =>
      by_cases hc : s.place c = .holding
      · rw [Permits.step, if_pos hc] at h
        cases h
      have hnot : c ∉ s.holders := hc
      cases hfree : s.free with
      | zero =>
          rw [step_acquire_zero hc hfree] at h
          cases h
          refine ⟨?_, fun d hd => ?_⟩
          · rw [holders_update_of_ne s c (by decide), Set.sdiff_singleton_eq_self hnot]
            exact hs.free_add
          · -- the holders and the client that waits now are more than `n`
            have hcard := hs.free_add
            rw [hfree, Nat.cast_zero, zero_add] at hcard
            have hle := Set.encard_le_card (s := insert c s.holders)
            rw [Set.encard_insert_of_notMem hnot, hcard] at hle
            exact (ENat.add_one_le_iff (ENat.natCast_ne_top n)).mp hle
      | succ k =>
          rw [step_acquire_succ hc hfree] at h
          cases h
          refine ⟨?_, fun d hd => ?_⟩
          · rw [holders_update_holding, Set.encard_insert_of_notMem hnot, ← hs.free_add, hfree]
            rw [Nat.cast_add, Nat.cast_one, add_assoc, add_comm 1]
          · rcases eq_or_ne d c with rfl | hdc
            · simp at hd
            · exact hs.waits d (by simpa [hdc] using hd)
  | release c =>
      by_cases hc : s.place c = .holding
      · rw [step_release hc] at h
        cases h
        refine ⟨?_, fun d hd => ?_⟩
        · have hmem : c ∈ s.holders := hc
          rw [holders_update_of_ne s c (by decide), ← hs.free_add,
            ← Set.encard_sdiff_singleton_add_one hmem, Nat.cast_add, Nat.cast_one, add_assoc,
            add_comm 1]
        · rcases eq_or_ne d c with rfl | hdc
          · simp at hd
          · exact hs.waits d (by simpa [hdc] using hd)
      · rw [Permits.step, if_neg hc] at h
        cases h

theorem Inv.of_reached {n : ℕ} {s : Permits C} (h : (system C n).Reached s) : Inv n s := by
  refine h.invariant ⟨?_, fun c hc => by cases hc⟩ fun _ _ _ hs _ hstep => hs.step hstep
  simp [system, holders]

/-- A client waits only when there are more clients than permits. -/
theorem lt_card_of_waiting {n : ℕ} {s : Permits C} (h : (system C n).Reached s) {c : C}
    (hc : s.place c = .waiting) : (n : ℕ∞) < ENat.card C := (Inv.of_reached h).waits c hc

end Permits

end Transition
