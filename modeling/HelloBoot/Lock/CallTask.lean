import HelloBoot.Transition.Locks

/-!
# `TestLock.CallTask`

A task takes two locks, one within the other, in the one order or in the other one. Tasks in the
same order never get stuck, as they take the locks in order; two tasks in different orders may
(`stuck_iff`).
-/

namespace HelloBoot.TestLock

open Transition

inductive LockObject where
  | objA
  | objB
  deriving DecidableEq

def call (isDieLock : Bool) : List (LockAct LockObject) :=
  if isDieLock then [.lock .objA, .lock .objB, .unlock .objB, .unlock .objA]
  else [.lock .objB, .lock .objA, .unlock .objA, .unlock .objB]

def first (isDieLock : Bool) : LockObject := if isDieLock then .objA else .objB

theorem call_eq (isDieLock : Bool) : call isDieLock = .lock (first isDieLock) ::
    [.lock (first !isDieLock), .unlock (first !isDieLock), .unlock (first isDieLock)] := by
  cases isDieLock <;> rfl

/-- The order in which a task takes the objects. -/
def rank (isDieLock : Bool) (k : LockObject) : ℕ := if k = first isDieLock then 0 else 1

theorem ordered_call (isDieLock : Bool) : Locks.Ordered (rank isDieLock) [] (call isDieLock) := by
  cases isDieLock <;> simp [call, Locks.Ordered, rank, first]

variable {τ : Type*} [DecidableEq τ] {isDieLock : τ → Bool}

def tasks (isDieLock : τ → Bool) : System (Locks τ LockObject) τ :=
  Locks.system fun t => call (isDieLock t)

def take (s : Locks τ LockObject) (isDieLock : τ → Bool) (t : τ) : Locks τ LockObject where
  owner := Function.update s.owner (first (isDieLock t)) (some t)
  rest := Function.update s.rest t (call (isDieLock t)).tail

theorem rest_take (s : Locks τ LockObject) (t : τ) :
    (take s isDieLock t).rest t = (call (isDieLock t)).tail := Function.update_self ..

theorem rest_take_of_ne (s : Locks τ LockObject) {t u : τ} (h : u ≠ t) :
    (take s isDieLock t).rest u = s.rest u := Function.update_of_ne h ..

theorem owner_take (s : Locks τ LockObject) (t : τ) :
    (take s isDieLock t).owner (first (isDieLock t)) = some t := Function.update_self ..

theorem owner_take_of_ne (s : Locks τ LockObject) {t : τ} {k : LockObject}
    (h : k ≠ first (isDieLock t)) : (take s isDieLock t).owner k = s.owner k :=
  Function.update_of_ne h ..

theorem step_take {s : Locks τ LockObject} {t : τ} (hrest : s.rest t = call (isDieLock t))
    (howner : s.owner (first (isDieLock t)) = none) :
    (tasks isDieLock).step s t = some (take s isDieLock t) := by
  rw [call_eq] at hrest
  change Locks.step s t = _
  simp only [Locks.step, hrest, howner, take, call_eq, List.tail_cons]

theorem first_ne {b c : Bool} (h : b ≠ c) : first c ≠ first b := by
  revert h
  cases b <;> cases c <;> decide

theorem eq_first_or {b c : Bool} (h : b ≠ c) (k : LockObject) : k = first b ∨ k = first c := by
  revert h
  cases b <;> cases c <;> cases k <;> decide

def bothTaken (isDieLock : τ → Bool) (t u : τ) : Locks τ LockObject :=
  take (take (tasks isDieLock).init isDieLock t) isDieLock u

theorem reached_bothTaken {t u : τ} (htu : isDieLock t ≠ isDieLock u) :
    (tasks isDieLock).Reached (bothTaken isDieLock t u) := by
  have hrest : (take (tasks isDieLock).init isDieLock t).rest u = call (isDieLock u) :=
    rest_take_of_ne _ fun h => htu (h ▸ rfl)
  have howner : (take (tasks isDieLock).init isDieLock t).owner (first (isDieLock u)) = none :=
    owner_take_of_ne _ (first_ne htu)
  exact (System.ReachedBy.init.step trivial (step_take rfl rfl)).step trivial
    (step_take hrest howner)

theorem stuck_bothTaken {t u : τ} (htu : isDieLock t ≠ isDieLock u) :
    (tasks isDieLock).Stuck (fun _ _ => True) (bothTaken isDieLock t u) := by
  intro v _
  obtain ⟨k, as, hrest⟩ : ∃ k as, (bothTaken isDieLock t u).rest v = .lock k :: as := by
    by_cases hu : v = u
    · rw [hu, bothTaken, rest_take, call_eq]
      exact ⟨_, _, rfl⟩
    · by_cases ht : v = t
      · rw [bothTaken, rest_take_of_ne _ hu, ht, rest_take, call_eq]
        exact ⟨_, _, rfl⟩
      · rw [bothTaken, rest_take_of_ne _ hu, rest_take_of_ne _ ht]
        exact ⟨_, _, call_eq _⟩
  obtain ⟨w, howner⟩ : ∃ w, (bothTaken isDieLock t u).owner k = some w := by
    rcases eq_first_or htu k with rfl | rfl
    · rw [bothTaken, owner_take_of_ne _ (first_ne htu).symm, owner_take]
      exact ⟨t, rfl⟩
    · rw [bothTaken, owner_take]
      exact ⟨u, rfl⟩
  change Locks.step _ v = none
  simp only [Locks.step, hrest, howner]

/-- Tasks can block one another for ever if and only if two of them take the objects in different
orders. -/
theorem stuck_iff [Finite τ] (isDieLock : τ → Bool) :
    (∃ s, (tasks isDieLock).Reached s ∧ (tasks isDieLock).Stuck (fun _ _ => True) s ∧
      ∃ t, s.rest t ≠ []) ↔ ∃ t u, isDieLock t ≠ isDieLock u := by
  constructor
  · rintro ⟨s, hs, hstuck, t, ht⟩
    by_contra hnot
    simp only [not_exists, not_not] at hnot
    have hordered (u : τ) : Locks.Ordered (rank (isDieLock t)) [] (call (isDieLock u)) := by
      rw [hnot u t]
      exact ordered_call _
    exact ht ((Locks.done_of_stuck hordered hs hstuck).1 t)
  · rintro ⟨t, u, htu⟩
    refine ⟨_, reached_bothTaken htu, stuck_bothTaken htu, u, ?_⟩
    rw [bothTaken, rest_take, call_eq]
    nofun

theorem stuck_iff_two :
    ∃ s, (tasks id).Reached s ∧ (tasks id).Stuck (fun _ _ => True) s ∧ ∃ t : Bool, s.rest t ≠ [] :=
  (stuck_iff id).mpr ⟨true, false, nofun⟩

end HelloBoot.TestLock
