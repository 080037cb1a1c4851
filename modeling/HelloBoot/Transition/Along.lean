import Mathlib.Data.List.Basic

/-!
# What holds along a run of calls

A run performs one call after the other, and `next` is the state that a call leaves. A
property of states and calls holds along a run if it holds of each call in the state in
which this is made. What every call keeps, the run keeps (`Along.foldl_eq`), and a
property that single calls have under an exact condition holds along a run if and only if
the condition does (`along_congr`).
-/

namespace Transition

variable {σ α τ : Type*} {next : σ → α → σ}

/-- `P` holds of every call of a run, in the state in which it is made. -/
def Along (next : σ → α → σ) (P : σ → α → Prop) : σ → List α → Prop
  | _, [] => True
  | s, a :: as => P s a ∧ Along next P (next s a) as

theorem along_congr {P Q : σ → α → Prop} (h : ∀ s a, P s a ↔ Q s a) {s : σ} {as : List α} :
    Along next P s as ↔ Along next Q s as := by
  induction as generalizing s with
  | nil => exact Iff.rfl
  | cons a as ih => exact and_congr (h s a) ih

theorem Along.imp {P Q : σ → α → Prop} (h : ∀ s a, P s a → Q s a) {s : σ} {as : List α}
    (hrun : Along next P s as) : Along next Q s as := by
  induction as generalizing s with
  | nil => trivial
  | cons a as ih => exact ⟨h s a hrun.1, ih hrun.2⟩

/-- What every call of a run keeps is kept by the run. -/
theorem Along.foldl_eq {f : σ → τ} {s : σ} {as : List α}
    (h : Along next (fun s a => f (next s a) = f s) s as) : f (as.foldl next s) = f s := by
  induction as generalizing s with
  | nil => rfl
  | cons a as ih => exact (ih h.2).trans h.1

/-- What no call lowers is kept by a run if and only if every call of it keeps it. -/
theorem Along.foldl_eq_iff {f : σ → ℕ} {P : σ → α → Prop} {s : σ} {as : List α}
    (h : Along next (fun s a => f s ≤ f (next s a) ∧ (f (next s a) = f s ↔ P s a)) s as) :
    f (as.foldl next s) = f s ↔ Along next P s as := by
  have hle {s : σ} {as : List α}
      (h : Along next (fun s a => f s ≤ f (next s a) ∧ (f (next s a) = f s ↔ P s a)) s as) :
      f s ≤ f (as.foldl next s) := by
    induction as generalizing s with
    | nil => exact Nat.le_refl _
    | cons a as ih => exact Nat.le_trans h.1.1 (ih h.2)
  induction as generalizing s with
  | nil => exact iff_of_true rfl trivial
  | cons a as ih =>
      have hlast := hle h.2
      refine Iff.trans ?_ (and_congr h.1.2 (ih h.2))
      rw [List.foldl_cons]
      constructor
      · intro heq
        have hfirst : f (next s a) = f s := Nat.le_antisymm (heq ▸ hlast) h.1.1
        exact ⟨hfirst, heq.trans hfirst.symm⟩
      · rintro ⟨hfirst, hrest⟩
        exact hrest.trans hfirst

/-- A state that every call leaves as it is, the run leaves as it is. -/
theorem foldl_eq_of_fixed {s : σ} (h : ∀ a, next s a = s) (as : List α) :
    as.foldl next s = s := by
  induction as with
  | nil => rfl
  | cons a as ih => rw [List.foldl_cons, h, ih]

/-- What every call of a run raises by one is raised by their number. -/
theorem Along.foldl_add {f : σ → ℕ} {s : σ} {as : List α}
    (h : Along next (fun s a => f (next s a) = f s + 1) s as) :
    f (as.foldl next s) = f s + as.length := by
  induction as generalizing s with
  | nil => rfl
  | cons a as ih =>
      rw [List.foldl_cons, ih h.2, h.1, List.length_cons, Nat.add_assoc, Nat.add_comm 1]

end Transition
