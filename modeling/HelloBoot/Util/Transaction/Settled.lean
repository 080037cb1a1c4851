import HelloBoot.Util.Transaction.AllOrNothing

/-!
# Transactions that are left open

A runnable calls `commit` or `rollback` at most once, and only at its end. It ends
without either after `getTransaction` has returned in two ways: `handle` throws an
`Error`, which no clause catches, or its `await` of the gate is interrupted, which
skips the decision. A step keeps every ended transaction settled if and only if it is
none of these (`noneOpen_step_iff`), so in the runs without them none is left open
(`noneOpen_of_settles`).
-/

namespace HelloBoot.TransactionManagerUtil

open Transition

variable {n : ℕ} {ex : Executor} {s s' : State n} {a : Act n}

/-- `handle` throws no `Error`, and no `await` of the gate is interrupted. -/
def Settles (s : State n) : Act n → Prop
  | .worker i e => ((s.worker i).pc = .handling → e ≠ .error) ∧
      ((s.worker i).pc = .awaiting → e ≠ .interrupt)
  | _ => True

instance (s : State n) : (a : Act n) → Decidable (Settles s a)
  | .worker _ _ => inferInstanceAs (Decidable ((_ → _) ∧ (_ → _)))
  | .main _ | .start _ => .isTrue trivial

/-- Whenever a runnable has ended after `getTransaction` has returned, exactly one of
`commit` and `rollback` has been called. -/
def State.NoneOpen (s : State n) : Prop :=
  ∀ i, (s.worker i).pc.isEnd = true → (s.worker i).tx ≠ .notBegun →
    (s.worker i).commits + (s.worker i).rollbacks = 1

instance (s : State n) : Decidable s.NoneOpen :=
  inferInstanceAs (Decidable (∀ _, _ → _ → _))

def Pc.isEarly : Pc → Bool
  | .unsubmitted | .queued | .entry | .skipping | .beginning => true
  | _ => false

/-- What every run keeps of a runnable: its transaction has begun when it is past
`getTransaction`, and neither `commit` nor `rollback` is called before the end. -/
structure Worker.Counted (w : Worker) : Prop where
  early : w.pc.isEarly = true → w.tx = .notBegun
  begun : w.pc.isEarly = false → w.pc.isEnd = false → w.tx ≠ .notBegun
  uncalled : w.pc.isEnd = false → w.commits + w.rollbacks = 0

namespace WorkerStep

variable {sh sh' : Shared} {w w' : Worker} {e : Event}

theorem isEnd_eq_false (h : WorkerStep sh w e sh' w') : w.pc.isEnd = false := by
  cases h <;> simp [*, Pc.isEnd]

theorem tx_of_isEarly (h : WorkerStep sh w e sh' w') (hpc : w'.pc.isEarly = true) :
    w.pc.isEarly = true ∧ w'.tx = w.tx := by
  cases h <;> simp_all [Pc.isEarly]

theorem tx_of_not_isEarly (h : WorkerStep sh w e sh' w') (hearly : w'.pc.isEarly = false)
    (hend : w'.pc.isEnd = false) :
    w'.tx = .active ∨ w.pc.isEarly = false ∧ w'.tx = w.tx := by
  cases h <;> simp_all [Pc.isEarly, Pc.isEnd]

theorem calls_eq (h : WorkerStep sh w e sh' w') (hend : w'.pc.isEnd = false) :
    w'.commits + w'.rollbacks = w.commits + w.rollbacks := by
  cases h <;> simp_all [Pc.isEnd]

theorem counted (h : WorkerStep sh w e sh' w') (hw : w.Counted) : w'.Counted where
  early hpc := by
    obtain ⟨hearly, htx⟩ := h.tx_of_isEarly hpc
    exact htx.trans (hw.early hearly)
  begun hpc hend := by
    rcases h.tx_of_not_isEarly hpc hend with htx | ⟨hearly, htx⟩
    · simp [htx]
    · exact htx ▸ hw.begun hearly h.isEnd_eq_false
  uncalled hend := (h.calls_eq hend).trans (hw.uncalled h.isEnd_eq_false)

theorem settled_iff (h : WorkerStep sh w e sh' w') (hw : w.Counted) (hend : w'.pc.isEnd = true)
    (hbegun : w'.tx ≠ .notBegun) :
    w'.commits + w'.rollbacks = 1 ↔
      (w.pc = .handling → e ≠ .error) ∧ (w.pc = .awaiting → e ≠ .interrupt) := by
  have huncalled := hw.uncalled h.isEnd_eq_false
  cases h
  case skip hpc => exact absurd (hw.early (by simp [hpc, Pc.isEarly])) hbegun
  case beginThrows hpc _ => exact absurd (hw.early (by simp [hpc, Pc.isEarly])) hbegun
  case handleDies hpc => simp [hpc, huncalled]
  case interrupted hpc => simp [hpc, huncalled]
  case commit hpc => exact iff_of_true (by simp only; omega) (by simp [hpc])
  case commitThrows hpc _ => exact iff_of_true (by simp only; omega) (by simp [hpc])
  case rollback hpc => exact iff_of_true (by simp only; omega) (by simp [hpc])
  case rollbackThrows hpc _ => exact iff_of_true (by simp only; omega) (by simp [hpc])
  all_goals cases hend

end WorkerStep

/-- An error of `handle` and an interruption leave the transaction open. -/
theorem open_of_workerStep {sh sh' : Shared} {w w' : Worker} {e : Event}
    (h : workerStep sh w e = some (sh', w')) (hw : w.Counted)
    (he : w.pc = .handling ∧ e = .error ∨ w.pc = .awaiting ∧ e = .interrupt) :
    w'.pc.isEnd = true ∧ w'.tx ≠ .notBegun ∧ w'.commits + w'.rollbacks = 0 := by
  have hpc : w.pc.isEarly = false ∧ w.pc.isEnd = false := by
    rcases he with ⟨hpc, -⟩ | ⟨hpc, -⟩ <;> simp [hpc, Pc.isEarly, Pc.isEnd]
  have hbegun := hw.begun hpc.1 hpc.2
  have huncalled := hw.uncalled hpc.2
  rcases he with ⟨hpc, rfl⟩ | ⟨hpc, rfl⟩ <;>
  · simp only [workerStep, hpc, Option.some.injEq, Prod.mk.injEq] at h
    obtain ⟨-, rfl⟩ := h
    exact ⟨rfl, hbegun, huncalled⟩

theorem counted_of_reachedBy {ok : State n → Act n → Prop} (h : (execute ex n).ReachedBy ok s)
    (i : Fin n) : (s.worker i).Counted := by
  induction h with
  | init => exact ⟨fun _ => rfl, nofun, fun _ => rfl⟩
  | step hs _ hstep ih =>
      rcases (Inv.of_reachedBy hs).worker_cases hstep i with heq | ⟨pc, heq, hpc, hold⟩ | ⟨e, -, hw⟩
      · rwa [heq]
      · have hearly := ih.early (by rcases hold with hold | hold <;> simp [hold, Pc.isEarly])
        have hcalls := ih.uncalled (by rcases hold with hold | hold <;> simp [hold, Pc.isEnd])
        rw [heq]
        refine ⟨fun _ => hearly, fun h => ?_, fun _ => hcalls⟩
        rcases hpc with rfl | rfl <;> cases h
      · exact hw.counted ih

/-- A step leaves nothing open if and only if it ends no runnable by an error of
`handle` or by an interruption. -/
theorem noneOpen_step_iff {ok : State n → Act n → Prop} (h : (execute ex n).ReachedBy ok s)
    (hs : s.NoneOpen) (hstep : (execute ex n).step s a = some s') :
    s'.NoneOpen ↔ Settles s a := by
  have hcases := (Inv.of_reachedBy h).worker_cases hstep
  constructor
  · intro hs'
    cases a with
    | main e => trivial
    | start i => trivial
    | worker i e =>
        obtain ⟨⟨sh', w'⟩, hw, rfl⟩ := Option.map_eq_some_iff.mp hstep
        by_contra hopen
        obtain ⟨hend, hbegun, hcalls⟩ := open_of_workerStep hw (counted_of_reachedBy h i)
          (by simp only [Settles] at hopen; tauto)
        have hone := hs' i (by simpa using hend) (by simpa using hbegun)
        simp only [State.worker_set_self] at hone
        omega
  · intro hok i hend hbegun
    rcases hcases i with heq | ⟨pc, heq, hpc, -⟩ | ⟨e, rfl, hw⟩
    · rw [heq] at hend hbegun ⊢
      exact hs i hend hbegun
    · rw [heq] at hend
      rcases hpc with rfl | rfl <;> cases hend
    · exact (hw.settled_iff (counted_of_reachedBy h i) hend hbegun).mpr hok

/-- In the runs in which no `handle` throws an `Error` and no runnable is interrupted,
exactly one of `commit` and `rollback` has been called when a runnable has ended. -/
theorem noneOpen_of_settles (h : (execute ex n).ReachedBy Settles s) : s.NoneOpen := by
  induction h with
  | init => exact nofun
  | step hs hok hstep ih => exact (noneOpen_step_iff hs ih hstep).mpr hok

theorem noneOpen_of_patientRun :
    ∃ s, (execute ⟨2, false⟩ 2).ReachedBy Settles s ∧ s.Ended ∧
      (s.worker 0).tx = .committed ∧ s.NoneOpen := by
  have hrun : ∃ s, (execute ⟨2, false⟩ 2).ReachedBy Settles s ∧
      s.Ended ∧ (s.worker 0).tx = .committed :=
    System.ReachedBy.exists_of_execBy patientRun (by decide)
  obtain ⟨s, hs, hended, htx⟩ := hrun
  exact ⟨s, hs, hended, htx, noneOpen_of_settles hs⟩

/-- A task whose `handle` throws an `Error`. -/
def openRun : List (Act 1) :=
  [.main .ok, .main .ok, .start 0, .worker 0 .ok, .worker 0 .ok, .worker 0 .error]

/-- After `openRun` the runnable has died with its transaction active. -/
theorem not_noneOpen_of_error :
    ∃ s, (execute ⟨1, false⟩ 1).ReachedBy (fun _ _ => True) s ∧ ¬ s.NoneOpen :=
  System.ReachedBy.exists_of_execBy openRun (by decide)

end HelloBoot.TransactionManagerUtil
