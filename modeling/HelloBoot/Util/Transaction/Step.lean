import HelloBoot.Util.Transaction.Execute

/-!
# What one step of a call can do

`WorkerStep` and `MainStep` list the steps of a runnable and of the calling
thread, one constructor for each way a statement can end, and `step_cases` says
that a step of the call is one of these or the start of a runnable. Whatever holds
along runs is derived from the two lists.
-/

namespace HelloBoot.TransactionManagerUtil

open Transition

variable {n : ℕ}

/-- The steps of a runnable, one constructor for each way a statement can end. -/
inductive WorkerStep (sh : Shared) (w : Worker) : Event → Shared → Worker → Prop
  | enter (hpc : w.pc = .entry) (hsubmit : sh.submit = true) :
      WorkerStep sh w .ok sh { w with pc := .beginning }
  | refuse (hpc : w.pc = .entry) (hsubmit : sh.submit = false) :
      WorkerStep sh w .ok sh { w with pc := .skipping }
  | skip (hpc : w.pc = .skipping) :
      WorkerStep sh w .ok { sh with subTask := sh.subTask - 1 } { w with pc := .ended }
  | begin (hpc : w.pc = .beginning) :
      WorkerStep sh w .ok sh { w with pc := .handling, tx := .active }
  | beginThrows {e : Event} (hpc : w.pc = .beginning) (he : e ≠ .ok) :
      WorkerStep sh w e sh { w with pc := .died }
  | handle (hpc : w.pc = .handling) : WorkerStep sh w .ok sh { w with pc := .arriving }
  | handleThrows (hpc : w.pc = .handling) :
      WorkerStep sh w .exception sh { w with pc := .failing }
  | handleDies (hpc : w.pc = .handling) : WorkerStep sh w .error sh { w with pc := .died }
  | fail (hpc : w.pc = .failing) :
      WorkerStep sh w .ok { sh with submit := false } { w with pc := .arriving }
  | arrive (hpc : w.pc = .arriving) :
      WorkerStep sh w .ok { sh with subTask := sh.subTask - 1 } { w with pc := .awaiting }
  | pass {e : Event} (hpc : w.pc = .awaiting) (he : e = .timeout ∨ sh.mainTask = 0) :
      WorkerStep sh w e sh { w with pc := .deciding }
  | interrupted (hpc : w.pc = .awaiting) :
      WorkerStep sh w .interrupt sh { w with pc := .ended }
  | decideCommit (hpc : w.pc = .deciding) (hsubmit : sh.submit = true) :
      WorkerStep sh w .ok sh { w with pc := .committing }
  | decideRollback (hpc : w.pc = .deciding) (hsubmit : sh.submit = false) :
      WorkerStep sh w .ok sh { w with pc := .rollingBack }
  | commit (hpc : w.pc = .committing) :
      WorkerStep sh w .ok sh
        { w with pc := .ended, tx := .committed, commits := w.commits + 1 }
  | commitThrows {e : Event} (hpc : w.pc = .committing) (he : e ≠ .ok) :
      WorkerStep sh w e sh { w with pc := .ended, commits := w.commits + 1 }
  | rollback (hpc : w.pc = .rollingBack) :
      WorkerStep sh w .ok sh
        { w with pc := .ended, tx := .rolledBack, rollbacks := w.rollbacks + 1 }
  | rollbackThrows {e : Event} (hpc : w.pc = .rollingBack) (he : e ≠ .ok) :
      WorkerStep sh w e sh { w with pc := .ended, rollbacks := w.rollbacks + 1 }

theorem WorkerStep.of_eq {sh sh' : Shared} {w w' : Worker} {e : Event}
    (h : workerStep sh w e = some (sh', w')) : WorkerStep sh w e sh' w' := by
  cases hpc : w.pc <;> cases e <;>
    simp only [workerStep, hpc, Option.some.injEq, Prod.mk.injEq, reduceCtorEq,
      Option.ite_none_right_eq_some] at h
  case awaiting.ok =>
      obtain ⟨hgate, rfl, rfl⟩ := h
      exact .pass hpc (.inr hgate)
  all_goals obtain ⟨rfl, rfl⟩ := h
  case entry.ok =>
      cases hsubmit : sh.submit
      · exact .refuse hpc hsubmit
      · exact .enter hpc hsubmit
  case deciding.ok =>
      cases hsubmit : sh.submit
      · exact .decideRollback hpc hsubmit
      · exact .decideCommit hpc hsubmit
  case skipping.ok => exact .skip hpc
  case beginning.ok => exact .begin hpc
  case beginning.exception => exact .beginThrows hpc (by decide)
  case beginning.error => exact .beginThrows hpc (by decide)
  case handling.ok => exact .handle hpc
  case handling.exception => exact .handleThrows hpc
  case handling.error => exact .handleDies hpc
  case failing.ok => exact .fail hpc
  case arriving.ok => exact .arrive hpc
  case awaiting.timeout => exact .pass hpc (.inl rfl)
  case awaiting.interrupt => exact .interrupted hpc
  case committing.ok => exact .commit hpc
  case committing.exception => exact .commitThrows hpc (by decide)
  case committing.error => exact .commitThrows hpc (by decide)
  case rollingBack.ok => exact .rollback hpc
  case rollingBack.exception => exact .rollbackThrows hpc (by decide)
  case rollingBack.error => exact .rollbackThrows hpc (by decide)

inductive MainStep (ex : Executor) (s : State n) : Event → State n → Prop
  | submit {i : ℕ} (hmain : s.main = .submitting i) (hi : i < n) :
      MainStep ex s .ok { s.moveWorker ⟨i, hi⟩ .queued with main := .submitting (i + 1) }
  | submitted {i : ℕ} (hmain : s.main = .submitting i) (hi : n ≤ i) :
      MainStep ex s .ok { s with main := .awaiting }
  | rejected {i : ℕ} (hmain : s.main = .submitting i) (hi : i < n)
      (hreject : ex.mayReject = true) :
      MainStep ex s .exception { s with main := .threw }
  | pass {e : Event} (hmain : s.main = .awaiting)
      (he : e = .timeout ∨ s.shared.subTask = 0) :
      MainStep ex s e { s with main := .counting }
  | interrupted (hmain : s.main = .awaiting) :
      MainStep ex s .interrupt { s with main := .caught }
  | countMissing (hmain : s.main = .counting) (hcount : 0 < s.shared.subTask) :
      MainStep ex s .ok { s with main := .closing }
  | countNone (hmain : s.main = .counting) (hcount : s.shared.subTask = 0) :
      MainStep ex s .ok { s with main := .opening }
  | close (hmain : s.main = .closing) :
      MainStep ex s .ok
        { s with main := .opening, shared := { s.shared with submit := false } }
  | openGate (hmain : s.main = .opening) :
      MainStep ex s .ok
        { s with main := .reading,
                 shared := { s.shared with mainTask := s.shared.mainTask - 1 } }
  | read (hmain : s.main = .reading) :
      MainStep ex s .ok { s with main := .returned s.shared.submit }
  | readCaught (hmain : s.main = .caught) :
      MainStep ex s .ok { s with main := .returned s.shared.submit }

theorem MainStep.of_eq {ex : Executor} {s s' : State n} {e : Event}
    (h : mainStep ex s e = some s') : MainStep ex s e s' := by
  cases hmain : s.main <;> cases e <;>
    simp only [mainStep, hmain, Option.some.injEq, reduceCtorEq,
      Option.ite_none_right_eq_some] at h
  case submitting.ok i =>
      by_cases hi : i < n
      · rw [dif_pos hi] at h
        exact Option.some.inj h ▸ .submit hmain hi
      · rw [dif_neg hi] at h
        exact Option.some.inj h ▸ .submitted hmain (not_lt.mp hi)
  case submitting.exception i =>
      obtain ⟨⟨hi, hreject⟩, rfl⟩ := h
      exact .rejected hmain hi hreject
  case awaiting.ok =>
      obtain ⟨hcount, rfl⟩ := h
      exact .pass hmain (.inr hcount)
  all_goals subst h
  case awaiting.timeout => exact .pass hmain (.inl rfl)
  case awaiting.interrupt => exact .interrupted hmain
  case counting.ok =>
      rcases Nat.eq_zero_or_pos s.shared.subTask with hcount | hcount
      · rw [if_neg (by omega)]
        exact .countNone hmain hcount
      · rw [if_pos hcount]
        exact .countMissing hmain hcount
  case closing.ok => exact .close hmain
  case opening.ok => exact .openGate hmain
  case reading.ok => exact .read hmain
  case caught.ok => exact .readCaught hmain

/-- What a step of a call is a step of. -/
theorem step_cases {ex : Executor} {s s' : State n} {a : Act n}
    (h : (execute ex n).step s a = some s') :
    (∃ e, a = .main e ∧ MainStep ex s e s') ∨
    (∃ i, a = .start i ∧ (s.worker i).pc = .queued ∧ s.running < ex.threads ∧
      s' = s.moveWorker i .entry) ∨
    (∃ i e sh' w', a = .worker i e ∧ WorkerStep s.shared (s.worker i) e sh' w' ∧
      s' = s.set i sh' w') := by
  cases a with
  | main e => exact .inl ⟨e, rfl, .of_eq h⟩
  | start i =>
      obtain ⟨⟨hpc, hidle⟩, heq⟩ := Option.ite_none_right_eq_some.mp h
      exact .inr (.inl ⟨i, rfl, hpc, hidle, (Option.some.inj heq).symm⟩)
  | worker i e =>
      obtain ⟨⟨sh', w'⟩, hstep, rfl⟩ := Option.map_eq_some_iff.mp h
      exact .inr (.inr ⟨i, e, sh', w', rfl, .of_eq hstep, rfl⟩)

end HelloBoot.TransactionManagerUtil
