import HelloBoot.Util.Transaction.Verdict

/-!
# All or nothing, and the answer of `execute`

Two defects stand between `execute` and its purpose. The result of
`mainTask.await` is ignored, so a runnable that gave up waiting commits as long as
`submit` is still true; and an answer is read from `submit` where nothing is settled
yet. In the runs that avoid them, everything is committed or nothing is
(`allOrNothing_of_gateRespected`), and the answer agrees with the database
(`answerAgrees_of_gateRespected`).
-/

namespace HelloBoot.TransactionManagerUtil

open Transition

variable {n : ℕ} {ex : Executor} {s s' : State n} {a : Act n}

/-- No `await` is interrupted, and the transaction manager never throws. -/
def Calm (s : State n) : Act n → Prop
  | .main e => e ≠ .interrupt
  | .start _ => True
  | .worker i e => e ≠ .interrupt ∧
      ((s.worker i).pc = .beginning ∨ (s.worker i).pc = .committing ∨
        (s.worker i).pc = .rollingBack → e = .ok)

instance (s : State n) : (a : Act n) → Decidable (Calm s a)
  | .main _ => inferInstanceAs (Decidable (_ ≠ _))
  | .start _ => .isTrue trivial
  | .worker _ _ => inferInstanceAs (Decidable (_ ∧ (_ ∨ _ ∨ _ → _)))

/-- The steps under which a runnable that has ended has committed, unless the
verdict is against. -/
def Careful (s : State n) (a : Act n) : Prop :=
  GateRespected s a ∧ CommitSucceeds s a ∧ InterruptAfterRefusal s a

instance (s : State n) (a : Act n) : Decidable (Careful s a) :=
  inferInstanceAs (Decidable (_ ∧ _))

/-- A runnable has ended with its transaction committed, or the verdict is against. -/
def Concluded (s : State n) : Prop :=
  ∀ i, (s.worker i).pc = .ended → (s.worker i).tx = .committed ∨ s.shared.submit = false

/-- How a runnable ends. -/
theorem WorkerStep.of_ended {sh sh' : Shared} {w w' : Worker} {e : Event}
    (h : WorkerStep sh w e sh' w') (hpc : w'.pc = .ended) :
    w'.tx = .committed ∨ w.pc = .skipping ∨ e = .interrupt ∨ w.pc = .rollingBack ∨
      w.pc = .committing ∧ e ≠ .ok := by
  cases h
  case skip hskipping => exact .inr (.inl hskipping)
  case interrupted => exact .inr (.inr (.inl rfl))
  case commit => exact .inl rfl
  case commitThrows hcommitting he => exact .inr (.inr (.inr (.inr ⟨hcommitting, he⟩)))
  case rollback hrolling => exact .inr (.inr (.inr (.inl hrolling)))
  case rollbackThrows hrolling _ => exact .inr (.inr (.inr (.inl hrolling)))
  all_goals cases hpc

theorem Concluded.step (hc : Concluded s) (hs : Inv s) (hd : Decided s) (hok : Careful s a)
    (h : (execute ex n).step s a = some s') : Concluded s' := by
  obtain ⟨-, hcommit, hinterrupt⟩ := hok
  intro j hj
  rcases hs.worker_cases h j with heq | ⟨pc, heq, hpc, -⟩ | ⟨e, rfl, hw⟩
  · rw [heq] at hj ⊢
    exact (hc j hj).imp_right (step_submit_of_false h)
  · rw [heq] at hj
    rcases hpc with rfl | rfl <;> cases hj
  · rcases hw.of_ended hj with hcommitted | hskipping | rfl | hrolling | ⟨hcommitting, he⟩
    · exact .inl hcommitted
    · exact .inr (step_submit_of_false h (hs.refused j hskipping))
    · exact .inr (step_submit_of_false h hinterrupt)
    · exact .inr (step_submit_of_false h
        (State.verdict_eq_some_false_iff.mp (hd.rollingBack j hrolling)))
    · exact absurd (hcommit hcommitting) he

theorem Concluded.of_reachedBy {ok : State n → Act n → Prop}
    (hok : ∀ s a, ok s a → Careful s a) (h : (execute ex n).ReachedBy ok s) : Concluded s := by
  induction h with
  | init => exact nofun
  | step hs hguard hstep ih =>
      exact ih.step (Inv.of_reachedBy hs)
        (Decided.of_reachedBy (fun s a h => (hok s a h).1) hs) (hok _ _ hguard) hstep

/-- With the verdict in favour every runnable has reported. -/
theorem Inv.reported_of_verdict (hs : Inv s) (h : s.verdict = some true) (i : Fin n) :
    (s.worker i).pc.reported = true := by
  obtain ⟨hsubmit, hgate⟩ := State.verdict_eq_some_true_iff.mp h
  have hzero := hs.settled (.inl hgate) hsubmit
  rw [hs.subTask_eq] at hzero
  exact reported_of_missing_eq_zero hzero i

theorem Pc.eq_ended_of_reported {pc : Pc} (hreported : pc.reported = true)
    (hend : pc.isEnd = true ∨ pc = .unsubmitted) : pc = .ended := by
  cases pc <;> simp [Pc.reported, Pc.isEnd] at hreported hend ⊢

/-- When no runnable that gave up waiting for the gate finds `submit` true, all
transactions have been committed at the end, or none has. -/
theorem allOrNothing_of_gateRespected (h : (execute ex n).ReachedBy Careful s)
    (hended : s.Ended) : s.AllOrNothing := by
  by_cases hnone : ∀ i, (s.worker i).tx ≠ .committed
  · exact .inr hnone
  obtain ⟨i, hi⟩ := not_forall.mp hnone
  have hverdict := verdict_of_committed (fun _ _ hok => hok.1) h (not_not.mp hi)
  obtain ⟨hsubmit, -⟩ := State.verdict_eq_some_true_iff.mp hverdict
  refine .inl fun j => ?_
  have hj := Pc.eq_ended_of_reported ((Inv.of_reachedBy h).reported_of_verdict hverdict j)
    (hended.2 j)
  rcases Concluded.of_reachedBy (fun _ _ hok => hok) h j hj with hcommitted | hfalse
  · exact hcommitted
  · rw [hsubmit] at hfalse
    cases hfalse

/-- Two tasks that return, with a gate that both runnables wait for. -/
def patientRun : List (Act 2) :=
  [.main .ok, .main .ok, .main .ok,
    .start 0, .worker 0 .ok, .worker 0 .ok, .worker 0 .ok, .worker 0 .ok,
    .start 1, .worker 1 .ok, .worker 1 .ok, .worker 1 .ok, .worker 1 .ok,
    .main .ok, .main .ok, .main .ok, .main .ok,
    .worker 0 .ok, .worker 0 .ok, .worker 0 .ok,
    .worker 1 .ok, .worker 1 .ok, .worker 1 .ok]

theorem allOrNothing_of_patientRun :
    ∃ s, (execute ⟨2, false⟩ 2).ReachedBy Careful s ∧ s.Ended ∧
      (s.worker 0).tx = .committed ∧ s.AllOrNothing := by
  have hrun : ∃ s, (execute ⟨2, false⟩ 2).ReachedBy Careful s ∧
      s.Ended ∧ (s.worker 0).tx = .committed :=
    System.ReachedBy.exists_of_execBy patientRun (by decide)
  obtain ⟨s, hs, hended, htx⟩ := hrun
  exact ⟨s, hs, hended, htx, allOrNothing_of_gateRespected hs hended⟩

/-- A runnable whose `await` times out commits although the gate is closed; then the
other task throws. -/
def impatientRun : List (Act 2) :=
  [.main .ok, .main .ok, .main .ok,
    .start 0, .worker 0 .ok, .worker 0 .ok, .worker 0 .ok, .worker 0 .ok,
    .worker 0 .timeout, .worker 0 .ok, .worker 0 .ok,
    .start 1, .worker 1 .ok, .worker 1 .ok, .worker 1 .exception, .worker 1 .ok, .worker 1 .ok,
    .main .ok, .main .ok, .main .ok, .main .ok,
    .worker 1 .ok, .worker 1 .ok, .worker 1 .ok]

/-- After `impatientRun` one transaction has been committed and one rolled back. -/
theorem not_allOrNothing_of_timeout :
    ∃ s, (execute ⟨2, false⟩ 2).ReachedBy Calm s ∧ s.Ended ∧ ¬ s.AllOrNothing :=
  System.ReachedBy.exists_of_execBy impatientRun (by decide)

/-- The steps that also keep an answer from being given while nothing is settled. -/
def CarefulAnswer (s : State n) (a : Act n) : Prop :=
  Careful s a ∧ AnswerAfterRefusal s a

instance (s : State n) (a : Act n) : Decidable (CarefulAnswer s a) :=
  inferInstanceAs (Decidable (_ ∧ _))

/-- The answer is true only once the gate is open. -/
theorem mainTask_of_returned_true (h : (execute ex n).ReachedBy CarefulAnswer s)
    (hmain : s.main = .returned true) : s.shared.mainTask = 0 := by
  induction h with
  | init => cases hmain
  | @step s a s' hs hguard hstep ih =>
      rcases step_cases hstep with ⟨e, rfl, hm⟩ | ⟨i, -, -, -, rfl⟩ | ⟨i, e, sh', w', -, hw, rfl⟩
      · cases hm
        case read hreading => exact (Inv.of_reachedBy hs).opened hreading
        case readCaught hcaught =>
            have hfalse := hguard.2 hcaught
            simp [hfalse] at hmain
        all_goals cases hmain
      · exact ih hmain
      · exact hw.mainTask_eq.trans (ih hmain)

/-- When moreover an interrupted calling thread answers only after a refusal, the
answer of `execute` agrees with the database. -/
theorem answerAgrees_of_gateRespected (h : (execute ex n).ReachedBy CarefulAnswer s) :
    s.AnswerAgrees := by
  have hcareful : (execute ex n).ReachedBy Careful s := h.mono fun _ _ hok => hok.1
  have hs := Inv.of_reachedBy h
  constructor
  · intro hmain hended
    have hgate := mainTask_of_returned_true h hmain
    have hsubmit := hs.answer true hmain hgate
    have hverdict := State.verdict_eq_some_true_iff.mpr ⟨hsubmit.symm, hgate⟩
    intro i
    have hi := Pc.eq_ended_of_reported (hs.reported_of_verdict hverdict i) (.inl (hended i))
    rcases Concluded.of_reachedBy (fun _ _ hok => hok) hcareful i hi with hcommitted | hfalse
    · exact hcommitted
    · rw [hfalse] at hsubmit
      cases hsubmit
  · intro hmain i hi
    have hverdict := verdict_of_committed (fun _ _ hok => hok.1) hcareful hi
    obtain ⟨hsubmit, hgate⟩ := State.verdict_eq_some_true_iff.mp hverdict
    have hanswer := hs.answer false hmain hgate
    rw [hsubmit] at hanswer
    cases hanswer

theorem answerAgrees_of_patientRun :
    ∃ s, (execute ⟨2, false⟩ 2).ReachedBy CarefulAnswer s ∧ s.main = .returned true ∧
      s.AnswerAgrees := by
  have hrun : ∃ s, (execute ⟨2, false⟩ 2).ReachedBy CarefulAnswer s ∧
      s.main = .returned true :=
    System.ReachedBy.exists_of_execBy patientRun (by decide)
  obtain ⟨s, hs, hmain⟩ := hrun
  exact ⟨s, hs, hmain, answerAgrees_of_gateRespected hs⟩

/-- In `impatientRun` the answer is false, and a transaction has been committed. -/
theorem not_answerAgrees_of_timeout :
    ∃ s, (execute ⟨2, false⟩ 2).ReachedBy Calm s ∧ s.Ended ∧ ¬ s.AnswerAgrees :=
  System.ReachedBy.exists_of_execBy impatientRun (by decide)

end HelloBoot.TransactionManagerUtil
