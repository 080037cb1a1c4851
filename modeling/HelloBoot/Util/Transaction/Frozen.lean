import HelloBoot.Util.Transaction.AllOrNothing

/-!
# The verdict behind the gate

`mainTask.countDown()` is executed when every runnable has reported, or after the
calling thread itself has set `submit` to false. So the runnables that could still
change `submit` change nothing (`Inv.step_submit_eq`), and from then on every runnable
that reads it, and the calling thread, read the same (`verdict_frozen`).
-/

namespace HelloBoot.TransactionManagerUtil

open Transition

variable {n : ℕ} {ex : Executor} {s s' : State n}

/-- On the way to the state the calling thread has executed `mainTask.countDown()`. -/
def Opened (ex : Executor) (s : State n) : Prop :=
  ∃ s₀ s₁, (execute ex n).Reached s₀ ∧ s₀.main = .opening ∧
    (execute ex n).step s₀ (.main .ok) = some s₁ ∧ (execute ex n).Leads s₁ s

/-- The gate stays open, and `submit` and the verdict stay as they are. -/
theorem Inv.leads (hs : Inv s) (hgate : s.shared.mainTask = 0)
    (h : (execute ex n).Leads s s') :
    Inv s' ∧ s'.shared.mainTask = 0 ∧ s'.shared.submit = s.shared.submit := by
  induction h with
  | refl => exact ⟨hs, hgate, rfl⟩
  | tail _ hstep ih =>
      obtain ⟨a, hstep⟩ := hstep
      obtain ⟨hinv, hopen, hsubmit⟩ := ih
      exact ⟨hinv.step hstep, step_mainTask_of_zero hstep hopen,
        (hinv.step_submit_eq hstep hopen).trans hsubmit⟩

theorem Opened.inv (h : Opened ex s) : Inv s ∧ s.shared.mainTask = 0 := by
  obtain ⟨s₀, s₁, hs₀, hmain, hstep, hleads⟩ := h
  have hinv := Inv.of_reachedBy hs₀
  have hclosed := hinv.closed (by rw [hmain]; rfl)
  have hopen : s₁.shared.mainTask = 0 := by
    change mainStep ex s₀ .ok = some s₁ at hstep
    simp only [mainStep, hmain, Option.some.injEq] at hstep
    simp [← hstep, hclosed]
  obtain ⟨hinv', hopen', -⟩ := (hinv.step hstep).leads hopen hleads
  exact ⟨hinv', hopen'⟩

theorem opened_of_mainTask (h : (execute ex n).Reached s) (hgate : s.shared.mainTask = 0) :
    Opened ex s := by
  induction h with
  | init => cases hgate
  | @step s a s' hs _ hstep ih =>
      by_cases hbefore : s.shared.mainTask = 0
      · obtain ⟨s₀, s₁, hs₀, hmain, hopen, hleads⟩ := ih hbefore
        exact ⟨s₀, s₁, hs₀, hmain, hopen, hleads.tail ⟨a, hstep⟩⟩
      · rcases step_cases hstep with ⟨e, rfl, hm⟩ | ⟨i, -, -, -, rfl⟩ | ⟨i, e, sh', w', -, hw, rfl⟩
        · cases hm
          case openGate hmain => exact ⟨s, _, hs, hmain, hstep, .refl⟩
          all_goals exact absurd hgate hbefore
        · exact absurd hgate hbefore
        · exact absurd (hw.mainTask_eq.symm.trans hgate) hbefore

theorem mainTask_of_awaiting {i : Fin n} (h : (execute ex n).step s (.worker i .ok) = some s')
    (hpc : (s.worker i).pc = .awaiting) : s.shared.mainTask = 0 := by
  obtain ⟨⟨sh, w⟩, hstep, -⟩ := Option.map_eq_some_iff.mp h
  simp only [workerStep, hpc, Option.ite_none_right_eq_some] at hstep
  exact hstep.1

/-- What a runnable does that reads `submit` after its `await`. -/
theorem pc_of_deciding {i : Fin n} (h : (execute ex n).step s (.worker i .ok) = some s')
    (hpc : (s.worker i).pc = .deciding) :
    (s'.worker i).pc = if s.shared.submit then .committing else .rollingBack := by
  obtain ⟨⟨sh, w⟩, hstep, rfl⟩ := Option.map_eq_some_iff.mp h
  simp only [workerStep, hpc, Option.some.injEq, Prod.mk.injEq] at hstep
  rw [State.worker_set_self, ← hstep.2]

/-- A runnable passes its `await` of the gate only after `mainTask.countDown()`, unless it
times out. From then on the value of `submit` never changes; every runnable that decides
takes the branch it names, and so does the answer of `execute`. -/
theorem verdict_frozen (h : (execute ex n).Reached s) :
    (∀ i s', (execute ex n).step s (.worker i .ok) = some s' → (s.worker i).pc = .awaiting →
      Opened ex s) ∧
    (Opened ex s → ∀ s', (execute ex n).Leads s s' →
      s'.shared.submit = s.shared.submit ∧
      (∀ i s'', (execute ex n).step s' (.worker i .ok) = some s'' →
        (s'.worker i).pc = .deciding →
        (s''.worker i).pc = if s.shared.submit then .committing else .rollingBack) ∧
      ∀ b, s'.main = .returned b → b = s.shared.submit) := by
  refine ⟨fun i s' hstep hpc => opened_of_mainTask h (mainTask_of_awaiting hstep hpc), ?_⟩
  intro hopened s' hlater
  obtain ⟨hinv, hgate⟩ := hopened.inv
  obtain ⟨hinv', hgate', hsubmit⟩ := hinv.leads hgate hlater
  refine ⟨hsubmit, fun i s'' hstep hpc => ?_, fun b hb => ?_⟩
  · rw [← hsubmit]
    exact pc_of_deciding hstep hpc
  · exact (hinv'.answer b hb hgate').trans hsubmit

/-- In `patientRun`, from the opening of the gate to the answer. -/
theorem verdict_frozen_patientRun :
    ∃ s s' : State 2, (execute ⟨2, false⟩ 2).Reached s ∧ s.shared.mainTask = 0 ∧
      s'.main = .returned true ∧ s'.shared.submit = s.shared.submit ∧
      (∀ i s'', (execute ⟨2, false⟩ 2).step s' (.worker i .ok) = some s'' →
        (s'.worker i).pc = .deciding →
        (s''.worker i).pc = if s.shared.submit then .committing else .rollingBack) ∧
      ∀ b, s'.main = .returned b → b = s.shared.submit := by
  have hrun : ∃ s₀, (execute ⟨2, false⟩ 2).Reached s₀ ∧ s₀.main = .opening ∧
      ∃ s ∈ (execute ⟨2, false⟩ 2).step s₀ (.main .ok), s.shared.mainTask = 0 ∧
        ∃ s' ∈ (execute ⟨2, false⟩ 2).execBy (fun _ _ => True) s [.main .ok, .worker 0 .ok],
          s'.main = .returned true :=
    System.ReachedBy.exists_of_execBy (patientRun.take 15) (by decide)
  obtain ⟨s₀, hs₀, hmain, s, hs, hgate, s', hs', hreturned⟩ := hrun
  have hreached : (execute ⟨2, false⟩ 2).Reached s := hs₀.step trivial hs
  have hopened : Opened ⟨2, false⟩ s := ⟨s₀, s, hs₀, hmain, hs, .refl⟩
  exact ⟨s, s', hreached, hgate, hreturned,
    (verdict_frozen hreached).2 hopened s' (System.leads_of_execBy hs')⟩

end HelloBoot.TransactionManagerUtil
