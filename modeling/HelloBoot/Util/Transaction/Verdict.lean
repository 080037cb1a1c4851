import HelloBoot.Transition.Commitment
import HelloBoot.Util.Transaction.Invariant

/-!
# The verdict of a call

Read abstractly, a call of `execute` is an atomic commitment: the verdict is against
as soon as `submit` is false, and in favour once the gate is open while `submit` is
still true; a runnable concludes by committing or rolling back. `GateRespected` is
the guard under which this reading is right: no runnable finds `submit` true, after
its `await` of the gate, while the gate is still closed. Runs that respect the gate
are simulated by `Transition.Commitment`, so their runnables agree.
-/

namespace HelloBoot.TransactionManagerUtil

open Transition

variable {n : ℕ} {ex : Executor} {s s' : State n} {a : Act n}

/-- A runnable that reads `submit` as true after `mainTask.await` does so with the
gate open. -/
def GateRespected (s : State n) : Act n → Prop
  | .worker i .ok => (s.worker i).pc = .deciding → s.shared.submit = true →
      s.shared.mainTask = 0
  | _ => True

def CommitSucceeds (s : State n) : Act n → Prop
  | .worker i e => (s.worker i).pc = .committing → e = .ok
  | _ => True

/-- A runnable is interrupted in `mainTask.await` only when `submit` is false. -/
def InterruptAfterRefusal (s : State n) : Act n → Prop
  | .worker _ .interrupt => s.shared.submit = false
  | _ => True

/-- The calling thread, once interrupted in `subTask.await`, answers only when
`submit` is false. -/
def AnswerAfterRefusal (s : State n) : Act n → Prop
  | .main .ok => s.main = .caught → s.shared.submit = false
  | _ => True

instance (s : State n) : (a : Act n) → Decidable (GateRespected s a)
  | .worker _ .ok => inferInstanceAs (Decidable (_ → _ → _))
  | .worker _ .exception | .worker _ .error | .worker _ .timeout | .worker _ .interrupt
  | .main _ | .start _ => .isTrue trivial

instance (s : State n) : (a : Act n) → Decidable (CommitSucceeds s a)
  | .worker _ _ => inferInstanceAs (Decidable (_ → _))
  | .main _ | .start _ => .isTrue trivial

instance (s : State n) : (a : Act n) → Decidable (InterruptAfterRefusal s a)
  | .worker _ .interrupt => inferInstanceAs (Decidable (_ = _))
  | .worker _ .ok | .worker _ .exception | .worker _ .error | .worker _ .timeout
  | .main _ | .start _ => .isTrue trivial

instance (s : State n) : (a : Act n) → Decidable (AnswerAfterRefusal s a)
  | .main .ok => inferInstanceAs (Decidable (_ → _))
  | .main .exception | .main .error | .main .timeout | .main .interrupt
  | .worker _ _ | .start _ => .isTrue trivial

/-- What a runnable did to its transaction. -/
def Tx.fate : Tx → Option Bool
  | .committed => some true
  | .rolledBack => some false
  | _ => none

namespace State

/-- Against as soon as `submit` is false, in favour once the gate is open. -/
def verdict (s : State n) : Option Bool :=
  if s.shared.submit = false then some false
  else if s.shared.mainTask = 0 then some true
  else none

/-- The call as an atomic commitment. -/
def commitment (s : State n) : Commitment (Fin n) :=
  ⟨s.verdict, fun i => (s.worker i).tx.fate⟩

theorem verdict_eq_some_true_iff :
    s.verdict = some true ↔ s.shared.submit = true ∧ s.shared.mainTask = 0 := by
  cases hsubmit : s.shared.submit <;> simp [verdict, hsubmit]

theorem verdict_eq_some_false_iff : s.verdict = some false ↔ s.shared.submit = false := by
  cases hsubmit : s.shared.submit <;> simp [verdict, hsubmit]

theorem commitment_set (s : State n) (i : Fin n) (w : Worker) :
    (s.set i s.shared w).commitment =
      ⟨s.verdict, Function.update s.commitment.fate i w.tx.fate⟩ := by
  refine congrArg (Commitment.mk s.verdict) (funext fun j => ?_)
  rcases eq_or_ne j i with rfl | hj
  · simp
  · simp [hj, commitment]

end State

theorem step_submit_of_false (h : (execute ex n).step s a = some s')
    (hsubmit : s.shared.submit = false) : s'.shared.submit = false := by
  rcases step_cases h with ⟨e, -, hmain⟩ | ⟨i, -, -, -, rfl⟩ | ⟨i, e, sh', w', -, hw, rfl⟩
  · cases hmain <;> first | exact hsubmit | rfl
  · exact hsubmit
  · rcases hw.submit_eq with heq | ⟨-, hfalse⟩
    · exact heq.trans hsubmit
    · exact hfalse

theorem step_mainTask_of_zero (h : (execute ex n).step s a = some s')
    (hgate : s.shared.mainTask = 0) : s'.shared.mainTask = 0 := by
  rcases step_cases h with ⟨e, -, hmain⟩ | ⟨i, -, -, -, rfl⟩ | ⟨i, e, sh', w', -, hw, rfl⟩
  · cases hmain <;> first | exact hgate | simp [hgate]
  · exact hgate
  · exact hw.mainTask_eq.trans hgate

namespace Inv

theorem step_submit_eq (hs : Inv s) (h : (execute ex n).step s a = some s')
    (hgate : s.shared.mainTask = 0) : s'.shared.submit = s.shared.submit := by
  rcases step_cases h with ⟨e, -, hmain⟩ | ⟨i, -, -, -, rfl⟩ | ⟨i, e, sh', w', -, hw, rfl⟩
  · cases hmain
    case close hclosing =>
        rw [hs.closed (by rw [hclosing]; rfl)] at hgate
        cases hgate
    all_goals rfl
  · rfl
  · exact hs.submit_eq (.inl hgate) hw

/-- A verdict that is given stands. -/
theorem verdict_stable (hs : Inv s) (h : (execute ex n).step s a = some s') {b : Bool}
    (hb : s.verdict = some b) : s'.verdict = some b := by
  cases b with
  | false =>
      rw [State.verdict_eq_some_false_iff] at hb ⊢
      exact step_submit_of_false h hb
  | true =>
      rw [State.verdict_eq_some_true_iff] at hb ⊢
      exact ⟨(hs.step_submit_eq h hb.2).trans hb.1, step_mainTask_of_zero h hb.2⟩

/-- A step that concludes nothing is no step of the commitment, or gives the
verdict. -/
theorem commitment_of_fate_eq (hs : Inv s) (h : (execute ex n).step s a = some s')
    (hfate : ∀ i, (s'.worker i).tx.fate = (s.worker i).tx.fate) :
    s'.commitment = s.commitment ∨
      ∃ b, (Commitment.system (Fin n)).step s.commitment b = some s'.commitment := by
  have hfate' : s'.commitment = ⟨s'.verdict, s.commitment.fate⟩ :=
    congrArg (Commitment.mk s'.verdict) (funext hfate)
  cases hverdict : s.verdict with
  | some b =>
      refine .inl (hfate'.trans ?_)
      rw [hs.verdict_stable h hverdict, ← hverdict]
      rfl
  | none =>
      cases hverdict' : s'.verdict with
      | none =>
          refine .inl (hfate'.trans ?_)
          rw [hverdict', ← hverdict]
          rfl
      | some b =>
          refine .inr ⟨.decide b, (Commitment.step_decide hverdict b).trans ?_⟩
          rw [hfate', hverdict']

end Inv

structure Decided (s : State n) : Prop where
  committing : ∀ i, (s.worker i).pc = .committing → s.verdict = some true
  rollingBack : ∀ i, (s.worker i).pc = .rollingBack → s.verdict = some false
  pending : ∀ i, (s.worker i).pc ≠ .ended → (s.worker i).tx.fate = none

namespace WorkerStep

variable {sh sh' : Shared} {w w' : Worker} {e : Event}

theorem fate_cases (h : WorkerStep sh w e sh' w')
    (hw : w.pc ≠ .ended → w.tx.fate = none) :
    w'.tx.fate = w.tx.fate ∨
    w.pc = .committing ∧ sh' = sh ∧ w'.tx.fate = some true ∨
    w.pc = .rollingBack ∧ sh' = sh ∧ w'.tx.fate = some false := by
  cases h
  case begin hpc => exact .inl (hw (by simp [hpc])).symm
  case commit hpc => exact .inr (.inl ⟨hpc, rfl, rfl⟩)
  case rollback hpc => exact .inr (.inr ⟨hpc, rfl, rfl⟩)
  all_goals exact .inl rfl

theorem fate_eq_none (h : WorkerStep sh w e sh' w') (hw : w.pc ≠ .ended → w.tx.fate = none)
    (hpc : w'.pc ≠ .ended) : w'.tx.fate = none := by
  cases h <;> first | exact absurd rfl hpc | rfl | exact hw (by simp [*])

theorem of_committing (h : WorkerStep sh w e sh' w') (hpc : w'.pc = .committing) :
    w.pc = .deciding ∧ e = .ok ∧ sh.submit = true ∧ sh' = sh := by
  cases h
  case decideCommit hdeciding hsubmit => exact ⟨hdeciding, rfl, hsubmit, rfl⟩
  all_goals cases hpc

theorem of_rollingBack (h : WorkerStep sh w e sh' w') (hpc : w'.pc = .rollingBack) :
    sh.submit = false ∧ sh' = sh := by
  cases h
  case decideRollback hsubmit => exact ⟨hsubmit, rfl⟩
  all_goals cases hpc

end WorkerStep

/-- What a step of a call does to one runnable: nothing, handing it over or taking it
up, or a step of its own. -/
theorem Inv.worker_cases (hs : Inv s) (h : (execute ex n).step s a = some s') (j : Fin n) :
    s'.worker j = s.worker j ∨
    (∃ pc, s'.worker j = { s.worker j with pc := pc } ∧ (pc = .queued ∨ pc = .entry) ∧
      ((s.worker j).pc = .unsubmitted ∨ (s.worker j).pc = .queued)) ∨
    ∃ e, a = .worker j e ∧ WorkerStep s.shared (s.worker j) e s'.shared (s'.worker j) := by
  rcases step_cases h with ⟨e, -, hmain⟩ | ⟨i, -, hpc, -, rfl⟩ | ⟨i, e, sh', w', ha, hw, rfl⟩
  · cases hmain
    case submit i hmain hi =>
        rcases eq_or_ne j ⟨i, hi⟩ with rfl | hj
        · exact .inr (.inl ⟨.queued, by simp [State.moveWorker], .inl rfl,
            .inl (hs.notYet i hmain _ le_rfl)⟩)
        · exact .inl (by simp [State.moveWorker, hj])
    all_goals exact .inl rfl
  · rcases eq_or_ne j i with rfl | hj
    · exact .inr (.inl ⟨.entry, by simp [State.moveWorker], .inr rfl, .inr hpc⟩)
    · exact .inl (by simp [State.moveWorker, hj])
  · rcases eq_or_ne j i with rfl | hj
    · exact .inr (.inr ⟨e, ha, by simpa using hw⟩)
    · exact .inl (by simp [hj])

namespace Decided

theorem init (ex : Executor) : Decided (execute ex n).init where
  committing _ h := by cases h
  rollingBack _ h := by cases h
  pending _ _ := rfl

theorem step (hd : Decided s) (hs : Inv s) (hgate : GateRespected s a)
    (h : (execute ex n).step s a = some s') : Decided s' where
  committing j hj := by
    rcases hs.worker_cases h j with heq | ⟨pc, heq, hpc, -⟩ | ⟨e, rfl, hw⟩
    · rw [heq] at hj
      exact hs.verdict_stable h (hd.committing j hj)
    · rw [heq] at hj
      rcases hpc with rfl | rfl <;> cases hj
    · obtain ⟨hdeciding, rfl, hsubmit, hshared⟩ := hw.of_committing hj
      rw [State.verdict_eq_some_true_iff, hshared]
      exact ⟨hsubmit, hgate hdeciding hsubmit⟩
  rollingBack j hj := by
    rcases hs.worker_cases h j with heq | ⟨pc, heq, hpc, -⟩ | ⟨e, rfl, hw⟩
    · rw [heq] at hj
      exact hs.verdict_stable h (hd.rollingBack j hj)
    · rw [heq] at hj
      rcases hpc with rfl | rfl <;> cases hj
    · obtain ⟨hsubmit, hshared⟩ := hw.of_rollingBack hj
      rw [State.verdict_eq_some_false_iff, hshared]
      exact hsubmit
  pending j hj := by
    rcases hs.worker_cases h j with heq | ⟨pc, heq, -, hold⟩ | ⟨e, rfl, hw⟩
    · rw [heq] at hj ⊢
      exact hd.pending j hj
    · rw [heq]
      exact hd.pending j (by rcases hold with hold | hold <;> simp [hold])
    · exact hw.fate_eq_none (hd.pending j) hj

/-- A step that respects the gate is nothing or a step of the commitment. -/
theorem commitment_step (hd : Decided s) (hs : Inv s)
    (h : (execute ex n).step s a = some s') :
    s'.commitment = s.commitment ∨
      ∃ b, (Commitment.system (Fin n)).step s.commitment b = some s'.commitment := by
  have hother : (∀ i e, a ≠ .worker i e) →
      ∀ j, (s'.worker j).tx.fate = (s.worker j).tx.fate := by
    intro ha j
    rcases hs.worker_cases h j with heq | ⟨pc, heq, -⟩ | ⟨e, hworker, -⟩
    · rw [heq]
    · rw [heq]
    · exact absurd hworker (ha j e)
  rcases step_cases h with ⟨e, rfl, -⟩ | ⟨i, rfl, -⟩ | ⟨i, e, sh', w', -, hw, rfl⟩
  · exact hs.commitment_of_fate_eq h (hother nofun)
  · exact hs.commitment_of_fate_eq h (hother nofun)
  · have hconclude : ∀ b, s.verdict = some b → (s.worker i).pc ≠ .ended → sh' = s.shared →
        w'.tx.fate = some b → ∃ b, (Commitment.system (Fin n)).step s.commitment b =
          some (s.set i sh' w').commitment := by
      rintro b hverdict hpc rfl hfate
      refine ⟨.conclude i b,
        (Commitment.step_conclude hverdict (hd.pending i hpc)).trans ?_⟩
      rw [State.commitment_set, hfate]
      rfl
    rcases hw.fate_cases (hd.pending i) with heq | ⟨hpc, hsh, hfate⟩ | ⟨hpc, hsh, hfate⟩
    · refine hs.commitment_of_fate_eq h fun j => ?_
      rcases eq_or_ne j i with rfl | hj
      · rw [State.worker_set_self, heq]
      · rw [State.worker_set_of_ne s hj]
    · exact .inr (hconclude true (hd.committing i hpc) (by simp [hpc]) hsh hfate)
    · exact .inr (hconclude false (hd.rollingBack i hpc) (by simp [hpc]) hsh hfate)

theorem of_reachedBy {ok : State n → Act n → Prop} (hok : ∀ s a, ok s a → GateRespected s a)
    (h : (execute ex n).ReachedBy ok s) : Decided s := by
  induction h with
  | init => exact Decided.init ex
  | step hs hguard hstep ih => exact ih.step (Inv.of_reachedBy hs) (hok _ _ hguard) hstep

end Decided

/-- Runs that respect the gate are runs of an atomic commitment. -/
theorem commitment_reached {ok : State n → Act n → Prop}
    (hok : ∀ s a, ok s a → GateRespected s a) (h : (execute ex n).ReachedBy ok s) :
    (Commitment.system (Fin n)).Reached s.commitment :=
  h.simulation State.commitment rfl fun _ _ _ hs _ hstep =>
    (Decided.of_reachedBy hok hs).commitment_step (Inv.of_reachedBy hs) hstep

theorem verdict_of_committed {ok : State n → Act n → Prop}
    (hok : ∀ s a, ok s a → GateRespected s a) (h : (execute ex n).ReachedBy ok s) {i : Fin n}
    (hi : (s.worker i).tx = .committed) : s.verdict = some true :=
  Commitment.fate_eq_verdict (commitment_reached hok h)
    (show (s.worker i).tx.fate = some true by rw [hi]; rfl)

end HelloBoot.TransactionManagerUtil
