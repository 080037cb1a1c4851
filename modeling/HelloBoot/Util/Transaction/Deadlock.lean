import HelloBoot.Transition.Maximal
import HelloBoot.Util.Transaction.AllOrNothing
import Mathlib.Algebra.BigOperators.Group.Finset.Basic
import Mathlib.Algebra.Order.BigOperators.Group.Finset

/-!
# When a call gets stuck

Every step of a call lowers `State.measure`, so no run is infinite. What remains is to
say where a run may end. When everything returns and no `await` gives up, the calling
thread waits until all `n` runnables have reported, and a runnable that has reported
keeps its thread until the calling thread has gone on. Hence all `n` occupy threads of
the executor when the calling thread goes on (`Smooth.enough`), and with fewer than `n`
threads the run ends in a state in which it waits for runnables that are never taken
up.
-/

namespace HelloBoot.TransactionManagerUtil

open Transition

variable {n : ℕ} {ex : Executor} {s s' : State n} {a : Act n}

section Measure

/-- How many steps the runnable has left at most. -/
def Pc.rank : Pc → ℕ
  | .unsubmitted => 10
  | .queued => 9
  | .entry => 8
  | .beginning | .skipping => 7
  | .handling => 6
  | .failing => 5
  | .arriving => 4
  | .awaiting => 3
  | .deciding => 2
  | .committing | .rollingBack => 1
  | .ended | .died => 0

def MainPc.rank (n : ℕ) : MainPc → ℕ
  | .submitting i => (n - i) + 6
  | .awaiting => 5
  | .counting => 4
  | .closing => 3
  | .opening => 2
  | .reading | .caught => 1
  | .returned _ | .threw => 0

/-- How many steps the call has left at most. -/
def State.measure (s : State n) : ℕ := s.main.rank n + ∑ i, (s.worker i).pc.rank

theorem WorkerStep.rank_lt {sh sh' : Shared} {w w' : Worker} {e : Event}
    (h : WorkerStep sh w e sh' w') : w'.pc.rank < w.pc.rank := by
  cases h <;> simp [*, Pc.rank]

theorem sum_rank_set_lt (s : State n) {i : Fin n} (sh : Shared) {w : Worker}
    (h : w.pc.rank < (s.worker i).pc.rank) :
    ∑ j, ((s.set i sh w).worker j).pc.rank < ∑ j, (s.worker j).pc.rank := by
  refine Finset.sum_lt_sum (fun j _ => ?_) ⟨i, Finset.mem_univ i, by simpa using h⟩
  rcases eq_or_ne j i with rfl | hj
  · simpa using h.le
  · simp [hj]

theorem MainStep.measure_lt (hs : Inv s) {e : Event} (h : MainStep ex s e s') :
    s'.measure < s.measure := by
  cases h
  case submit i hmain hi =>
      have hpc := hs.notYet i hmain ⟨i, hi⟩ le_rfl
      have hrank : ({ s.worker ⟨i, hi⟩ with pc := .queued } : Worker).pc.rank <
          (s.worker ⟨i, hi⟩).pc.rank := by simp [hpc, Pc.rank]
      have hsum := sum_rank_set_lt s s.shared hrank
      simp only [State.measure, hmain, MainPc.rank, State.moveWorker] at hsum ⊢
      omega
  all_goals simp [State.measure, *, MainPc.rank]

/-- Every step of a call lowers the measure. -/
theorem Inv.measure_lt (hs : Inv s) (h : (execute ex n).step s a = some s') :
    s'.measure < s.measure := by
  rcases step_cases h with ⟨e, -, hm⟩ | ⟨i, -, hpc, -, rfl⟩ | ⟨i, e, sh', w', -, hw, rfl⟩
  · exact hm.measure_lt hs
  · exact Nat.add_lt_add_left (sum_rank_set_lt s _ (by simp [hpc, Pc.rank])) _
  · exact Nat.add_lt_add_left (sum_rank_set_lt s _ hw.rank_lt) _

end Measure

section Running

theorem running_le_of_imp
    (h : ∀ i, (s'.worker i).pc.running = true → (s.worker i).pc.running = true) :
    s'.running ≤ s.running :=
  List.countP_mono_left fun i _ => h i

theorem running_eq_card (s : State n) :
    s.running = (Finset.univ.filter fun i => (s.worker i).pc.running = true).card := by
  rw [State.running, List.countP_eq_length_filter]
  simp [Finset.card, Finset.univ, Fintype.elems, List.finRange]

theorem running_moveWorker_le (s : State n) (i : Fin n) (pc : Pc) :
    (s.moveWorker i pc).running ≤ s.running + 1 := by
  rw [running_eq_card, running_eq_card]
  refine (Finset.card_le_card fun j hj => ?_).trans (Finset.card_insert_le i _)
  rcases eq_or_ne j i with rfl | hji
  · exact Finset.mem_insert_self j _
  · have hrunning := (Finset.mem_filter.mp hj).2
    rw [State.moveWorker, State.worker_set_of_ne s hji] at hrunning
    simpa [hji] using hrunning

theorem running_eq (h : ∀ i, (s.worker i).pc.running = true) : s.running = n := by
  rw [State.running, List.countP_eq_length.mpr fun i _ => h i, List.length_finRange]

theorem running_lt {i : Fin n} (h : (s.worker i).pc.running = false) : s.running < n := by
  refine lt_of_le_of_ne (List.countP_le_length.trans_eq List.length_finRange) fun heq => ?_
  have hall := List.countP_eq_length.mp (heq.trans List.length_finRange.symm) i
    (List.mem_finRange i)
  simp [h] at hall

end Running

section Smooth

/-- Every statement returns, and no `await` gives up. -/
def Returns (_ : State n) : Act n → Prop
  | .main e => e = .ok
  | .start _ => True
  | .worker _ e => e = .ok

instance (s : State n) : (a : Act n) → Decidable (Returns s a)
  | .main _ => inferInstanceAs (Decidable (_ = _))
  | .start _ => .isTrue trivial
  | .worker _ _ => inferInstanceAs (Decidable (_ = _))

def Pc.isSmooth : Pc → Bool
  | .skipping | .failing | .rollingBack | .died => false
  | _ => true

def Pc.pastGate : Pc → Bool
  | .deciding | .committing | .ended => true
  | _ => false

def MainPc.isSmooth : MainPc → Bool
  | .closing | .caught | .returned false | .threw => false
  | _ => true

def MainPc.pastReports : MainPc → Bool
  | .counting | .opening | .reading | .returned _ => true
  | _ => false

/-- What a runnable keeps when everything returns. -/
structure Worker.Smooth (sh : Shared) (w : Worker) : Prop where
  smooth : w.pc.isSmooth = true
  gate : w.pc.pastGate = true → sh.mainTask = 0
  committed : w.pc = .ended → w.tx = .committed

structure Smooth (ex : Executor) (s : State n) : Prop where
  submit : s.shared.submit = true
  main : s.main.isSmooth = true
  worker : ∀ i, (s.worker i).Smooth s.shared
  running_le : s.running ≤ ex.threads
  submitted : ∀ i, (s.worker i).pc = .unsubmitted → ∃ j, s.main = .submitting j ∧ j ≤ i
  reported : s.main.pastReports = true → s.shared.subTask = 0
  enough : s.main.pastReports = true → n ≤ ex.threads
  gate : s.main.beforeGate = false → s.shared.mainTask = 0

namespace WorkerStep

variable {sh sh' : Shared} {w w' : Worker} {e : Event}

theorem running_of_running (h : WorkerStep sh w e sh' w') (hw' : w'.pc.running = true) :
    w.pc.running = true := by
  cases h <;> simp_all [Pc.running]

theorem subTask_le (h : WorkerStep sh w e sh' w') : sh'.subTask ≤ sh.subTask := by
  rcases h.report with ⟨-, heq⟩ | ⟨-, -, heq⟩ <;> omega

theorem ne_unsubmitted (h : WorkerStep sh w e sh' w') : w'.pc ≠ .unsubmitted := by
  cases h <;> simp

theorem submit_of_smooth (h : WorkerStep sh w e sh' w') (hw : w.Smooth sh)
    (hsubmit : sh.submit = true) : sh'.submit = true := by
  rcases h.submit_eq with heq | ⟨hpc, -⟩
  · exact heq.trans hsubmit
  · have hsmooth := hw.smooth
    simp [hpc, Pc.isSmooth] at hsmooth

theorem smooth (h : WorkerStep sh w .ok sh' w') (hw : w.Smooth sh)
    (hsubmit : sh.submit = true) : w'.Smooth sh' where
  smooth := by
    have hsmooth := hw.smooth
    cases h <;> simp_all [Pc.isSmooth]
  gate hpc := by
    have hsmooth := hw.smooth
    have hgate := hw.gate
    cases h <;> simp_all [Pc.isSmooth, Pc.pastGate]
  committed hpc := by
    have hsmooth := hw.smooth
    cases h <;> simp_all [Pc.isSmooth]

end WorkerStep

theorem Worker.smooth_of_pc {sh : Shared} {w : Worker} {pc : Pc}
    (hsmooth : pc.isSmooth = true) (hgate : pc.pastGate = false) :
    Worker.Smooth sh { w with pc := pc } where
  smooth := hsmooth
  gate h := by rw [hgate] at h; cases h
  committed := by rintro rfl; cases hgate

namespace Smooth

theorem init (ex : Executor) : Smooth ex (execute ex n).init where
  submit := rfl
  main := rfl
  worker _ := ⟨rfl, nofun, nofun⟩
  running_le := by simp [State.running, execute, Pc.running]
  submitted i _ := ⟨0, rfl, Nat.zero_le i⟩
  reported := nofun
  enough := nofun
  gate := nofun

theorem withMain (hs : Smooth ex s) {m : MainPc} (hmain : m.isSmooth = true)
    (hsubmitted : ∀ i, (s.worker i).pc = .unsubmitted → ∃ j, m = .submitting j ∧ j ≤ i)
    (hreported : m.pastReports = true → s.shared.subTask = 0)
    (henough : m.pastReports = true → n ≤ ex.threads)
    (hgate : m.beforeGate = false → s.shared.mainTask = 0) :
    Smooth ex { s with main := m } where
  submit := hs.submit
  main := hmain
  worker := hs.worker
  running_le := hs.running_le
  submitted := hsubmitted
  reported := hreported
  enough := henough
  gate := hgate

/-- When all have reported while the gate is closed, all occupy a thread. -/
theorem le_threads (hs : Smooth ex s) (hinv : Inv s) (hmain : s.main = .awaiting)
    (hreported : s.shared.subTask = 0) : n ≤ ex.threads := by
  have hclosed := hinv.closed (by rw [hmain]; rfl)
  have hrunning : s.running = n := running_eq fun i => by
    have hi := reported_of_missing_eq_zero (hinv.subTask_eq.symm.trans hreported) i
    have hgate := (hs.worker i).gate
    cases hpc : (s.worker i).pc <;> simp_all [Pc.reported, Pc.pastGate, Pc.running]
  exact hrunning.symm.trans_le hs.running_le

theorem submit_step (hs : Smooth ex s) {i : ℕ} (hmain : s.main = .submitting i) (hi : i < n) :
    Smooth ex { s.moveWorker ⟨i, hi⟩ .queued with main := .submitting (i + 1) } where
  submit := hs.submit
  main := rfl
  worker j := by
    rcases eq_or_ne j ⟨i, hi⟩ with rfl | hj
    · simpa [State.moveWorker] using Worker.smooth_of_pc rfl rfl
    · simpa [State.moveWorker, hj] using hs.worker j
  running_le := by
    refine (running_le_of_imp fun j hj => ?_).trans hs.running_le
    rcases eq_or_ne j ⟨i, hi⟩ with rfl | hji
    · simp [State.moveWorker, Pc.running] at hj
    · simpa [State.moveWorker, hji] using hj
  submitted j hj := by
    rcases eq_or_ne j ⟨i, hi⟩ with rfl | hji
    · simp [State.moveWorker] at hj
    · obtain ⟨k, hk, hkj⟩ := hs.submitted j (by simpa [State.moveWorker, hji] using hj)
      cases hmain.symm.trans hk
      exact ⟨i + 1, rfl, lt_of_le_of_ne hkj fun h => hji (Fin.ext h.symm)⟩
  reported := nofun
  enough := nofun
  gate := nofun

theorem main_step (hs : Smooth ex s) (hinv : Inv s) (h : MainStep ex s .ok s') :
    Smooth ex s' := by
  have hpast {m : MainPc} (hm : s.main = m) (hneq : ∀ j, m ≠ .submitting j) (i : Fin n)
      (hi : (s.worker i).pc = .unsubmitted) (m' : MainPc) : ∃ j, m' = .submitting j ∧ j ≤ i := by
    obtain ⟨j, hj, -⟩ := hs.submitted i hi
    exact absurd (hm.symm.trans hj) (hneq j)
  cases h
  case submit i hmain hi => exact hs.submit_step hmain hi
  case submitted i hmain hi =>
      refine hs.withMain rfl (fun j hj => ?_) nofun nofun nofun
      obtain ⟨k, hk, hkj⟩ := hs.submitted j hj
      cases hmain.symm.trans hk
      exact absurd j.isLt (by omega)
  case pass hmain he =>
      have hreported := he.resolve_left nofun
      exact hs.withMain rfl (fun i hi => hpast hmain nofun i hi _) (fun _ => hreported)
        (fun _ => hs.le_threads hinv hmain hreported) nofun
  case countMissing hmain hcount =>
      have hzero := hs.reported (by rw [hmain]; rfl)
      omega
  case countNone hmain hcount =>
      exact hs.withMain rfl (fun i hi => hpast hmain nofun i hi _) (fun _ => hcount)
        (fun _ => hs.enough (by rw [hmain]; rfl)) nofun
  case close hmain =>
      have hsmooth := hs.main
      rw [hmain] at hsmooth
      cases hsmooth
  case openGate hmain =>
      have hclosed := hinv.closed (by rw [hmain]; rfl)
      have hopen : s.shared.mainTask - 1 = 0 := by omega
      exact
        { submit := hs.submit
          main := rfl
          worker := fun i => ⟨(hs.worker i).smooth, fun _ => hopen, (hs.worker i).committed⟩
          running_le := hs.running_le
          submitted := fun i hi => hpast hmain nofun i hi _
          reported := fun _ => hs.reported (by rw [hmain]; rfl)
          enough := fun _ => hs.enough (by rw [hmain]; rfl)
          gate := fun _ => hopen }
  case read hmain =>
      refine hs.withMain (by rw [hs.submit]; rfl) (fun i hi => hpast hmain nofun i hi _)
        (fun _ => hs.reported (by rw [hmain]; rfl)) (fun _ => hs.enough (by rw [hmain]; rfl))
        fun _ => hs.gate (by rw [hmain]; rfl)
  case readCaught hmain =>
      have hsmooth := hs.main
      rw [hmain] at hsmooth
      cases hsmooth

theorem start_step (hs : Smooth ex s) {i : Fin n} (hidle : s.running < ex.threads) :
    Smooth ex (s.moveWorker i .entry) where
  submit := hs.submit
  main := hs.main
  worker j := by
    rcases eq_or_ne j i with rfl | hj
    · simpa [State.moveWorker] using Worker.smooth_of_pc rfl rfl
    · simpa [State.moveWorker, hj] using hs.worker j
  running_le := (running_moveWorker_le s i .entry).trans hidle
  submitted j hj := by
    rcases eq_or_ne j i with rfl | hji
    · simp [State.moveWorker] at hj
    · exact hs.submitted j (by simpa [State.moveWorker, hji] using hj)
  reported := hs.reported
  enough := hs.enough
  gate := hs.gate

theorem worker_step (hs : Smooth ex s) {i : Fin n} {sh' : Shared} {w' : Worker}
    (h : WorkerStep s.shared (s.worker i) .ok sh' w') : Smooth ex (s.set i sh' w') where
  submit := h.submit_of_smooth (hs.worker i) hs.submit
  main := hs.main
  worker j := by
    rcases eq_or_ne j i with rfl | hj
    · simpa using h.smooth (hs.worker j) hs.submit
    · have hj' := hs.worker j
      rw [State.worker_set_of_ne s hj]
      exact ⟨hj'.smooth, fun hpc => h.mainTask_eq.trans (hj'.gate hpc), hj'.committed⟩
  running_le := by
    refine (running_le_of_imp fun j hj => ?_).trans hs.running_le
    rcases eq_or_ne j i with rfl | hji
    · exact h.running_of_running (by simpa using hj)
    · simpa [hji] using hj
  submitted j hj := by
    rcases eq_or_ne j i with rfl | hji
    · exact absurd (by simpa using hj) h.ne_unsubmitted
    · exact hs.submitted j (by simpa [hji] using hj)
  reported hmain := Nat.eq_zero_of_le_zero (h.subTask_le.trans (hs.reported hmain).le)
  enough := hs.enough
  gate hmain := h.mainTask_eq.trans (hs.gate hmain)

theorem of_reachedBy (h : (execute ex n).ReachedBy Returns s) : Smooth ex s := by
  induction h with
  | init => exact init ex
  | step hreached hok hstep ih =>
      rcases step_cases hstep with ⟨e, rfl, hm⟩ | ⟨i, rfl, -, hidle, rfl⟩ |
        ⟨i, e, sh', w', rfl, hw, rfl⟩
      · cases hok
        exact ih.main_step (Inv.of_reachedBy hreached) hm
      · exact ih.start_step hidle
      · cases hok
        exact ih.worker_step hw

end Smooth

end Smooth

section Stuck

theorem mainStep_eq_none (h : mainStep ex s .ok = none) :
    s.main = .awaiting ∧ s.shared.subTask ≠ 0 ∨ s.main.ended = true := by
  cases hmain : s.main <;> simp_all [mainStep, MainPc.ended]
  case submitting i => split at h <;> cases h

theorem workerStep_eq_none {sh : Shared} {w : Worker} (h : workerStep sh w .ok = none) :
    w.pc = .unsubmitted ∨ w.pc = .queued ∨ w.pc.isEnd = true ∨
      w.pc = .awaiting ∧ sh.mainTask ≠ 0 := by
  cases hpc : w.pc <;> simp_all [workerStep, Pc.isEnd]

namespace Smooth

theorem worker_of_stuck (hs : Smooth ex s) (hstuck : (execute ex n).Stuck Returns s)
    (hmain : ∀ j, s.main ≠ .submitting j) (i : Fin n) :
    (s.worker i).pc = .queued ∧ ex.threads ≤ s.running ∨ (s.worker i).pc = .ended ∨
      (s.worker i).pc = .awaiting ∧ s.shared.mainTask ≠ 0 := by
  rcases workerStep_eq_none (Option.map_eq_none_iff.mp (hstuck (.worker i .ok) rfl)) with
    hpc | hpc | hpc | hpc
  · obtain ⟨j, hj, -⟩ := hs.submitted i hpc
    exact absurd hj (hmain j)
  · have hidle := hstuck (.start i) trivial
    exact .inl ⟨hpc, by simpa [execute, step, hpc] using hidle⟩
  · have hsmooth := (hs.worker i).smooth
    cases hend : (s.worker i).pc <;> simp_all [Pc.isEnd, Pc.isSmooth]
  · exact .inr (.inr hpc)

/-- A call that is stuck has returned, or fewer threads than runnables are there. -/
theorem lt_of_stuck (hs : Smooth ex s) (hinv : Inv s)
    (hstuck : (execute ex n).Stuck Returns s) (hend : s.main.ended = false) :
    ex.threads < n := by
  obtain ⟨hmain, hmissing⟩ := (mainStep_eq_none (hstuck (.main .ok) rfl)).resolve_right
    (by simp [hend])
  -- somebody has not reported, and waits to be taken up
  obtain ⟨i, hi⟩ : ∃ i, (s.worker i).pc.reported = false := by
    by_contra! hall
    refine hmissing (hinv.subTask_eq.trans (Finset.card_eq_zero.mpr ?_))
    simpa using hall
  have hne : ∀ j, s.main ≠ .submitting j := by simp [hmain]
  rcases hs.worker_of_stuck hstuck hne i with ⟨hpc, hbusy⟩ | hpc | ⟨hpc, -⟩
  · exact hbusy.trans_lt (running_lt (by rw [hpc]; rfl))
  · simp [hpc, Pc.reported] at hi
  · simp [hpc, Pc.reported] at hi

/-- A call that is stuck after the return has committed everything. -/
theorem committed_of_stuck (hs : Smooth ex s) (hinv : Inv s)
    (hstuck : (execute ex n).Stuck Returns s) (hend : s.main.ended = true) :
    (∀ i, (s.worker i).tx = .committed) ∧ s.main = .returned true := by
  have hmain : s.main = .returned true := by
    have hsmooth := hs.main
    cases hmain : s.main <;> simp_all [MainPc.ended, MainPc.isSmooth]
    case returned b => cases b <;> simp_all
  refine ⟨fun i => ?_, hmain⟩
  have hreported := reported_of_missing_eq_zero
    (hinv.subTask_eq.symm.trans (hs.reported (by rw [hmain]; rfl))) i
  rcases hs.worker_of_stuck hstuck (by simp [hmain]) i with ⟨hpc, -⟩ | hpc | ⟨-, hclosed⟩
  · simp [hpc, Pc.reported] at hreported
  · exact (hs.worker i).committed hpc
  · exact absurd (hs.gate (by rw [hmain]; rfl)) hclosed

end Smooth

/-- A call in which everything returns may come to a standstill before its return if and
only if there are more tasks than threads; with enough threads every maximal run ends
with everything committed and the answer true. -/
theorem deadlock_iff (n k : ℕ) :
    ((∃ s, (execute ⟨k, false⟩ n).ReachedBy Returns s ∧ s.main.ended = false ∧
        (execute ⟨k, false⟩ n).Stuck Returns s) ↔ k < n) ∧
      (n ≤ k → ∀ r, (execute ⟨k, false⟩ n).MaximalRun Returns r →
        ∃ j s, r j = some s ∧ r (j + 1) = none ∧ (∀ i, (s.worker i).tx = .committed) ∧
          s.main = .returned true) := by
  have hmeasure : ∀ s a s', (execute ⟨k, false⟩ n).ReachedBy Returns s → Returns s a →
      (execute ⟨k, false⟩ n).step s a = some s' → s'.measure < s.measure :=
    fun s a s' hs _ hstep => (Inv.of_reachedBy hs).measure_lt hstep
  refine ⟨⟨?_, fun hk => ?_⟩, fun hn r hr => ?_⟩
  · rintro ⟨s, hs, hend, hstuck⟩
    exact (Smooth.of_reachedBy hs).lt_of_stuck (Inv.of_reachedBy hs) hstuck hend
  · obtain ⟨s, hs, hstuck⟩ := System.exists_stuck State.measure hmeasure
    refine ⟨s, hs, ?_, hstuck⟩
    by_contra hend
    have hsmooth := Smooth.of_reachedBy hs
    obtain ⟨-, hmain⟩ := hsmooth.committed_of_stuck (Inv.of_reachedBy hs) hstuck
      (by simpa using hend)
    exact absurd (hsmooth.enough (by rw [hmain]; rfl)) (by simpa using hk)
  · obtain ⟨j, s, hj, hnext, hs, hstuck⟩ := hr.ends State.measure hmeasure
    refine ⟨j, s, hj, hnext, ?_⟩
    have hsmooth := Smooth.of_reachedBy hs
    refine hsmooth.committed_of_stuck (Inv.of_reachedBy hs) hstuck ?_
    by_contra hend
    have hlt := hsmooth.lt_of_stuck (Inv.of_reachedBy hs) hstuck (by simpa using hend)
    exact absurd hn (by simpa using hlt)

theorem deadlock_iff_two :
    ∃ r, (execute ⟨2, false⟩ 2).MaximalRun Returns r ∧
      ∃ j s, r j = some s ∧ r (j + 1) = none ∧ (∀ i, (s.worker i).tx = .committed) ∧
        s.main = .returned true := by
  obtain ⟨r, hr⟩ := (execute ⟨2, false⟩ 2).exists_maximalRun Returns
  exact ⟨r, hr, (deadlock_iff 2 2).2 le_rfl r hr⟩

end Stuck

end HelloBoot.TransactionManagerUtil
