import HelloBoot.Util.Transaction.Step

/-!
# What every run of `execute` keeps

`Inv` ties the count of `subTask` to the runnables that have not reported, and says
that the verdict is settled when the calling thread reaches the gate: from there on
`submit` is false for good, or every runnable has reported. Since only a runnable
that has not reported can turn `submit` to false, the flag is frozen once the gate
is open (`Inv.submit_eq`).
-/

namespace HelloBoot.TransactionManagerUtil

open Transition

variable {n : ℕ}

def Pc.reported : Pc → Bool
  | .awaiting | .deciding | .committing | .rollingBack | .ended => true
  | _ => false

def missing (w : Fin n → Worker) : ℕ :=
  (Finset.univ.filter fun i => (w i).pc.reported = false).card

theorem missing_update_of_eq {w : Fin n → Worker} {i : Fin n} {v : Worker}
    (h : v.pc.reported = (w i).pc.reported) : missing (Function.update w i v) = missing w := by
  unfold missing
  congr 1
  refine Finset.filter_congr fun j _ => ?_
  rcases eq_or_ne j i with rfl | hj
  · rw [Function.update_self, h]
  · rw [Function.update_of_ne hj]

theorem missing_update_of_reports {w : Fin n → Worker} {i : Fin n} {v : Worker}
    (hi : (w i).pc.reported = false) (hv : v.pc.reported = true) :
    missing (Function.update w i v) + 1 = missing w := by
  unfold missing
  rw [← Finset.card_erase_add_one (s := Finset.univ.filter fun j => (w j).pc.reported = false)
    (a := i) (by simpa using hi)]
  congr 2
  ext j
  rcases eq_or_ne j i with rfl | hj
  · simp [hv]
  · simp [hj]

theorem missing_pos {w : Fin n → Worker} {i : Fin n} (hi : (w i).pc.reported = false) :
    0 < missing w :=
  Finset.card_pos.mpr ⟨i, by simpa using hi⟩

theorem reported_of_missing_eq_zero {w : Fin n → Worker} (h : missing w = 0) (i : Fin n) :
    (w i).pc.reported = true := by
  cases hi : (w i).pc.reported with
  | true => rfl
  | false =>
      have hpos := missing_pos hi
      omega

namespace WorkerStep

variable {sh sh' : Shared} {w w' : Worker} {e : Event}

theorem mainTask_eq (h : WorkerStep sh w e sh' w') : sh'.mainTask = sh.mainTask := by
  cases h <;> rfl

theorem submit_eq (h : WorkerStep sh w e sh' w') :
    sh'.submit = sh.submit ∨ w.pc = .failing ∧ sh'.submit = false := by
  cases h
  case fail hpc => exact .inr ⟨hpc, rfl⟩
  all_goals exact .inl rfl

theorem report (h : WorkerStep sh w e sh' w') :
    w'.pc.reported = w.pc.reported ∧ sh'.subTask = sh.subTask ∨
      w.pc.reported = false ∧ w'.pc.reported = true ∧ sh'.subTask = sh.subTask - 1 := by
  cases h
  case skip hpc => exact .inr ⟨by rw [hpc]; rfl, rfl, rfl⟩
  case arrive hpc => exact .inr ⟨by rw [hpc]; rfl, rfl, rfl⟩
  all_goals rename_i hpc; exact .inl ⟨by simp [*, Pc.reported], rfl⟩

theorem pc_ne_unsubmitted (h : WorkerStep sh w e sh' w') : w.pc ≠ .unsubmitted := by
  cases h <;> simp [*]

theorem submit_of_skipping (h : WorkerStep sh w e sh' w') (hpc : w'.pc = .skipping) :
    sh'.submit = false := by
  cases h <;> first | assumption | cases hpc

end WorkerStep

def MainPc.beforeGate : MainPc → Bool
  | .reading | .returned _ => false
  | _ => true

structure Inv (s : State n) : Prop where
  subTask_eq : s.shared.subTask = missing s.worker
  closed : s.main.beforeGate = true → s.shared.mainTask = 1
  opened : s.main = .reading → s.shared.mainTask = 0
  settled : s.shared.mainTask = 0 ∨ s.main = .opening → s.shared.submit = true →
    s.shared.subTask = 0
  answer : ∀ b, s.main = .returned b → s.shared.mainTask = 0 → b = s.shared.submit
  refused : ∀ i, (s.worker i).pc = .skipping → s.shared.submit = false
  notYet : ∀ k, s.main = .submitting k → ∀ i : Fin n, k ≤ i → (s.worker i).pc = .unsubmitted

namespace Inv

variable {ex : Executor} {s s' : State n}

theorem init (ex : Executor) : Inv (execute ex n).init where
  subTask_eq := by simp [execute, missing, Pc.reported]
  closed _ := rfl
  opened h := by cases h
  settled h := by simp [execute] at h
  answer _ h := by cases h
  refused _ h := by cases h
  notYet _ _ _ _ := rfl

/-- Once the gate is open no runnable changes the flag. -/
theorem submit_eq (hs : Inv s) (hgate : s.shared.mainTask = 0 ∨ s.main = .opening)
    {i : Fin n} {e : Event} {sh' : Shared} {w' : Worker}
    (h : WorkerStep s.shared (s.worker i) e sh' w') : sh'.submit = s.shared.submit := by
  rcases h.submit_eq with heq | ⟨hpc, hfalse⟩
  · exact heq
  · cases hsubmit : s.shared.submit with
    | false => exact hfalse
    | true =>
        -- the runnable that fails has not reported, but all have
        have hzero := hs.settled hgate hsubmit
        have hpos := missing_pos (w := s.worker) (i := i) (by rw [hpc]; rfl)
        rw [hs.subTask_eq] at hzero
        omega

theorem withMain (hs : Inv s) {m : MainPc}
    (hclosed : m.beforeGate = true → s.shared.mainTask = 1)
    (hopened : m = .reading → s.shared.mainTask = 0)
    (hsettled : m = .opening → s.shared.submit = true → s.shared.subTask = 0)
    (hanswer : ∀ b, m = .returned b → s.shared.mainTask = 0 → b = s.shared.submit)
    (hnotYet : ∀ k, m = .submitting k → ∀ i : Fin n, k ≤ i → (s.worker i).pc = .unsubmitted) :
    Inv { s with main := m } where
  subTask_eq := hs.subTask_eq
  closed := hclosed
  opened := hopened
  settled h := h.elim (fun h => hs.settled (.inl h)) hsettled
  answer := hanswer
  refused := hs.refused
  notYet := hnotYet

theorem moveWorker (hs : Inv s) {i : Fin n} {pc : Pc}
    (hreported : pc.reported = (s.worker i).pc.reported) (hskip : pc ≠ .skipping)
    (hnotYet : ∀ k, s.main = .submitting k → ¬ k ≤ i) : Inv (s.moveWorker i pc) where
  subTask_eq := hs.subTask_eq.trans (missing_update_of_eq hreported).symm
  closed := hs.closed
  opened := hs.opened
  settled := hs.settled
  answer := hs.answer
  refused j hj := by
    rcases eq_or_ne j i with rfl | hji
    · rw [State.moveWorker, State.worker_set_self] at hj
      exact absurd hj hskip
    · rw [State.moveWorker, State.worker_set_of_ne s hji] at hj
      exact hs.refused j hj
  notYet k hk j hj := by
    have hji : j ≠ i := fun h => hnotYet k hk (h ▸ hj)
    rw [State.moveWorker, State.worker_set_of_ne s hji]
    exact hs.notYet k hk j hj

theorem main (hs : Inv s) {e : Event} (h : MainStep ex s e s') : Inv s' := by
  cases h
  case submit i hmain hi =>
      have hpc := hs.notYet i hmain ⟨i, hi⟩ le_rfl
      have hnext : Inv { s with main := .submitting (i + 1) } := by
        refine hs.withMain (fun _ => hs.closed (by rw [hmain]; rfl)) nofun nofun nofun ?_
        intro k hk j hj
        cases hk
        exact hs.notYet i hmain j (by omega)
      refine hnext.moveWorker (i := ⟨i, hi⟩) (by rw [hpc]; rfl) (by decide) ?_
      intro k hk hki
      cases hk
      exact absurd hki (by simp)
  case submitted i hmain hi =>
      exact hs.withMain (fun _ => hs.closed (by rw [hmain]; rfl)) nofun nofun nofun nofun
  case rejected i hmain hi hreject =>
      exact hs.withMain (fun _ => hs.closed (by rw [hmain]; rfl)) nofun nofun nofun nofun
  case pass hmain he =>
      exact hs.withMain (fun _ => hs.closed (by rw [hmain]; rfl)) nofun nofun nofun nofun
  case interrupted hmain =>
      exact hs.withMain (fun _ => hs.closed (by rw [hmain]; rfl)) nofun nofun nofun nofun
  case countMissing hmain hcount =>
      exact hs.withMain (fun _ => hs.closed (by rw [hmain]; rfl)) nofun nofun nofun nofun
  case countNone hmain hcount =>
      exact hs.withMain (fun _ => hs.closed (by rw [hmain]; rfl)) nofun
        (fun _ _ => hcount) nofun nofun
  case close hmain =>
      exact ⟨hs.subTask_eq, fun _ => hs.closed (by rw [hmain]; rfl), nofun, fun _ => nofun,
        nofun, fun _ _ => rfl, nofun⟩
  case openGate hmain =>
      have hclosed := hs.closed (by rw [hmain]; rfl)
      exact ⟨hs.subTask_eq, nofun, fun _ => by simp [hclosed],
        fun _ => hs.settled (.inr hmain), nofun, hs.refused, nofun⟩
  case read hmain =>
      refine hs.withMain nofun nofun nofun (fun b hb _ => ?_) nofun
      cases hb
      rfl
  case readCaught hmain =>
      refine hs.withMain nofun nofun nofun (fun b hb _ => ?_) nofun
      cases hb
      rfl

theorem worker (hs : Inv s) {i : Fin n} {e : Event} {sh' : Shared} {w' : Worker}
    (h : WorkerStep s.shared (s.worker i) e sh' w') :
    Inv (s.set i sh' w') where
  subTask_eq := by
    change sh'.subTask = missing (Function.update s.worker i w')
    rcases h.report with ⟨hpc, hsub⟩ | ⟨hpc, hpc', hsub⟩
    · rw [hsub, missing_update_of_eq hpc, hs.subTask_eq]
    · have hcount := missing_update_of_reports hpc hpc'
      rw [hsub, hs.subTask_eq]
      omega
  closed hmain := h.mainTask_eq.trans (hs.closed hmain)
  opened hmain := h.mainTask_eq.trans (hs.opened hmain)
  settled hgate hsubmit := by
    simp only [State.shared_set, State.main_set] at hgate hsubmit ⊢
    rw [h.mainTask_eq] at hgate
    rw [hs.submit_eq hgate h] at hsubmit
    have hzero := hs.settled hgate hsubmit
    rcases h.report with ⟨-, hsub⟩ | ⟨-, -, hsub⟩ <;> simp [hsub, hzero]
  answer b hb hgate := by
    simp only [State.shared_set, State.main_set] at hb hgate ⊢
    rw [h.mainTask_eq] at hgate
    rw [hs.submit_eq (.inl hgate) h]
    exact hs.answer b hb hgate
  refused j hj := by
    rcases eq_or_ne j i with rfl | hji
    · rw [State.worker_set_self] at hj
      exact h.submit_of_skipping hj
    · rw [State.worker_set_of_ne s hji] at hj
      rcases h.submit_eq with heq | ⟨-, hfalse⟩
      · exact heq.trans (hs.refused j hj)
      · exact hfalse
  notYet k hk j hj := by
    have hji : j ≠ i := by
      rintro rfl
      exact h.pc_ne_unsubmitted (hs.notYet k hk j hj)
    rw [State.worker_set_of_ne s hji]
    exact hs.notYet k hk j hj

theorem step (hs : Inv s) {a : Act n} (h : (execute ex n).step s a = some s') : Inv s' := by
  rcases step_cases h with ⟨e, -, hmain⟩ | ⟨i, -, hpc, -, rfl⟩ | ⟨i, e, sh', w', -, hw, rfl⟩
  · exact hs.main hmain
  · refine hs.moveWorker (by rw [hpc]; rfl) (by decide) fun k hk hki => ?_
    rw [hs.notYet k hk i hki] at hpc
    cases hpc
  · exact hs.worker hw

theorem of_reachedBy {ok : State n → Act n → Prop} (h : (execute ex n).ReachedBy ok s) :
    Inv s :=
  h.invariant (Inv.init ex) fun _ _ _ hs _ hstep => hs.step hstep

end Inv

end HelloBoot.TransactionManagerUtil
