import HelloBoot.Transition.System
import Mathlib.Data.Fintype.Card

/-!
# The threads of `TransactionManagerUtil.execute`

A call of `execute` runs the calling thread and one runnable for every task. They
share two latches and a flag: `subTask` counts the runnables that have not yet
reported, `mainTask` is the gate the calling thread opens, and `submit` is to say
whether everything may be committed. Every operation on one of the three, every
call of `handle`, and every call on the transaction manager is one step, and the
steps of the threads interleave freely. What the environment decides at a step is
its `Event`: whether a call returns or throws, and how a timed `await` ends.

The executor takes any accepted runnable up as long as one of its threads is idle,
and may reject a submission by throwing.
-/

namespace HelloBoot.TransactionManagerUtil

open Transition

/-- How a statement ends: it returns, or throws an `Exception` or an `Error`; a
timed `await` may also give up or be interrupted. -/
inductive Event where
  | ok
  | exception
  | error
  | timeout
  | interrupt
  deriving DecidableEq

inductive Tx where
  | notBegun
  | active
  | committed
  | rolledBack
  deriving DecidableEq

/-- Where the runnable of a task stands. `died` is the end by a throwable before the
runnable has counted `subTask` down, `ended` every end after that. -/
inductive Pc where
  | unsubmitted
  | queued
  | entry
  | skipping
  | beginning
  | handling
  | failing
  | arriving
  | awaiting
  | deciding
  | committing
  | rollingBack
  | ended
  | died
  deriving DecidableEq

/-- The runnable of a task: its place, its transaction, and how often `commit` and
`rollback` have been called on its status. -/
structure Worker where
  pc : Pc
  tx : Tx
  commits : ℕ
  rollbacks : ℕ
  deriving DecidableEq

structure Shared where
  mainTask : ℕ
  subTask : ℕ
  submit : Bool
  deriving DecidableEq

/-- Where the calling thread stands; `submitting i` is before `executor.execute` for
task `i`. -/
inductive MainPc where
  | submitting (i : ℕ)
  | awaiting
  | counting
  | closing
  | opening
  | reading
  | caught
  | returned (b : Bool)
  | threw
  deriving DecidableEq

structure State (n : ℕ) where
  main : MainPc
  shared : Shared
  worker : Fin n → Worker

structure Executor where
  threads : ℕ
  mayReject : Bool

def workerStep (sh : Shared) (w : Worker) (e : Event) : Option (Shared × Worker) :=
  match w.pc, e with
  -- if (!submit.get())
  | .entry, .ok => some (sh, { w with pc := if sh.submit then .beginning else .skipping })
  -- subTask.countDown(); return
  | .skipping, .ok => some ({ sh with subTask := sh.subTask - 1 }, { w with pc := .ended })
  -- transactionManager.getTransaction(..)
  | .beginning, .ok => some (sh, { w with pc := .handling, tx := .active })
  | .beginning, .exception | .beginning, .error => some (sh, { w with pc := .died })
  -- item.handle()
  | .handling, .ok => some (sh, { w with pc := .arriving })
  | .handling, .exception => some (sh, { w with pc := .failing })
  | .handling, .error => some (sh, { w with pc := .died })
  -- submit.set(false)
  | .failing, .ok => some ({ sh with submit := false }, { w with pc := .arriving })
  -- subTask.countDown()
  | .arriving, .ok => some ({ sh with subTask := sh.subTask - 1 }, { w with pc := .awaiting })
  -- mainTask.await(timeout, unit)
  | .awaiting, .ok => if sh.mainTask = 0 then some (sh, { w with pc := .deciding }) else none
  | .awaiting, .timeout => some (sh, { w with pc := .deciding })
  | .awaiting, .interrupt => some (sh, { w with pc := .ended })
  -- if (submit.get())
  | .deciding, .ok =>
      some (sh, { w with pc := if sh.submit then .committing else .rollingBack })
  -- transactionManager.commit(transactionStatus)
  | .committing, .ok =>
      some (sh, { w with pc := .ended, tx := .committed, commits := w.commits + 1 })
  | .committing, .exception | .committing, .error =>
      some (sh, { w with pc := .ended, commits := w.commits + 1 })
  -- transactionManager.rollback(transactionStatus)
  | .rollingBack, .ok =>
      some (sh, { w with pc := .ended, tx := .rolledBack, rollbacks := w.rollbacks + 1 })
  | .rollingBack, .exception | .rollingBack, .error =>
      some (sh, { w with pc := .ended, rollbacks := w.rollbacks + 1 })
  | _, _ => none

variable {n : ℕ}

/-- The shared objects and the runnable `i` after a step of `i`. -/
def State.set (s : State n) (i : Fin n) (sh : Shared) (w : Worker) : State n :=
  { s with shared := sh, worker := Function.update s.worker i w }

@[simp] theorem State.main_set (s : State n) (i : Fin n) (sh : Shared) (w : Worker) :
    (s.set i sh w).main = s.main := rfl

@[simp] theorem State.shared_set (s : State n) (i : Fin n) (sh : Shared) (w : Worker) :
    (s.set i sh w).shared = sh := rfl

@[simp] theorem State.worker_set_self (s : State n) (i : Fin n) (sh : Shared) (w : Worker) :
    (s.set i sh w).worker i = w := by simp [set]

@[simp] theorem State.worker_set_of_ne (s : State n) {i j : Fin n} (hj : j ≠ i) (sh : Shared)
    (w : Worker) : (s.set i sh w).worker j = s.worker j := by simp [set, hj]

def State.moveWorker (s : State n) (i : Fin n) (pc : Pc) : State n :=
  s.set i s.shared { s.worker i with pc := pc }

def mainStep (ex : Executor) (s : State n) (e : Event) : Option (State n) :=
  match s.main, e with
  -- executor.execute(..) for the next task; after the last one the loop ends
  | .submitting i, .ok =>
      if h : i < n then some { s.moveWorker ⟨i, h⟩ .queued with main := .submitting (i + 1) }
      else some { s with main := .awaiting }
  | .submitting i, .exception =>
      if i < n ∧ ex.mayReject then some { s with main := .threw } else none
  -- subTask.await(timeout, unit)
  | .awaiting, .ok => if s.shared.subTask = 0 then some { s with main := .counting } else none
  | .awaiting, .timeout => some { s with main := .counting }
  | .awaiting, .interrupt => some { s with main := .caught }
  -- if (subTask.getCount() > 0)
  | .counting, .ok =>
      some { s with main := if 0 < s.shared.subTask then .closing else .opening }
  -- submit.set(false)
  | .closing, .ok =>
      some { s with main := .opening, shared := { s.shared with submit := false } }
  -- mainTask.countDown()
  | .opening, .ok =>
      some { s with main := .reading,
                    shared := { s.shared with mainTask := s.shared.mainTask - 1 } }
  -- return submit.get(), in the try block and after it
  | .reading, .ok | .caught, .ok => some { s with main := .returned s.shared.submit }
  | _, _ => none

def Pc.running : Pc → Bool
  | .unsubmitted | .queued | .ended | .died => false
  | _ => true

def State.running (s : State n) : ℕ := (List.finRange n).countP fun i => (s.worker i).pc.running

/-- A step of the calling thread, an idle thread of the executor taking a runnable
up, or a step of a runnable. -/
inductive Act (n : ℕ) where
  | main (e : Event)
  | start (i : Fin n)
  | worker (i : Fin n) (e : Event)

def step (ex : Executor) (s : State n) : Act n → Option (State n)
  | .main e => mainStep ex s e
  | .start i =>
      if (s.worker i).pc = .queued ∧ s.running < ex.threads then
        some (s.moveWorker i .entry)
      else none
  | .worker i e =>
      (workerStep s.shared (s.worker i) e).map fun p => s.set i p.1 p.2

/-- `execute(tasks, executor, timeout, unit)` with `n` tasks. -/
def execute (ex : Executor) (n : ℕ) : System (State n) (Act n) where
  init :=
    { main := .submitting 0
      shared := { mainTask := 1, subTask := n, submit := true }
      worker := fun _ => ⟨.unsubmitted, .notBegun, 0, 0⟩ }
  step := step ex

def MainPc.ended : MainPc → Bool
  | .returned _ | .threw => true
  | _ => false

def Pc.isEnd : Pc → Bool
  | .ended | .died => true
  | _ => false

namespace State

/-- All threads of the call have ended: the calling thread, and every runnable that
was submitted. -/
def Ended (s : State n) : Prop :=
  s.main.ended = true ∧
    ∀ i, (s.worker i).pc.isEnd = true ∨ (s.worker i).pc = .unsubmitted

instance (s : State n) : Decidable s.Ended := inferInstanceAs (Decidable (_ ∧ _))

/-- Every transaction has been committed, or none has. -/
def AllOrNothing (s : State n) : Prop :=
  (∀ i, (s.worker i).tx = .committed) ∨ ∀ i, (s.worker i).tx ≠ .committed

instance (s : State n) : Decidable s.AllOrNothing := inferInstanceAs (Decidable (_ ∨ _))

/-- The answer of `execute` agrees with the database: after `true` every transaction
has been committed once all runnables have ended, after `false` none has been. -/
def AnswerAgrees (s : State n) : Prop :=
  (s.main = .returned true → (∀ i, (s.worker i).pc.isEnd = true) →
    ∀ i, (s.worker i).tx = .committed) ∧
  (s.main = .returned false → ∀ i, (s.worker i).tx ≠ .committed)

instance (s : State n) : Decidable s.AnswerAgrees := inferInstanceAs (Decidable (_ ∧ _))

end State

end HelloBoot.TransactionManagerUtil
