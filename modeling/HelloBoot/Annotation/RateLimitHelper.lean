import HelloBoot.Java.Throwable
import HelloBoot.Transition.System
import Mathlib.Algebra.Order.Ring.Rat
import Mathlib.Logic.Function.Basic

/-!
# `RateLimitHelper`

Requests of annotated methods call `getRateLimiter` and then ask the limiter that they get
for a permit. The calls share one map and run in steps, in any order: the `get`, the
creation of a limiter, the `put` with the return, and the `tryAcquire` of the aspect. A
call that runs by itself does what the method does (`leads_getRateLimiter`).
-/

namespace HelloBoot.RateLimitHelper

open Transition

abbrev CallId := ℕ

/-- Guava, with limiter objects of the type `ρ`: `RateLimiter.create(limitCount)` in the call `c`
makes a limiter of its own, if the rate is positive. -/
structure Guava (ρ : Type) where
  create : CallId → ℚ → Except Throwable ρ
  create_of_pos : ∀ c {limitCount : ℚ}, 0 < limitCount →
    ∃ rateLimiter, create c limitCount = .ok rateLimiter
  create_of_nonpos : ∀ c {limitCount : ℚ}, ¬0 < limitCount →
    ∃ message, create c limitCount = .error (.illegalArgument message)
  fresh : ∀ {c c' : CallId} {limitCount limitCount' : ℚ} {rateLimiter : ρ},
    create c limitCount = .ok rateLimiter → create c' limitCount' = .ok rateLimiter → c = c'

def namedLimiters : Guava CallId where
  create c limitCount :=
    if 0 < limitCount then .ok c else .error (.illegalArgument "rate must be positive")
  create_of_pos c _ hcount := ⟨c, if_pos hcount⟩
  create_of_nonpos _ _ hcount := ⟨_, if_neg hcount⟩
  fresh := by
    intro c c' limitCount limitCount' rateLimiter h h'
    split at h <;> cases h
    split at h' <;> cases h'
    rfl

abbrev RateMap (ρ : Type) := String → Option ρ

variable {ρ : Type} (guava : Guava ρ)

/-- `getRateLimiter(limitKey, limitCount)` in the call `c`, by itself. -/
def getRateLimiter (c : CallId) (limitKey : String) (limitCount : ℚ) (rateMap : RateMap ρ) :
    Except Throwable (ρ × RateMap ρ) :=
  match rateMap limitKey with
  | some rateLimiter => .ok (rateLimiter, rateMap)
  | none => do
      let rateLimiter ← guava.create c limitCount
      return (rateLimiter, Function.update rateMap limitKey (some rateLimiter))

/-- Where a call stands: before the `get`, before the creation, before the `put`, with the
limiter it has returned or the exception it has thrown, and with the answer of the limiter. -/
inductive Place (ρ : Type) where
  | get
  | create
  | put (rateLimiter : ρ)
  | returned (rateLimiter : ρ)
  | threw (t : Throwable)
  | letThrough (rateLimiter : ρ)
  | refused (rateLimiter : ρ)

def Place.limiter : Place ρ → Option ρ
  | returned rateLimiter | letThrough rateLimiter | refused rateLimiter => some rateLimiter
  | get | create | put _ | threw _ => none

structure Call (ρ : Type) where
  limitKey : String
  limitCount : ℚ
  place : Place ρ

structure State (ρ : Type) where
  rateMap : RateMap ρ
  calls : CallId → Option (Call ρ)

/-- A request calls `getRateLimiter`, a call goes on by a step, or its request asks the
limiter for a permit. -/
inductive Act where
  | invoke (c : CallId) (limitKey : String) (limitCount : ℚ)
  | step (c : CallId)
  | tryAcquire (c : CallId) (acquired : Bool)

def advance (c : CallId) (rateMap : RateMap ρ) (call : Call ρ) : Option (RateMap ρ × Place ρ) :=
  match call.place with
  | .get =>
      match rateMap call.limitKey with
      | some rateLimiter => some (rateMap, .returned rateLimiter)
      | none => some (rateMap, .create)
  | .create =>
      match guava.create c call.limitCount with
      | .ok rateLimiter => some (rateMap, .put rateLimiter)
      | .error t => some (rateMap, .threw t)
  | .put rateLimiter =>
      some (Function.update rateMap call.limitKey (some rateLimiter), .returned rateLimiter)
  | .returned _ | .threw _ | .letThrough _ | .refused _ => none

def State.moved (s : State ρ) (rateMap : RateMap ρ) (c : CallId) (call : Call ρ)
    (place : Place ρ) : State ρ :=
  ⟨rateMap, Function.update s.calls c (some { call with place := place })⟩

def interleaved : System (State ρ) Act where
  init := ⟨fun _ => none, fun _ => none⟩
  step s
    | .invoke c limitKey limitCount =>
        match s.calls c with
        | none => some (s.moved s.rateMap c ⟨limitKey, limitCount, .get⟩ .get)
        | some _ => none
    | .step c =>
        match s.calls c with
        | none => none
        | some call =>
            (advance guava c s.rateMap call).map fun next => s.moved next.1 c call next.2
    | .tryAcquire c acquired =>
        match s.calls c with
        | none => none
        | some call =>
            match call.place with
            | .returned rateLimiter =>
                some (s.moved s.rateMap c call
                  (if acquired then .letThrough rateLimiter else .refused rateLimiter))
            | _ => none

section Alone

variable {guava} {s : State ρ} {c : CallId} {rateMap rateMap' : RateMap ρ} {call : Call ρ}
  {place place' : Place ρ}

theorem leads_advance
    (h : advance guava c rateMap { call with place := place } = some (rateMap', place')) :
    (interleaved guava).Leads (s.moved rateMap c call place) (s.moved rateMap' c call place') := by
  refine .single ⟨.step c, ?_⟩
  simp only [interleaved, State.moved, Function.update_self, h, Option.map_some,
    Function.update_idem]

/-- A call that runs by itself returns what the method returns. -/
theorem leads_getRateLimiter (s : State ρ) (c : CallId) (call : Call ρ) :
    match getRateLimiter guava c call.limitKey call.limitCount s.rateMap with
    | .ok (rateLimiter, rateMap) =>
        (interleaved guava).Leads (s.moved s.rateMap c call .get)
          (s.moved rateMap c call (.returned rateLimiter))
    | .error t =>
        (interleaved guava).Leads (s.moved s.rateMap c call .get)
          (s.moved s.rateMap c call (.threw t)) := by
  rw [getRateLimiter]
  cases hget : s.rateMap call.limitKey with
  | some rateLimiter => exact leads_advance (by simp [advance, hget])
  | none =>
      have hmiss : (interleaved guava).Leads (s.moved s.rateMap c call .get)
          (s.moved s.rateMap c call .create) := leads_advance (by simp [advance, hget])
      cases hcreate : guava.create c call.limitCount with
      | ok rateLimiter =>
          have hput : (interleaved guava).Leads (s.moved s.rateMap c call .create)
              (s.moved s.rateMap c call (.put rateLimiter)) :=
            leads_advance (by simp [advance, hcreate])
          exact (hmiss.trans hput).trans (leads_advance rfl)
      | error t => exact hmiss.trans (leads_advance (by simp [advance, hcreate]))

end Alone

end HelloBoot.RateLimitHelper
