import HelloBoot.Annotation.RateLimitHelper
import HelloBoot.Java.Call

/-!
# `RateLimitAop`

The aspect looks the intercepted method up by its name among the public methods of the
target class, in the order in which reflection lists them, and asks for the limiter that
the annotation of the first one names. So it applies the limit of the intercepted method
if and only if the first method with this name carries an equal annotation
(`asksOwn_iff`), and in every order of the list if and only if all of them do
(`forall_asksOwn_iff`).
-/

namespace HelloBoot.RateLimitAop

open RateLimitHelper (CallId Guava RateMap namedLimiters)

@[ext] structure RateLimit where
  limitKey : String
  limitCount : ℤ
  deriving DecidableEq

structure Method where
  name : String
  parameterTypes : List String
  rateLimit : Option RateLimit
  deriving DecidableEq

/-- A call that is intercepted because its method carries `@RateLimit`; `methods` is what
`getMethods()` lists for the class of the target. -/
structure JoinPoint where
  methods : List Method
  method : Method
  rateLimit : RateLimit
  mem : method ∈ methods
  annotated : method.rateLimit = some rateLimit

/-- The limiters, and what has been asked of `getRateLimiter`. -/
structure Limits (ρ : Type) where
  rateMap : RateMap ρ
  asked : List (String × ℚ)

variable {ρ : Type} (guava : Guava ρ)

/-- `RateLimitHelper.getRateLimiter(limitKey, limitCount)` in the call `c`. -/
def getRateLimiter (c : CallId) (limitKey : String) (limitCount : ℚ) :
    EStateM Throwable (Limits ρ) ρ := fun s =>
  match RateLimitHelper.getRateLimiter guava c limitKey limitCount s.rateMap with
  | .ok (rateLimiter, rateMap) =>
      .ok rateLimiter ⟨rateMap, s.asked ++ [(limitKey, limitCount)]⟩
  | .error t => .error t ⟨s.rateMap, s.asked ++ [(limitKey, limitCount)]⟩

def getCurrentMethod (joinPoint : JoinPoint) : Option Method :=
  joinPoint.methods.find? fun method => method.name = joinPoint.method.name

/-- `limit(joinPoint)` in the call `c`; `acquired` is what `tryAcquire` answers. -/
def limit (acquired : ρ → Bool) (c : CallId) (joinPoint : JoinPoint) :
    EStateM Throwable (Limits ρ) Unit :=
  match getCurrentMethod joinPoint with
  | none => return ()
  | some currentMethod =>
      match currentMethod.rateLimit with
      -- currentMethod.getAnnotation(RateLimit.class) is null
      | none => throw .nullPointer
      | some rateLimit => do
          let rateLimiter ← getRateLimiter guava c rateLimit.limitKey rateLimit.limitCount
          if acquired rateLimiter then return () else throw (.illegalArgument "限流中")

/-- The call has asked for the limiter of its own method, and has not failed for want of an
annotation. -/
def AsksOwn (acquired : ρ → Bool) (c : CallId) (joinPoint : JoinPoint)
    (s : Limits ρ) : Prop :=
  (Call.after (limit guava acquired c joinPoint) s).asked =
      s.asked ++ [(joinPoint.rateLimit.limitKey, (joinPoint.rateLimit.limitCount : ℚ))] ∧
    ∀ s', limit guava acquired c joinPoint s ≠ .error .nullPointer s'

variable {guava} {acquired : ρ → Bool} {c : CallId} {joinPoint : JoinPoint} {s : Limits ρ}

theorem ne_nullPointer_of_getRateLimiter {limitKey : String} {limitCount : ℚ}
    {rateMap : RateMap ρ} {t : Throwable}
    (h : RateLimitHelper.getRateLimiter guava c limitKey limitCount rateMap = .error t) :
    t ≠ .nullPointer := by
  rw [RateLimitHelper.getRateLimiter] at h
  cases hget : rateMap limitKey with
  | some rateLimiter =>
      rw [hget] at h
      cases h
  | none =>
      rw [hget] at h
      by_cases hcount : 0 < limitCount
      · obtain ⟨rateLimiter, hcreate⟩ := guava.create_of_pos c hcount
        rw [hcreate] at h
        cases h
      · obtain ⟨message, hcreate⟩ := guava.create_of_nonpos c hcount
        rw [hcreate] at h
        cases h
        intro ht
        cases ht

section Found

variable {currentMethod : Method} (hcurrent : getCurrentMethod joinPoint = some currentMethod)

include hcurrent

theorem limit_of_annotated {rateLimit : RateLimit}
    (hannotated : currentMethod.rateLimit = some rateLimit) :
    (Call.after (limit guava acquired c joinPoint) s).asked =
        s.asked ++ [(rateLimit.limitKey, (rateLimit.limitCount : ℚ))] ∧
      ∀ s', limit guava acquired c joinPoint s ≠ .error .nullPointer s' := by
  rw [limit, hcurrent]
  simp only [hannotated]
  cases hget : RateLimitHelper.getRateLimiter guava c rateLimit.limitKey rateLimit.limitCount
      s.rateMap with
  | error t =>
      have hcall : getRateLimiter guava c rateLimit.limitKey rateLimit.limitCount s =
          .error t ⟨s.rateMap, s.asked ++ [(rateLimit.limitKey, (rateLimit.limitCount : ℚ))]⟩ := by
        rw [getRateLimiter, hget]
      rw [Call.after_bind_of_error hcall, Call.bind_of_error hcall]
      refine ⟨rfl, fun s' h => ne_nullPointer_of_getRateLimiter hget ?_⟩
      injection h
  | ok found =>
      have hcall : getRateLimiter guava c rateLimit.limitKey rateLimit.limitCount s =
          .ok found.1 ⟨found.2, s.asked ++ [(rateLimit.limitKey, (rateLimit.limitCount : ℚ))]⟩ := by
        rw [getRateLimiter, hget]
      rw [Call.after_bind_of_ok hcall, Call.bind_of_ok hcall]
      cases acquired found.1 with
      | true => exact ⟨rfl, fun s' => nofun⟩
      | false => exact ⟨rfl, fun s' => nofun⟩

theorem limit_of_not_annotated (hannotated : currentMethod.rateLimit = none) :
    limit guava acquired c joinPoint s = .error .nullPointer s := by
  rw [limit, hcurrent]
  simp only [hannotated]
  rfl

/-- The aspect applies the limit of the intercepted method if and only if the method that it
has found carries an equal annotation. -/
theorem asksOwn_iff_of_current :
    AsksOwn guava acquired c joinPoint s ↔ currentMethod.rateLimit = some joinPoint.rateLimit := by
  constructor
  · rintro ⟨hasked, hfails⟩
    cases hannotated : currentMethod.rateLimit with
    | none => exact absurd (limit_of_not_annotated hcurrent hannotated) (hfails s)
    | some rateLimit =>
        rw [(limit_of_annotated hcurrent hannotated).1] at hasked
        have hpair := List.append_cancel_left hasked
        simp only [List.cons.injEq, Prod.mk.injEq, Rat.intCast_inj, and_true] at hpair
        exact congrArg some (RateLimit.ext hpair.1 hpair.2)
  · exact fun h => limit_of_annotated hcurrent h

end Found

theorem exists_getCurrentMethod (joinPoint : JoinPoint) :
    ∃ currentMethod, getCurrentMethod joinPoint = some currentMethod :=
  Option.isSome_iff_exists.mp
    (List.find?_isSome.mpr ⟨joinPoint.method, joinPoint.mem, decide_eq_true rfl⟩)

/-- The aspect applies the limit of the intercepted method if and only if the first method
with its name, in the order of the list, carries an equal annotation. -/
theorem asksOwn_iff (guava : Guava ρ) (acquired : ρ → Bool) (c : CallId)
    (joinPoint : JoinPoint) (s : Limits ρ) :
    AsksOwn guava acquired c joinPoint s ↔
      ∀ method, joinPoint.methods.find? (fun method => method.name = joinPoint.method.name) =
        some method → method.rateLimit = some joinPoint.rateLimit := by
  obtain ⟨currentMethod, hcurrent⟩ := exists_getCurrentMethod joinPoint
  rw [asksOwn_iff_of_current hcurrent]
  constructor
  · intro h method hmethod
    cases hcurrent.symm.trans hmethod
    exact h
  · exact fun h => h currentMethod hcurrent

def JoinPoint.listed (joinPoint : JoinPoint) (methods : List Method)
    (h : methods.Perm joinPoint.methods) : JoinPoint :=
  { joinPoint with methods := methods, mem := h.mem_iff.mpr joinPoint.mem }

/-- The limit is right in every order of the list if and only if all methods with the name
carry an equal annotation. -/
theorem forall_asksOwn_iff (guava : Guava ρ) (acquired : ρ → Bool) (c : CallId)
    (joinPoint : JoinPoint) (s : Limits ρ) :
    (∀ methods h, AsksOwn guava acquired c (joinPoint.listed methods h) s) ↔
      ∀ method ∈ joinPoint.methods, method.name = joinPoint.method.name →
        method.rateLimit = some joinPoint.rateLimit := by
  constructor
  · intro h method hmem hname
    have hperm : (method :: joinPoint.methods.erase method).Perm joinPoint.methods :=
      (List.perm_cons_erase hmem).symm
    have hfirst : getCurrentMethod (joinPoint.listed _ hperm) = some method :=
      List.find?_cons_of_pos (decide_eq_true hname)
    exact (asksOwn_iff_of_current hfirst).mp (h _ hperm)
  · intro h methods hperm
    obtain ⟨method, hfind⟩ := exists_getCurrentMethod (joinPoint.listed methods hperm)
    have hname := List.find?_some hfind
    have hmem := hperm.mem_iff.mp (List.mem_of_find?_eq_some hfind)
    exact (asksOwn_iff_of_current hfind).mpr (h method hmem (of_decide_eq_true hname))

/-- Two overloads with annotations of their own; the second is called. -/
def overloaded : JoinPoint where
  methods := [⟨"getCurDate", ["java.lang.String"], some ⟨"getCurDateOf", 100⟩⟩,
    ⟨"getCurDate", [], some ⟨"getCurDate", 2⟩⟩]
  method := ⟨"getCurDate", [], some ⟨"getCurDate", 2⟩⟩
  rateLimit := ⟨"getCurDate", 2⟩
  mem := by decide
  annotated := rfl

theorem not_asksOwn_of_overloaded :
    (Call.after (limit namedLimiters (fun _ => true) 0 overloaded) ⟨fun _ => none, []⟩).asked =
        [("getCurDateOf", 100)] ∧
      ¬AsksOwn namedLimiters (fun _ => true) 0 overloaded ⟨fun _ => none, []⟩ := by
  have hasked : (Call.after (limit namedLimiters (fun _ => true) 0 overloaded)
      ⟨fun _ => none, []⟩).asked = [("getCurDateOf", 100)] := rfl
  refine ⟨hasked, fun h => ?_⟩
  rw [AsksOwn, hasked] at h
  exact absurd h.1 (by decide)

end HelloBoot.RateLimitAop
