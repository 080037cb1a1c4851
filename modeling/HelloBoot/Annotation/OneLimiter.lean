import HelloBoot.Annotation.RateLimitHelper

/-!
# One limiter for each key

A call that finds no limiter creates one and puts it into the map, whatever the map holds
by then. In a run in which every `put` still finds no limiter of its key, all calls with
one key return one limiter (`oneLimiter_of_absent`); a `put` that finds one leaves two
limiters at work (`not_oneLimiter_of_put`).
-/

namespace HelloBoot.RateLimitHelper

open Transition

variable {ρ : Type} {guava : Guava ρ}

/-- All calls with one key have returned one limiter, and so all permits of the key come
from it. -/
def OneLimiter (s : State ρ) : Prop :=
  ∀ c c' call call' rateLimiter rateLimiter', s.calls c = some call → s.calls c' = some call' →
    call.limitKey = call'.limitKey → call.place.limiter = some rateLimiter →
      call'.place.limiter = some rateLimiter' → rateLimiter = rateLimiter'

/-- A `put` is made only while the map holds no limiter of its key. -/
def meetsAbsent (s : State ρ) : Act → Bool
  | .step c =>
      match s.calls c with
      | some ⟨limitKey, _, .put _⟩ => (s.rateMap limitKey).isNone
      | _ => true
  | .invoke _ _ _ | .tryAcquire _ _ => true

inductive Moves (guava : Guava ρ) (s : State ρ) (c : CallId) (call : Call ρ) :
    RateMap ρ → Place ρ → Prop where
  | invoked (hnew : s.calls c = none) : Moves guava s c call s.rateMap .get
  | found (hcall : s.calls c = some call) (hplace : call.place = .get) {l : ρ}
      (hget : s.rateMap call.limitKey = some l) : Moves guava s c call s.rateMap (.returned l)
  | missed (hcall : s.calls c = some call) (hplace : call.place = .get) :
      Moves guava s c call s.rateMap .create
  | created (hcall : s.calls c = some call) (hplace : call.place = .create) {l : ρ}
      (hcreate : guava.create c call.limitCount = .ok l) : Moves guava s c call s.rateMap (.put l)
  | failed (hcall : s.calls c = some call) (hplace : call.place = .create) (t : Throwable) :
      Moves guava s c call s.rateMap (.threw t)
  | stored (hcall : s.calls c = some call) {l : ρ} (hplace : call.place = .put l) :
      Moves guava s c call (Function.update s.rateMap call.limitKey (some l)) (.returned l)
  | answered (hcall : s.calls c = some call) {l : ρ} (hplace : call.place = .returned l)
      {place : Place ρ} (hanswer : place = .letThrough l ∨ place = .refused l) :
      Moves guava s c call s.rateMap place

variable {s s' : State ρ} {a : Act} {c c' : CallId} {call call' : Call ρ} {rateMap : RateMap ρ}
  {place : Place ρ} {l l' : ρ}

theorem moves_of_advance (hcall : s.calls c = some call)
    (h : advance guava c s.rateMap call = some (rateMap, place)) :
    Moves guava s c call rateMap place := by
  rw [advance] at h
  cases hplace : call.place with
  | get =>
      rw [hplace] at h
      simp only at h
      cases hget : s.rateMap call.limitKey with
      | some l =>
          rw [hget] at h
          cases h
          exact .found hcall hplace hget
      | none =>
          rw [hget] at h
          cases h
          exact .missed hcall hplace
  | create =>
      rw [hplace] at h
      simp only at h
      cases hcreate : guava.create c call.limitCount with
      | ok l =>
          rw [hcreate] at h
          cases h
          exact .created hcall hplace hcreate
      | error t =>
          rw [hcreate] at h
          cases h
          exact .failed hcall hplace t
  | put l =>
      rw [hplace] at h
      cases h
      exact .stored hcall hplace
  | returned | threw | letThrough | refused =>
      rw [hplace] at h
      cases h

theorem exists_of_step (h : (interleaved guava).step s (.step c) = some s') :
    ∃ call rateMap place, s.calls c = some call ∧
      advance guava c s.rateMap call = some (rateMap, place) ∧
        s' = s.moved rateMap c call place := by
  simp only [interleaved] at h
  cases hcall : s.calls c with
  | none =>
      rw [hcall] at h
      cases h
  | some call =>
      rw [hcall] at h
      obtain ⟨⟨rateMap, place⟩, hadvance, rfl⟩ := Option.map_eq_some_iff.mp h
      exact ⟨call, rateMap, place, rfl, hadvance, rfl⟩

theorem exists_of_tryAcquire {acquired : Bool}
    (h : (interleaved guava).step s (.tryAcquire c acquired) = some s') :
    ∃ call l, s.calls c = some call ∧ call.place = .returned l ∧
      s' = s.moved s.rateMap c call (if acquired then .letThrough l else .refused l) := by
  simp only [interleaved] at h
  cases hcall : s.calls c with
  | none =>
      rw [hcall] at h
      cases h
  | some call =>
      rw [hcall] at h
      simp only at h
      cases hplace : call.place with
      | returned l =>
          rw [hplace] at h
          exact ⟨call, l, rfl, hplace, (Option.some.inj h).symm⟩
      | get | create | put | threw | letThrough | refused =>
          rw [hplace] at h
          cases h

/-- Every step moves one call, and only a step of the call itself moves it from its `put`. -/
theorem exists_moves (h : (interleaved guava).step s a = some s') :
    ∃ c call rateMap place, Moves guava s c call rateMap place ∧
      s' = s.moved rateMap c call place ∧ ∀ l, call.place = .put l → a = .step c := by
  cases a with
  | invoke c limitKey limitCount =>
      simp only [interleaved] at h
      cases hcall : s.calls c with
      | some call =>
          rw [hcall] at h
          cases h
      | none =>
          rw [hcall] at h
          cases h
          refine ⟨c, _, _, _, .invoked hcall, rfl, fun l hput => ?_⟩
          cases hput
  | step c =>
      obtain ⟨call, rateMap, place, hcall, hadvance, rfl⟩ := exists_of_step h
      exact ⟨c, call, rateMap, place, moves_of_advance hcall hadvance, rfl, fun _ _ => rfl⟩
  | tryAcquire c acquired =>
      obtain ⟨call, l, hcall, hplace, rfl⟩ := exists_of_tryAcquire h
      refine ⟨c, call, _, _, .answered hcall hplace ?_, rfl, fun l' hput => ?_⟩
      · cases acquired with
        | true => exact .inl rfl
        | false => exact .inr rfl
      · rw [hplace] at hput
        cases hput

theorem calls_moved (h : (s.moved rateMap c call place).calls c' = some call') :
    c' = c ∧ call' = { call with place := place } ∨ c' ≠ c ∧ s.calls c' = some call' := by
  rcases eq_or_ne c' c with rfl | hne
  · exact .inl ⟨rfl, Option.some.inj (h.symm.trans (Function.update_self c' _ s.calls))⟩
  · exact .inr ⟨hne, (Function.update_of_ne hne _ s.calls).symm.trans h⟩

/-- Every limiter that has been returned is the one in the map. -/
def Stored (s : State ρ) : Prop :=
  ∀ c call l, s.calls c = some call → call.place.limiter = some l →
    s.rateMap call.limitKey = some l

theorem Stored.oneLimiter (h : Stored s) : OneLimiter s := by
  intro c c' call call' l l' hcall hcall' hkey hl hl'
  have hstored := h c call l hcall hl
  rw [hkey, h c' call' l' hcall' hl'] at hstored
  exact (Option.some.inj hstored).symm

theorem rateMap_of_moves (h : Moves guava s c call rateMap place)
    (habsent : ∀ l, s.calls c = some call → call.place = .put l →
      s.rateMap call.limitKey = none) {key : String} (hkey : s.rateMap key = some l) :
    rateMap key = some l := by
  cases h with
  | stored hcall hplace =>
      have hne : key ≠ call.limitKey := by
        rintro rfl
        rw [habsent _ hcall hplace] at hkey
        cases hkey
      rw [Function.update_of_ne hne, hkey]
  | invoked | found | missed | created | failed | answered => exact hkey

/-- The limiter that a call has returned after a step is in the map, if it was before. -/
theorem Stored.limiter_of_moves (hs : Stored s) (h : Moves guava s c call rateMap place)
    (hl : place.limiter = some l) : rateMap call.limitKey = some l := by
  cases h with
  | found hcall hplace hget =>
      cases hl
      exact hget
  | stored hcall hplace =>
      cases hl
      exact Function.update_self ..
  | answered hcall hplace hanswer =>
      refine hs c call l hcall ?_
      rw [hplace]
      rcases hanswer with rfl | rfl <;> exact hl
  | invoked | missed | created | failed => cases hl

theorem Stored.moved (hs : Stored s) (h : Moves guava s c call rateMap place)
    (habsent : ∀ l, s.calls c = some call → call.place = .put l →
      s.rateMap call.limitKey = none) : Stored (s.moved rateMap c call place) := by
  intro c' call' l hcall' hl
  rcases calls_moved hcall' with ⟨rfl, rfl⟩ | ⟨-, hold⟩
  · have hmap : rateMap call.limitKey = some l := hs.limiter_of_moves h hl
    exact hmap
  · exact rateMap_of_moves h habsent (hs c' call' l hold hl)

/-- In a run in which no `put` finds a limiter of its key, one limiter serves each key. -/
theorem oneLimiter_of_absent
    (h : (interleaved guava).ReachedBy (fun s a => meetsAbsent s a = true) s) :
    OneLimiter s := by
  have hstored : Stored s := by
    refine h.invariant (fun _ _ _ hcall => ?_) fun s a s' hs hmeets hstep => ?_
    · cases hcall
    obtain ⟨c, call, rateMap, place, hmoves, rfl, hact⟩ := exists_moves hstep
    refine hs.moved hmoves fun l hcall hplace => ?_
    obtain ⟨limitKey, limitCount, place'⟩ := call
    obtain rfl : place' = .put l := hplace
    rw [hact l rfl, meetsAbsent, hcall] at hmeets
    exact Option.isNone_iff_eq_none.mp hmeets
  exact hstored.oneLimiter

/-- Two requests, one behind the other: the second is served by the limiter of the first. -/
theorem oneLimiter_of_absent_of_sequence :
    ∃ s, (interleaved namedLimiters).ReachedBy (fun s a => meetsAbsent s a = true) s ∧
      (∃ call, s.calls 1 = some call ∧ call.place = .letThrough 0) ∧ OneLimiter s := by
  have hrun : ∃ s, (interleaved namedLimiters).ReachedBy (fun s a => meetsAbsent s a = true) s ∧
      ∃ call, s.calls 1 = some call ∧ call.place = .letThrough 0 :=
    System.ReachedBy.exists_of_execBy
      [.invoke 0 "login" 2, .step 0, .step 0, .step 0, .tryAcquire 0 true, .invoke 1 "login" 2,
        .step 1, .tryAcquire 1 true]
      ⟨_, rfl, _, rfl, rfl⟩
  obtain ⟨s, hs, hcall⟩ := hrun
  exact ⟨s, hs, hcall, oneLimiter_of_absent hs⟩

/-- Two first requests at once: both look the key up before either puts a limiter, and both
are let through by limiters of their own. -/
theorem not_oneLimiter_of_race :
    ∃ s, (interleaved namedLimiters).Reached s ∧
      (∃ call call', s.calls 0 = some call ∧ s.calls 1 = some call' ∧
        call.limitKey = call'.limitKey ∧ call.place = .letThrough 0 ∧
        call'.place = .letThrough 1) ∧ ¬OneLimiter s := by
  have hrun : ∃ s, (interleaved namedLimiters).Reached s ∧
      ∃ call call', s.calls 0 = some call ∧ s.calls 1 = some call' ∧
        call.limitKey = call'.limitKey ∧ call.place = .letThrough 0 ∧
        call'.place = .letThrough 1 :=
    System.ReachedBy.exists_of_execBy
      [.invoke 0 "login" 2, .invoke 1 "login" 2, .step 0, .step 1, .step 0, .step 1, .step 0,
        .step 1, .tryAcquire 0 true, .tryAcquire 1 true]
      ⟨_, rfl, ⟨"login", 2, .letThrough 0⟩, ⟨"login", 2, .letThrough 1⟩, rfl, rfl, rfl, rfl, rfl⟩
  obtain ⟨s, hs, call, call', hcall, hcall', hkey, hplace, hplace'⟩ := hrun
  refine ⟨s, hs, ⟨call, call', hcall, hcall', hkey, hplace, hplace'⟩, fun hone => ?_⟩
  have heq := hone 0 1 call call' 0 1 hcall hcall' hkey (by rw [hplace]; rfl)
    (by rw [hplace']; rfl)
  exact absurd heq (by decide)

section Overwritten

def Guava.Creates (guava : Guava ρ) (c : CallId) (l : ρ) : Prop :=
  ∃ limitCount, guava.create c limitCount = .ok l

/-- A limiter in the map has been returned by the call that created it, and a call puts
only what it has created. -/
structure Owned (guava : Guava ρ) (s : State ρ) : Prop where
  returned : ∀ {key l}, s.rateMap key = some l → ∃ c call, s.calls c = some call ∧
    call.limitKey = key ∧ call.place.limiter = some l ∧ guava.Creates c l
  created : ∀ {c call l}, s.calls c = some call → call.place = .put l → guava.Creates c l

theorem limiter_of_moves (h : Moves guava s c call rateMap place) (hcall : s.calls c = some call')
    (hl : call'.place.limiter = some l) :
    call = call' ∧ place.limiter = some l := by
  cases h with
  | invoked hnew =>
      rw [hnew] at hcall
      cases hcall
  | found hcall' hplace | missed hcall' hplace | created hcall' hplace | failed hcall' hplace
  | stored hcall' hplace =>
      obtain rfl := Option.some.inj (hcall'.symm.trans hcall)
      rw [hplace] at hl
      cases hl
  | answered hcall' hplace hanswer =>
      obtain rfl := Option.some.inj (hcall'.symm.trans hcall)
      rw [hplace] at hl
      refine ⟨rfl, ?_⟩
      rcases hanswer with rfl | rfl <;> exact hl

/-- What is in the map after a step was there before, or it has been put by this step. -/
theorem rateMap_before (h : Moves guava s c call rateMap place) {key : String}
    (hkey : rateMap key = some l) :
    s.rateMap key = some l ∨
      s.calls c = some call ∧ call.place = .put l ∧ key = call.limitKey ∧ place = .returned l := by
  cases h with
  | stored hcall hplace =>
      rcases eq_or_ne key call.limitKey with rfl | hne
      · rw [Function.update_self] at hkey
        obtain rfl := Option.some.inj hkey
        exact .inr ⟨hcall, hplace, rfl, rfl⟩
      · rw [Function.update_of_ne hne] at hkey
        exact .inl hkey
  | invoked | found | missed | created | failed | answered => exact .inl hkey

theorem Owned.moved (hs : Owned guava s) (h : Moves guava s c call rateMap place) :
    Owned guava (s.moved rateMap c call place) where
  returned := by
    intro key l hkey
    rcases rateMap_before h hkey with hold | ⟨hcall, hplace, rfl, rfl⟩
    · obtain ⟨c', call', hcall', hkey', hl, hcreates⟩ := hs.returned hold
      rcases eq_or_ne c' c with rfl | hne
      · obtain ⟨rfl, hkept⟩ := limiter_of_moves h hcall' hl
        exact ⟨c', { call with place := place }, Function.update_self .., hkey', hkept, hcreates⟩
      · exact ⟨c', call', (Function.update_of_ne hne ..).trans hcall', hkey', hl, hcreates⟩
    · exact ⟨c, { call with place := .returned l }, Function.update_self .., rfl, rfl,
        hs.created hcall hplace⟩
  created := by
    intro c' call' l hcall' hput
    rcases calls_moved hcall' with ⟨rfl, rfl⟩ | ⟨-, hold⟩
    · obtain rfl : place = .put l := hput
      cases h with
      | created hcall hplace hcreate => exact ⟨_, hcreate⟩
      | answered _ _ hanswer => rcases hanswer with hanswer | hanswer <;> cases hanswer
    · exact hs.created hold hput

theorem owned_of_reached (h : (interleaved guava).Reached s) : Owned guava s := by
  refine h.invariant ⟨fun hkey => ?_, fun hcall => ?_⟩ fun s a s' hs _ hstep => ?_
  · cases hkey
  · cases hcall
  · obtain ⟨c, call, rateMap, place, hmoves, rfl, -⟩ := exists_moves hstep
    exact hs.moved hmoves

/-- A `put` that finds a limiter of its key leaves two of them at work. -/
theorem not_oneLimiter_of_put (hs : (interleaved guava).Reached s) (hput : meetsAbsent s a = false)
    (hstep : (interleaved guava).step s a = some s') : ¬OneLimiter s' := by
  have howned := owned_of_reached hs
  cases a with
  | invoke | tryAcquire => cases hput
  | step c =>
      rw [meetsAbsent] at hput
      split at hput
      case h_2 => cases hput
      case h_1 limitKey limitCount l hcall =>
          obtain ⟨l', hl'⟩ := Option.isSome_iff_exists.mp (by simpa using hput)
          obtain ⟨c', call', hcall', hkey', hreturned', limitCount', hcreate'⟩ :=
            howned.returned hl'
          obtain ⟨limitCount'', hcreate⟩ := howned.created hcall rfl
          have hne : c' ≠ c := by
            rintro rfl
            rw [hcall] at hcall'
            cases hcall'
            cases hreturned'
          obtain ⟨call, rateMap, place, hmoved, hadvance, rfl⟩ := exists_of_step hstep
          obtain rfl := Option.some.inj (hcall.symm.trans hmoved)
          cases hadvance
          intro hone
          obtain rfl : l = l' := hone c c' _ call' l l' (Function.update_self ..)
            ((Function.update_of_ne hne ..).trans hcall') hkey'.symm rfl hreturned'
          exact hne (guava.fresh hcreate' hcreate)

end Overwritten

end HelloBoot.RateLimitHelper
