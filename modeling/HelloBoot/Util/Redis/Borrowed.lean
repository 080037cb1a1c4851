import HelloBoot.Transition.Along
import HelloBoot.Util.Redis.RedisUtil

/-!
# Borrowed connections

A helper of `RedisUtil` returns its connection only when its command has returned. So a
call leaves as many connections borrowed as before if and only if its command does not
throw (`returnsAll_iff`), and a pool is exhausted for good after as many failed commands as
it has connections (`exhausted_of_throws`).
-/

namespace HelloBoot.RedisUtil

open Call Transition

inductive Helper where
  | set (k v : Option String)
  | setExpire (k v : Option String) (expire : ℤ) (timeUnit : Option TimeUnit)
  | get (k : Option String)
  | del (k : Option String)

variable {β α : Type} (api : JedisApi β)

def next (w : World β) : Helper → World β
  | .set k v => after (set api k v) w
  | .setExpire k v expire timeUnit => after (setExpire api k v expire timeUnit) w
  | .get k => after (get api k) w
  | .del k => after (del api k) w

/-- A connection is borrowed, and the command on it throws. -/
def Throws (command : EStateM Throwable β α) (w : World β) : Prop :=
  ∃ w' t w'', getResource api w = .ok () w' ∧ send command w' = .error t w''

def CommandThrows (w : World β) : Helper → Prop
  | .set k v => Throws api (api.set k v) w
  | .setExpire k v expire timeUnit =>
      ∃ unit ∈ timeUnit, Throws api (api.setEx k v (unit.toSeconds expire)) w
  | .get k => Throws api (api.get k) w
  | .del k => Throws api (api.del k) w

variable {api} {command : EStateM Throwable β α} {w w' w'' : World β} {t : Throwable}

theorem borrowed_of_getResource (h : getResource api w = .ok () w') :
    w'.borrowed = w.borrowed + 1 := by
  rw [getResource] at h
  split at h
  case isFalse => cases h
  case isTrue =>
      cases hget : api.getResource w.env with
      | error t env =>
          rw [hget] at h
          cases h
      | ok _ env =>
          rw [hget] at h
          cases h
          rfl

theorem borrowed_of_getResource_error (h : getResource api w = .error t w') :
    w'.borrowed = w.borrowed := by
  rw [getResource] at h
  split at h
  case isFalse =>
      cases h
      rfl
  case isTrue =>
      cases hget : api.getResource w.env with
      | ok _ env =>
          rw [hget] at h
          cases h
      | error t env =>
          rw [hget] at h
          cases h
          rfl

theorem borrowed_after_send (command : EStateM Throwable β α) (w : World β) :
    (after (send command) w).borrowed = w.borrowed := by
  rw [after, send]
  cases command w.env <;> rfl

theorem borrowed_after_returnResource :
    (after (returnResource api) w).borrowed = w.borrowed - 1 := by
  rw [after, returnResource]
  cases api.returnResource w.env <;> rfl

theorem borrowed_of_throws (h : Throws api command w) :
    (after (withJedis api command) w).borrowed = w.borrowed + 1 := by
  obtain ⟨w', t, w'', hget, hsend⟩ := h
  rw [withJedis, after_bind_of_ok hget, after_bind_of_error hsend]
  have hkept := borrowed_after_send command w'
  rw [after, hsend] at hkept
  rw [hkept, borrowed_of_getResource hget]

theorem borrowed_of_not_throws (h : ¬Throws api command w) :
    (after (withJedis api command) w).borrowed = w.borrowed := by
  rw [withJedis]
  cases hget : getResource api w with
  | error t w' =>
      rw [after_bind_of_error hget]
      exact borrowed_of_getResource_error hget
  | ok _ w' =>
      rw [after_bind_of_ok hget]
      cases hsend : send command w' with
      | error t w'' => exact absurd ⟨w', t, w'', hget, hsend⟩ h
      | ok a w'' =>
          have hkept : w''.borrowed = w'.borrowed := by
            have hsent := borrowed_after_send command w'
            rwa [after, hsend] at hsent
          have hlent := borrowed_of_getResource hget
          rw [after_bind_of_ok hsend]
          refine after_bind (P := fun v : World β => v.borrowed = w.borrowed) ?_
            fun _ => keeps_pure a
          rw [borrowed_after_returnResource]
          omega

theorem withJedis_eq_iff :
    (after (withJedis api command) w).borrowed = w.borrowed ↔ ¬Throws api command w := by
  refine ⟨fun h hthrows => ?_, borrowed_of_not_throws⟩
  rw [borrowed_of_throws hthrows] at h
  omega

/-- A call sends one command on a connection, or fails before it does anything. -/
theorem next_cases (w : World β) (call : Helper) :
    (next api w call = w ∧ ¬CommandThrows api w call) ∨
      ∃ (α : Type) (command : EStateM Throwable β α),
        next api w call = after (withJedis api command) w ∧
          (CommandThrows api w call ↔ Throws api command w) := by
  cases call with
  | set k v => exact Or.inr ⟨_, api.set k v, rfl, Iff.rfl⟩
  | get k => exact Or.inr ⟨_, api.get k, rfl, Iff.rfl⟩
  | del k => exact Or.inr ⟨_, api.del k, rfl, Iff.rfl⟩
  | setExpire k v expire timeUnit =>
      cases timeUnit with
      | none =>
          refine Or.inl ⟨rfl, ?_⟩
          rintro ⟨unit, hunit, -⟩
          cases hunit
      | some unit =>
          refine Or.inr ⟨_, api.setEx k v (unit.toSeconds expire), rfl, ?_, fun h => ⟨unit, rfl, h⟩⟩
          rintro ⟨_, hunit, h⟩
          cases hunit
          exact h

/-- A call leaves as many connections borrowed as before if and only if its command does
not throw. -/
theorem next_eq_iff (w : World β) (call : Helper) :
    (next api w call).borrowed = w.borrowed ↔ ¬CommandThrows api w call := by
  rcases next_cases w call with ⟨hnext, hnot⟩ | ⟨α, command, hnext, hthrows⟩
  · rw [hnext]
    exact iff_of_true rfl hnot
  · rw [hnext, hthrows]
    exact withJedis_eq_iff

theorem next_of_commandThrows (w : World β) (call : Helper) (h : CommandThrows api w call) :
    (next api w call).borrowed = w.borrowed + 1 := by
  rcases next_cases w call with ⟨hnext, hnot⟩ | ⟨α, command, hnext, hthrows⟩
  · exact absurd h hnot
  · rw [hnext]
    exact borrowed_of_throws (hthrows.mp h)

/-- Each call of a run leaves as many connections borrowed as before if and only if no
command of the run throws. -/
theorem returnsAll_iff (api : JedisApi β) (w : World β) (calls : List Helper) :
    Along (next api) (fun w call => (next api w call).borrowed = w.borrowed) w calls ↔
      Along (next api) (fun w call => ¬CommandThrows api w call) w calls :=
  along_congr next_eq_iff

def failing : JedisApi Unit where
  getResource := pure ()
  set _ _ := throw .unchecked
  setEx _ _ _ := throw .unchecked
  get _ := throw .unchecked
  del _ := throw .unchecked
  returnResource := pure ()

theorem not_returnsAll_of_failing :
    ¬∀ (β : Type) (api : JedisApi β) (w : World β) (calls : List Helper),
      Along (next api) (fun w call => (next api w call).borrowed = w.borrowed) w calls := by
  intro h
  have hcall := (h Unit failing ⟨0, ()⟩ [.get (some "k")]).1
  exact absurd hcall (by decide)

theorem borrowed_of_run (calls : List Helper)
    (h : Along (next api) (fun w call => ¬CommandThrows api w call) w calls) :
    (calls.foldl (next api) w).borrowed = w.borrowed :=
  ((along_congr next_eq_iff).mpr h).foldl_eq (f := World.borrowed)

theorem getResource_of_exhausted (h : maxTotal ≤ w.borrowed) :
    getResource api w = .error .unchecked w := by
  rw [getResource, if_neg (Nat.not_lt.mpr h)]

theorem next_of_exhausted (h : maxTotal ≤ w.borrowed) (call : Helper) : next api w call = w := by
  rcases next_cases w call with ⟨hnext, -⟩ | ⟨α, command, hnext, -⟩
  · exact hnext
  · rw [hnext, withJedis, after_bind_of_error (getResource_of_exhausted h)]

/-- After as many failed commands as the pool has connections, no later call gets one. -/
theorem exhausted_of_throws {calls : List Helper}
    (hthrows : Along (next api) (fun w call => CommandThrows api w call) w calls)
    (hmany : maxTotal ≤ w.borrowed + calls.length) (later : List Helper) :
    getResource api ((calls ++ later).foldl (next api) w) =
      .error .unchecked (calls.foldl (next api) w) := by
  have hadd : Along (next api) (fun w call => (next api w call).borrowed = w.borrowed + 1)
      w calls := hthrows.imp next_of_commandThrows
  have hexhausted : maxTotal ≤ (calls.foldl (next api) w).borrowed := by
    rw [hadd.foldl_add (f := World.borrowed)]
    exact hmany
  rw [List.foldl_append, foldl_eq_of_fixed (next_of_exhausted hexhausted),
    getResource_of_exhausted hexhausted]

end HelloBoot.RedisUtil
