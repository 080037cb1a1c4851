import HelloBoot.Java.Call

/-!
# Calls on an open resource

A sequence of calls uses a resource, and the last call closes it. The resource is open at the end
if and only if one of the calls throws and leaves it open (`isOpen_after_inTurn_iff`). The calls
may do anything else: a call that throws may have closed the resource, or have lost it.
-/

namespace HelloBoot.Call

variable {ε σ : Type}

/-- One call after the other, up to the first that throws. -/
def inTurn : List (EStateM ε σ Unit) → EStateM ε σ Unit → EStateM ε σ Unit
  | [], last => last
  | x :: xs, last => x >>= fun _ => inTurn xs last

/-- A call of the sequence throws, and leaves the resource open. -/
def ThrowsOpen (isOpen : σ → Prop) : List (EStateM ε σ Unit) → EStateM ε σ Unit → σ → Prop
  | [], last, s =>
      match last s with
      | .ok _ _ => False
      | .error _ s' => isOpen s'
  | x :: xs, last, s =>
      match x s with
      | .ok _ s' => ThrowsOpen isOpen xs last s'
      | .error _ s' => isOpen s'

/-- The resource is closed when the call returns. -/
def Closes (isOpen : σ → Prop) (x : EStateM ε σ Unit) : Prop :=
  ∀ s s', x s = .ok () s' → ¬isOpen s'

variable {isOpen : σ → Prop} {xs : List (EStateM ε σ Unit)} {last : EStateM ε σ Unit} {s : σ}

theorem isOpen_after_inTurn_iff (hlast : Closes isOpen last) :
    isOpen (after (inTurn xs last) s) ↔ ThrowsOpen isOpen xs last s := by
  induction xs generalizing s with
  | nil =>
      rw [inTurn, after, ThrowsOpen]
      cases h : last s with
      | ok _ s' => exact iff_of_false (hlast s s' h) id
      | error t s' => exact Iff.rfl
  | cons x xs ih =>
      rw [inTurn, ThrowsOpen]
      cases h : x s with
      | ok _ s' =>
          rw [after_bind_of_ok h]
          exact ih
      | error t s' =>
          rw [after_bind_of_error h]

/-- After calls that return, whether a call throws depends on the others. -/
theorem throwsOpen_append {ys : List (EStateM ε σ Unit)} {s' : σ}
    (h : inTurn xs (pure ()) s = .ok () s') :
    ThrowsOpen isOpen (xs ++ ys) last s = ThrowsOpen isOpen ys last s' := by
  induction xs generalizing s with
  | nil =>
      cases h
      rfl
  | cons x xs ih =>
      rw [inTurn] at h
      rw [List.cons_append, ThrowsOpen]
      cases hcall : x s with
      | ok _ s'' =>
          rw [bind_of_ok hcall] at h
          exact ih h
      | error t s'' =>
          rw [bind_of_error hcall] at h
          cases h

end HelloBoot.Call
