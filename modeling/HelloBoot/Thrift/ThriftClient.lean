import HelloBoot.Transition.System
import Mathlib.Logic.Function.Basic

/-!
# `ThriftClient.init`

All clients share the connection in the static field `tProtocol`. A call of `init` that finds none
makes one, stores it in the field and only then opens it, and a failure is logged. Nothing makes
the calls wait for one another, so several may find none and store theirs.

A connection that is stored and could not be opened stays in the field, so no later call opens one:
the calls that may still bring the clients an open connection are told by where they are
(`usable_later_iff`).
-/

namespace HelloBoot.ThriftClient

open Transition

inductive Place where
  /-- `tProtocol == null` -/
  | checking
  /-- `new TSocket(host, port)`, `new TFramedTransport(tTransport)` and `tProtocol = ...` -/
  | creating
  /-- `tTransport.open()` -/
  | opening
  | returned
  deriving DecidableEq

/-- The call whose connection is in the field, with `none` for null, the calls whose connections
are open, and where the calls are. -/
structure State (τ : Type) where
  tProtocol : Option τ := none
  isOpen : τ → Bool := fun _ => false
  place : τ → Place := fun _ => .checking

/-- A call goes on; what it tries succeeds, or throws a `TTransportException`. -/
structure Act (τ : Type) where
  run : τ
  succeeds : Bool

variable {τ : Type} [DecidableEq τ] {s s' : State τ} {t u : τ}

def State.goTo (s : State τ) (t : τ) (p : Place) : State τ :=
  { s with place := Function.update s.place t p }

def step (s : State τ) : Act τ → Option (State τ)
  | ⟨t, succeeds⟩ =>
      match s.place t with
      | .checking => some (s.goTo t (if s.tProtocol = none then .creating else .returned))
      | .creating =>
          some (if succeeds then { s.goTo t .opening with tProtocol := some t }
            else s.goTo t .returned)
      | .opening =>
          some { s.goTo t .returned with isOpen := Function.update s.isOpen t succeeds }
      | .returned => none

def system (τ : Type) [DecidableEq τ] : System (State τ) (Act τ) where
  init := {}
  step := step

omit [DecidableEq τ] in
/-- The clients have an open connection. -/
def State.Usable (s : State τ) : Prop := ∃ t, s.tProtocol = some t ∧ s.isOpen t = true

omit [DecidableEq τ] in
/-- The call `t` may still open the connection that is in the field, or store one. -/
def Place.Hopeful (tProtocol : Option τ) (t : τ) : Place → Prop
  | .checking => tProtocol = none
  | .creating => True
  | .opening => tProtocol = some t
  | .returned => False

omit [DecidableEq τ] in
def State.Hopeful (s : State τ) (t : τ) : Prop := (s.place t).Hopeful s.tProtocol t

/-- The clients have no open connection, and no call may bring them one. -/
structure State.Hopeless (s : State τ) : Prop where
  not_usable : ¬s.Usable
  not_hopeful : ∀ t, ¬s.Hopeful t

@[simp] theorem place_goTo_self (p : Place) : (s.goTo t p).place t = p := Function.update_self ..

theorem place_goTo_of_ne (hne : u ≠ t) (p : Place) : (s.goTo t p).place u = s.place u :=
  Function.update_of_ne hne ..

theorem not_hopeful_goTo_returned (hs : ∀ u, ¬s.Hopeful u) (u : τ) :
    ¬(s.goTo t .returned).Hopeful u := by
  by_cases hne : u = t
  · rw [hne, State.Hopeful, place_goTo_self]
    exact not_false
  · rw [State.Hopeful, place_goTo_of_ne hne]
    exact hs u

theorem hopeless_step {a : Act τ} (hs : s.Hopeless) (h : step s a = some s') : s'.Hopeless := by
  obtain ⟨t, succeeds⟩ := a
  have hself := hs.not_hopeful t
  cases hplace : s.place t with
  | checking =>
      -- There is a connection in the field already.
      have hstored : s.tProtocol ≠ none := by rwa [State.Hopeful, hplace] at hself
      simp only [step, hplace, if_neg hstored, Option.some_inj] at h
      exact h ▸ ⟨hs.not_usable, not_hopeful_goTo_returned hs.not_hopeful⟩
  | creating => exact absurd (by rw [State.Hopeful, hplace]; trivial) hself
  | opening =>
      -- The connection that is opened is not the one in the field.
      have hother : s.tProtocol ≠ some t := by rwa [State.Hopeful, hplace] at hself
      simp only [step, hplace, Option.some_inj] at h
      rw [← h]
      refine ⟨fun ⟨u, hu, hopen⟩ => hs.not_usable ⟨u, hu, ?_⟩,
        not_hopeful_goTo_returned hs.not_hopeful⟩
      have hne : u ≠ t := fun heq => hother (heq ▸ hu)
      exact (Function.update_of_ne hne ..).symm.trans hopen
  | returned => simp only [step, hplace, reduceCtorEq] at h

theorem hopeless_of_leads (hs : s.Hopeless) (h : (system τ).Leads s s') : s'.Hopeless := by
  induction h with
  | refl => exact hs
  | tail _ hstep ih =>
      obtain ⟨a, hstep⟩ := hstep
      exact hopeless_step ih hstep

theorem usable_of_opening (hplace : s.place t = .opening) (ht : s.tProtocol = some t) :
    ∃ s', (system τ).Leads s s' ∧ s'.Usable := by
  have hstep : (system τ).step s ⟨t, true⟩ =
      some { s.goTo t .returned with isOpen := Function.update s.isOpen t true } := by
    simp only [system, step, hplace]
  exact ⟨_, .single ⟨_, hstep⟩, t, ht, Function.update_self ..⟩

theorem usable_of_creating (hplace : s.place t = .creating) :
    ∃ s', (system τ).Leads s s' ∧ s'.Usable := by
  have hstep : (system τ).step s ⟨t, true⟩ =
      some { s.goTo t .opening with tProtocol := some t } := by
    simp only [system, step, hplace, if_true]
  obtain ⟨s', hleads, husable⟩ := usable_of_opening
    (s := { s.goTo t .opening with tProtocol := some t }) (Function.update_self ..) rfl
  exact ⟨s', .head ⟨_, hstep⟩ hleads, husable⟩

/-- The clients may have an open connection later if and only if they have one, or a call is still
to find that there is none in the field, is making one, or is about to open the one in the field. -/
theorem usable_later_iff :
    (∃ s', (system τ).Leads s s' ∧ s'.Usable) ↔ s.Usable ∨ ∃ t, s.Hopeful t := by
  constructor
  · rintro ⟨s', hleads, husable⟩
    by_contra hnot
    rw [not_or, not_exists] at hnot
    exact (hopeless_of_leads ⟨hnot.1, hnot.2⟩ hleads).not_usable husable
  · rintro (husable | ⟨t, ht⟩)
    · exact ⟨s, .refl, husable⟩
    · cases hplace : s.place t with
      | checking =>
          have hnone : s.tProtocol = none := by rwa [State.Hopeful, hplace] at ht
          have hstep : (system τ).step s ⟨t, true⟩ = some (s.goTo t .creating) := by
            simp only [system, step, hplace, if_pos hnone]
          obtain ⟨s', hleads, husable⟩ :=
            usable_of_creating (s := s.goTo t .creating) (Function.update_self ..)
          exact ⟨s', .head ⟨_, hstep⟩ hleads, husable⟩
      | creating => exact usable_of_creating hplace
      | opening => exact usable_of_opening hplace (by rwa [State.Hopeful, hplace] at ht)
      | returned =>
          rw [State.Hopeful, hplace] at ht
          exact ht.elim

end HelloBoot.ThriftClient
