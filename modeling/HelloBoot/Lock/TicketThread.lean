import HelloBoot.Transition.Maximal
import Mathlib.Algebra.BigOperators.Group.Finset.Basic
import Mathlib.Data.Fintype.Basic

/-!
# `TestLock.TicketThread`

Threads run one `TicketThread` and sell its tickets. A thread takes the lock, sells a ticket if
there is one, and gives the lock back; where there is none, it returns, and gives the lock back all
the same. The number of the tickets is read and written in steps of their own.

Only the owner of the lock is between the two, so what it has read is still the number when it
writes (`Inv`): the tickets are sold one after the other, each once. Every run ends, with all the
tickets sold.
-/

namespace HelloBoot.TestLock

open Transition

inductive Place where
  | locking
  | checking
  | reading
  | writing (read : ℤ)
  | unlocking (returns : Bool)
  | returned

def Place.inside : Place → Bool
  | .locking | .returned => false
  | _ => true

/-- The `TicketThread`, its threads and, for the record, who sold which ticket. -/
structure Tickets (τ : Type) where
  tickets : ℤ
  owner : Option τ := none
  place : τ → Place := fun _ => .locking
  sold : List (τ × ℤ) := []

namespace Tickets

variable {τ : Type} [DecidableEq τ]

def goTo (s : Tickets τ) (t : τ) (p : Place) : Tickets τ :=
  { s with place := Function.update s.place t p }

def step (s : Tickets τ) (t : τ) : Option (Tickets τ) :=
  match s.place t with
  | .locking =>
      match s.owner with
      | none => some { s.goTo t .checking with owner := some t }
      | some _ => none
  | .checking => some (s.goTo t (if s.tickets > 0 then .reading else .unlocking true))
  | .reading => some (s.goTo t (.writing s.tickets))
  | .writing read =>
      some { s.goTo t (.unlocking false) with
        tickets := read - 1
        sold := s.sold ++ [(t, read)] }
  | .unlocking returns =>
      some { s.goTo t (if returns then .returned else .locking) with owner := none }
  | .returned => none

def system (tickets : ℤ) : System (Tickets τ) τ where
  init := { tickets := tickets }
  step := step

variable {n : ℤ} {s s' : Tickets τ} {t u : τ} {p : Place}

theorem place_goTo (s : Tickets τ) (t : τ) (p : Place) : (s.goTo t p).place t = p :=
  Function.update_self ..

theorem place_goTo_of_ne (s : Tickets τ) (h : u ≠ t) (p : Place) :
    (s.goTo t p).place u = s.place u := Function.update_of_ne h ..

/-! ### No ticket is sold twice -/

/-- What a thread at a place knows of the number of the tickets. -/
def Known (tickets : ℤ) : Place → Prop
  | .reading => 0 < tickets
  | .writing read => read = tickets ∧ 0 < tickets
  | .unlocking true | .returned => tickets = 0
  | _ => True

/-- The owner of the lock is the one thread inside, each thread is right about the number, and the
tickets above that number have been sold in their order. -/
structure Inv (n : ℤ) (s : Tickets τ) : Prop where
  nonneg : 0 ≤ s.tickets
  le : s.tickets ≤ n
  inside_iff : ∀ t, (s.place t).inside = true ↔ s.owner = some t
  known : ∀ t, Known s.tickets (s.place t)
  sold : s.sold.map Prod.snd = (List.range (n - s.tickets).toNat).map fun i : ℕ => n - i

theorem Inv.goTo (hs : s.Inv n) (hinside : p.inside = (s.place t).inside)
    (hknown : Known s.tickets p) : (s.goTo t p).Inv n := by
  refine { hs with inside_iff := fun u => ?_, known := fun u => ?_ }
  · by_cases hu : u = t
    · rw [hu, place_goTo, hinside]
      exact hs.inside_iff t
    · rw [place_goTo_of_ne s hu]
      exact hs.inside_iff u
  · by_cases hu : u = t
    · rw [hu, place_goTo]
      exact hknown
    · rw [place_goTo_of_ne s hu]
      exact hs.known u

theorem Inv.lock (hs : s.Inv n) (howner : s.owner = none) :
    Inv n { s.goTo t .checking with owner := some t } := by
  refine { hs with inside_iff := fun u => ?_, known := fun u => ?_ }
  · change ((s.goTo t .checking).place u).inside = true ↔ some t = some u
    by_cases hu : u = t
    · rw [hu, place_goTo]
      exact iff_of_true rfl rfl
    · rw [place_goTo_of_ne s hu, hs.inside_iff, howner, Option.some_inj]
      exact iff_of_false nofun (Ne.symm hu)
  · change Known s.tickets ((s.goTo t .checking).place u)
    by_cases hu : u = t
    · rw [hu, place_goTo]
      trivial
    · rw [place_goTo_of_ne s hu]
      exact hs.known u

omit [DecidableEq τ] in
theorem Inv.not_inside (hs : s.Inv n) (howner : s.owner = some t) (hu : u ≠ t) :
    (s.place u).inside = false := by
  rw [← Bool.not_eq_true, hs.inside_iff, howner, Option.some_inj]
  exact Ne.symm hu

theorem Inv.unlock (hs : s.Inv n) (howner : s.owner = some t) (hinside : p.inside = false)
    (hknown : Known s.tickets p) : Inv n { s.goTo t p with owner := none } := by
  refine { hs with inside_iff := fun u => iff_of_false ?_ nofun, known := fun u => ?_ }
  · change ¬((s.goTo t p).place u).inside = true
    rw [Bool.not_eq_true]
    by_cases hu : u = t
    · rw [hu, place_goTo]
      exact hinside
    · rw [place_goTo_of_ne s hu]
      exact hs.not_inside howner hu
  · change Known s.tickets ((s.goTo t p).place u)
    by_cases hu : u = t
    · rw [hu, place_goTo]
      exact hknown
    · rw [place_goTo_of_ne s hu]
      exact hs.known u

/-- No other thread has read the number, and none has returned, as there are tickets. -/
theorem Inv.write (hs : s.Inv n) {read : ℤ} (hplace : s.place t = .writing read) :
    Inv n { s.goTo t (.unlocking false) with
      tickets := read - 1
      sold := s.sold ++ [(t, read)] } := by
  have howner : s.owner = some t := (hs.inside_iff t).mp (by rw [hplace]; rfl)
  have hknown := hs.known t
  rw [hplace] at hknown
  obtain ⟨rfl, hpos⟩ := hknown
  have hle := hs.le
  refine ⟨?_, ?_, fun u => ?_, fun u => ?_, ?_⟩
  · change 0 ≤ s.tickets - 1
    omega
  · change s.tickets - 1 ≤ n
    omega
  · change ((s.goTo t (.unlocking false)).place u).inside = true ↔ s.owner = some u
    by_cases hu : u = t
    · rw [hu, place_goTo]
      exact iff_of_true rfl howner
    · rw [place_goTo_of_ne s hu]
      exact hs.inside_iff u
  · change Known (s.tickets - 1) ((s.goTo t (.unlocking false)).place u)
    by_cases hu : u = t
    · rw [hu, place_goTo]
      trivial
    · have houtside := hs.not_inside howner hu
      have hu' := hs.known u
      rw [place_goTo_of_ne s hu]
      cases hplace' : s.place u with
      | locking => trivial
      | returned =>
          rw [hplace'] at hu'
          exact absurd hu' hpos.ne'
      | checking => rw [hplace'] at houtside; cases houtside
      | reading => rw [hplace'] at houtside; cases houtside
      | writing => rw [hplace'] at houtside; cases houtside
      | unlocking => rw [hplace'] at houtside; cases houtside
  · change (s.sold ++ [(t, s.tickets)]).map Prod.snd =
      (List.range (n - (s.tickets - 1)).toNat).map fun i : ℕ => n - i
    have hsucc : (n - (s.tickets - 1)).toNat = (n - s.tickets).toNat + 1 := by omega
    have hlast : n - ((n - s.tickets).toNat : ℤ) = s.tickets := by omega
    rw [hsucc, List.range_succ, List.map_append, List.map_append, hs.sold, List.map_singleton,
      List.map_singleton, hlast]

theorem Inv.step (hs : s.Inv n) (h : s.step t = some s') : s'.Inv n := by
  have hknown := hs.known t
  have hinside := hs.inside_iff t
  unfold Tickets.step at h
  cases hplace : s.place t with
  | locking =>
      simp only [hplace] at h
      cases howner : s.owner with
      | none =>
          simp only [howner, Option.some_inj] at h
          rw [← h]
          exact hs.lock howner
      | some u =>
          simp only [howner, reduceCtorEq] at h
  | checking =>
      simp only [hplace, Option.some_inj] at h
      rw [← h]
      have hnonneg := hs.nonneg
      split
      case isTrue hpos => exact hs.goTo (by rw [hplace]; rfl) hpos
      case isFalse hpos => exact hs.goTo (by rw [hplace]; rfl) (by change s.tickets = 0; omega)
  | reading =>
      simp only [hplace, Option.some_inj] at h
      rw [hplace] at hknown
      rw [← h]
      exact hs.goTo (by rw [hplace]; rfl) ⟨rfl, hknown⟩
  | writing read =>
      simp only [hplace, Option.some_inj] at h
      rw [← h]
      exact hs.write hplace
  | unlocking returns =>
      simp only [hplace, Option.some_inj] at h
      rw [hplace] at hknown hinside
      rw [← h]
      cases returns with
      | false => exact hs.unlock (hinside.mp rfl) rfl trivial
      | true => exact hs.unlock (hinside.mp rfl) rfl hknown
  | returned => simp only [hplace, reduceCtorEq] at h

theorem inv_init (hn : 0 ≤ n) : Inv n (system (τ := τ) n).init where
  nonneg := hn
  le := le_refl n
  inside_iff _ := iff_of_false nofun nofun
  known _ := trivial
  sold := by
    change [] = (List.range (n - n).toNat).map fun i : ℕ => n - i
    rw [sub_self]
    rfl

theorem inv_of_reached (hn : 0 ≤ n) (hs : (system n).Reached s) : s.Inv n :=
  hs.invariant (inv_init hn) fun _ _ _ hs _ hstep => hs.step hstep

/-! ### All tickets are sold -/

/-- How far a place is from the end, if no ticket is left. -/
def weight : Place → ℕ
  | .locking => 5
  | .checking => 4
  | .reading => 3
  | .writing _ => 2
  | .unlocking false => 6
  | .unlocking true => 1
  | .returned => 0

def measure [Fintype τ] (s : Tickets τ) : ℕ := 5 * s.tickets.toNat + ∑ t, weight (s.place t)

/-- A step brings its thread nearer to the end, or a ticket is sold. -/
theorem step_weight (hs : s.Inv n) (h : s.step t = some s') :
    ∃ p, s'.place = (s.goTo t p).place ∧
      (weight p < weight (s.place t) ∧ s'.tickets = s.tickets ∨
        weight p < weight (s.place t) + 5 ∧ 0 < s.tickets ∧ s'.tickets = s.tickets - 1) := by
  have hknown := hs.known t
  unfold Tickets.step at h
  cases hplace : s.place t with
  | locking =>
      simp only [hplace] at h
      cases howner : s.owner with
      | none =>
          simp only [howner, Option.some_inj] at h
          exact ⟨.checking, h ▸ rfl, .inl ⟨by decide, h ▸ rfl⟩⟩
      | some u => simp only [howner, reduceCtorEq] at h
  | checking =>
      simp only [hplace, Option.some_inj] at h
      refine ⟨if s.tickets > 0 then .reading else .unlocking true, h ▸ rfl, .inl ⟨?_, h ▸ rfl⟩⟩
      split
      case isTrue => decide
      case isFalse => decide
  | reading =>
      simp only [hplace, Option.some_inj] at h
      exact ⟨.writing s.tickets, h ▸ rfl, .inl ⟨by change 2 < 3; decide, h ▸ rfl⟩⟩
  | writing read =>
      simp only [hplace, Option.some_inj] at h
      rw [hplace] at hknown
      obtain ⟨rfl, hpos⟩ := hknown
      exact ⟨.unlocking false, h ▸ rfl, .inr ⟨by change 6 < 2 + 5; decide, hpos, h ▸ rfl⟩⟩
  | unlocking returns =>
      simp only [hplace, Option.some_inj] at h
      refine ⟨if returns then .returned else .locking, h ▸ rfl, .inl ⟨?_, h ▸ rfl⟩⟩
      cases returns <;> decide
  | returned => simp only [hplace, reduceCtorEq] at h

omit [DecidableEq τ] in
/-- A step of one thread changes what the threads have, added up, by what it changes for this
thread. -/
theorem sum_add_of_others [Fintype τ] {f f' : τ → ℕ} (h : ∀ u, u ≠ t → f' u = f u) :
    ∑ u, f' u + f t = ∑ u, f u + f' t := by
  classical
  have hothers : ∑ u ∈ Finset.univ.erase t, f' u = ∑ u ∈ Finset.univ.erase t, f u :=
    Finset.sum_congr rfl fun u hu => h u (Finset.ne_of_mem_erase hu)
  rw [← Finset.add_sum_erase _ f' (Finset.mem_univ t),
    ← Finset.add_sum_erase _ f (Finset.mem_univ t), hothers]
  omega

theorem measure_lt [Fintype τ] (hs : s.Inv n) (h : s.step t = some s') :
    s'.measure < s.measure := by
  obtain ⟨p, hplace, hweight⟩ := step_weight hs h
  have hothers (u : τ) (hu : u ≠ t) : weight (s'.place u) = weight (s.place u) := by
    rw [hplace, place_goTo_of_ne s hu]
  have hsum := sum_add_of_others hothers
  have ht : s'.place t = p := by rw [hplace, place_goTo]
  rw [ht] at hsum
  rw [measure, measure]
  omega

theorem returned_of_stuck (hs : s.Inv n)
    (hstuck : (system n).Stuck (fun _ _ => True) s) (t : τ) :
    s.place t = .returned ∧ s.owner = none := by
  have hnone (u : τ) : s.step u = none := hstuck u trivial
  -- the owner of the lock could go on
  have howner : s.owner = none := by
    cases howner : s.owner with
    | none => rfl
    | some u =>
        have hinside := (hs.inside_iff u).mpr howner
        have hu := hnone u
        unfold Tickets.step at hu
        cases hplace : s.place u with
        | locking => rw [hplace] at hinside; cases hinside
        | returned => rw [hplace] at hinside; cases hinside
        | checking => simp only [hplace, reduceCtorEq] at hu
        | reading => simp only [hplace, reduceCtorEq] at hu
        | writing => simp only [hplace, reduceCtorEq] at hu
        | unlocking => simp only [hplace, reduceCtorEq] at hu
  refine ⟨?_, howner⟩
  have ht := hnone t
  unfold Tickets.step at ht
  cases hplace : s.place t with
  | returned => rfl
  | locking => simp only [hplace, howner, reduceCtorEq] at ht
  | checking => simp only [hplace, reduceCtorEq] at ht
  | reading => simp only [hplace, reduceCtorEq] at ht
  | writing => simp only [hplace, reduceCtorEq] at ht
  | unlocking => simp only [hplace, reduceCtorEq] at ht

/-- However many threads there are and whichever of them is to go on, they all return, and then the
lock is free and every ticket has been sold once, in their order. In every state on the way the
tickets that are sold are those above the number that is left. -/
theorem maximalRun_sold [Fintype τ] [Nonempty τ] (hn : 0 ≤ n) {r : ℕ → Option (Tickets τ)}
    (hr : (system n).MaximalRun (fun _ _ => True) r) :
    (∀ i s, r i = some s →
      s.sold.map Prod.snd = (List.range (n - s.tickets).toNat).map fun i : ℕ => n - i) ∧
    ∃ j s, r j = some s ∧ r (j + 1) = none ∧ (∀ t, s.place t = .returned) ∧ s.owner = none ∧
      s.tickets = 0 ∧ s.sold.map Prod.snd = (List.range n.toNat).map fun i : ℕ => n - i := by
  refine ⟨fun i s hi => (inv_of_reached hn (hr.reached hi)).sold, ?_⟩
  obtain ⟨j, s, hj, hend, hs, hstuck⟩ := hr.ends measure fun s t s' hs _ hstep =>
    measure_lt (inv_of_reached hn hs) hstep
  have hinv := inv_of_reached hn hs
  have hreturned (t : τ) := returned_of_stuck hinv hstuck t
  obtain ⟨t⟩ := ‹Nonempty τ›
  have htickets : s.tickets = 0 := by
    have hknown := hinv.known t
    rwa [(hreturned t).1] at hknown
  have hsold := hinv.sold
  rw [htickets, sub_zero] at hsold
  exact ⟨j, s, hj, hend, fun t => (hreturned t).1, (hreturned t).2, htickets, hsold⟩

theorem maximalRun_sold_thousand :
    ∃ r : ℕ → Option (Tickets (Fin 3)), ∃ j s, r j = some s ∧ r (j + 1) = none ∧
      s.sold.map Prod.snd = (List.range 1000).map fun i : ℕ => 1000 - (i : ℤ) := by
  obtain ⟨r, hr⟩ := (system (τ := Fin 3) 1000).exists_maximalRun fun _ _ => True
  obtain ⟨-, j, s, hj, hend, -, -, -, hsold⟩ := maximalRun_sold (by decide) hr
  exact ⟨r, j, s, hj, hend, hsold⟩

end Tickets

end HelloBoot.TestLock
