import HelloBoot.Wire.Reader
import Mathlib.Data.List.Basic

/-!
# Reading a work list

A format in which a value can hold values is passed over with a list of what is still to come: the
first item takes its own part off the input and puts what it announces before the rest. The
reading ends since a round either takes something off or announces less than it was itself, by a
weight of the items. `Spells` is the grammar that the rounds describe.
-/

namespace Wire

namespace Reader

variable {β ε κ : Type}

section WorkList

variable (round : κ → Reader β ε (List κ)) (weight : κ → ℕ)

def total : List κ → ℕ
  | [] => 0
  | k :: ks => weight k + total ks

theorem total_append (ks ks' : List κ) :
    total weight (ks ++ ks') = total weight ks + total weight ks' := by
  induction ks with
  | nil => exact (Nat.zero_add _).symm
  | cons k ks ih => rw [List.cons_append, total, total, ih, Nat.add_assoc]

/-- A round that takes nothing off announces less than it was. -/
def Descends : Prop :=
  ∀ ⦃k : κ⦄ ⦃ws rest : List β⦄ ⦃ks : List κ⦄, (round k).run ws = .ok (ks, rest) →
    rest.length < ws.length ∨ total weight ks < weight k

variable (hround : Descends round weight)

def runWorkList (ks : List κ) (ws : List β) : Except ε (Unit × List β) :=
  match ks with
  | [] => .ok ((), ws)
  | k :: ks =>
      match h : (round k).run ws with
      | .error e => .error e
      | .ok (ks', rest) =>
          have _ := (round k).length_le h
          have _ := hround h
          runWorkList (ks' ++ ks) rest
termination_by (ws.length, total weight ks)
decreasing_by
  rename_i hle hlt
  rcases Nat.lt_or_eq_of_le hle with hless | heq
  · exact Prod.Lex.left _ _ hless
  · rw [heq]
    apply Prod.Lex.right
    rw [total_append, total]
    omega

theorem runWorkList_length_le {ks : List κ} {ws rest : List β}
    (h : runWorkList round weight hround ks ws = .ok ((), rest)) : rest.length ≤ ws.length := by
  fun_induction runWorkList round weight hround ks ws with
  | case1 ws =>
      cases h
      exact Nat.le_refl _
  | case2 ws k ks e hk => cases h
  | case3 ws k ks ks' rest' hk hle hlt ih => exact Nat.le_trans (ih h) hle

/-- All that the work list and what it announces take off. -/
def workList (ks : List κ) : Reader β ε Unit where
  run := runWorkList round weight hround ks
  length_le := runWorkList_length_le round weight hround

end WorkList

/-- `Spells round ks ws`: the rounds take `ws` off, from the work list `ks` to an empty one. -/
inductive Spells (round : κ → Reader β ε (List κ)) : List κ → List β → Prop
  | nil : Spells round [] []
  | cons {k : κ} {ks ks' : List κ} {ws us : List β} (hk : (round k).Takes ws ks')
      (hks : Spells round (ks' ++ ks) us) : Spells round (k :: ks) (ws ++ us)

theorem Spells.takes {round : κ → Reader β ε (List κ)} {weight : κ → ℕ}
    {hround : Descends round weight} {ks : List κ} {ws : List β} (h : Spells round ks ws) :
    (workList round weight hround ks).Takes ws () := by
  induction h with
  | nil =>
      intro rest
      change runWorkList round weight hround [] rest = _
      rw [runWorkList]
  | @cons k ks ks' ws us hk _ ih =>
      intro rest
      have hrun := hk (us ++ rest)
      change runWorkList round weight hround (k :: ks) (ws ++ us ++ rest) = _
      rw [List.append_assoc, runWorkList]
      split
      · rename_i e h
        cases hrun.symm.trans h
      · rename_i ks₁ rest₁ h
        cases hrun.symm.trans h
        exact ih rest

end Reader

end Wire
