import Mathlib.Data.List.Basic

/-!
# Feistel networks

A round replaces the halves of a block by the right one and the left one mixed with what the
round function makes of the right one. After the last round the halves are exchanged. Whatever
the round functions are, the network with the functions in the reverse order undoes it, if mixing
twice with the same half undoes the mixing (`feistel_reverse_feistel`).
-/

namespace BlockCipher

variable {α : Type} (mix : α → α → α)

def round (f : α → α) (b : α × α) : α × α := (b.2, mix b.1 (f b.2))

def rounds : List (α → α) → α × α → α × α
  | [], b => b
  | f :: fs, b => rounds fs (round mix f b)

def feistel (fs : List (α → α)) (b : α × α) : α × α := (rounds mix fs b).swap

theorem rounds_append (fs gs : List (α → α)) (b : α × α) :
    rounds mix (fs ++ gs) b = rounds mix gs (rounds mix fs b) := by
  induction fs generalizing b with
  | nil => rfl
  | cons f fs ih => exact ih (round mix f b)

variable {mix}

theorem round_swap_round (hmix : ∀ a b, mix (mix a b) b = a) (f : α → α) (b : α × α) :
    round mix f (round mix f b).swap = b.swap := by
  change (b.2, mix (mix b.1 (f b.2)) (f b.2)) = (b.2, b.1)
  rw [hmix]

theorem rounds_reverse_swap (hmix : ∀ a b, mix (mix a b) b = a) (fs : List (α → α)) (b : α × α) :
    rounds mix fs.reverse (rounds mix fs b).swap = b.swap := by
  induction fs generalizing b with
  | nil => rfl
  | cons f fs ih =>
      have hih : rounds mix fs.reverse (rounds mix (f :: fs) b).swap = (round mix f b).swap :=
        ih (round mix f b)
      rw [List.reverse_cons, rounds_append, hih]
      exact round_swap_round hmix f b

theorem feistel_reverse_feistel (hmix : ∀ a b, mix (mix a b) b = a) (fs : List (α → α))
    (b : α × α) : feistel mix fs.reverse (feistel mix fs b) = b := by
  rw [feistel, feistel, rounds_reverse_swap hmix, Prod.swap_swap]

end BlockCipher
