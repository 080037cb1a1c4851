import Mathlib.Algebra.BigOperators.Group.List.Basic
import Mathlib.Algebra.Order.BigOperators.Group.List
import Mathlib.Data.List.Nodup
import Mathlib.Data.List.Perm.Subperm

/-!
# Subset sums

`Attains w l t` says that some of the elements of `l`, each position used at most once,
have weights that add up to `t`. The two ways of searching for such a selection are
mirrored by two readings: element by element, where the last one is taken or left
(`attains_concat`), and as a duplicate-free list in any order (`attains_iff_of_nodup`).

A selection is best for a bound if none has a larger sum within it, which one that meets
the bound exactly always is.
-/

namespace Knapsack

variable {α M : Type*}

/-- A sublist of `l` has weights that add up to `t`. -/
def Attains [AddMonoid M] (w : α → M) (l : List α) (t : M) : Prop :=
  ∃ s : List α, s.Sublist l ∧ (s.map w).sum = t

section AddMonoid

variable [AddMonoid M] {w : α → M} {l : List α} {t : M}

@[simp] theorem attains_nil : Attains w [] t ↔ t = 0 := by
  simp [Attains, eq_comm]

theorem attains_concat {a : α} :
    Attains w (l ++ [a]) t ↔ Attains w l t ∨ ∃ u, Attains w l u ∧ u + w a = t := by
  constructor
  · rintro ⟨s, hs, rfl⟩
    obtain ⟨s₁, s₂, rfl, hs₁, hs₂⟩ := List.sublist_append_iff.mp hs
    rcases List.sublist_singleton.mp hs₂ with rfl | rfl
    · exact .inl ⟨s₁, hs₁, by simp⟩
    · exact .inr ⟨_, ⟨s₁, hs₁, rfl⟩, by simp⟩
  · rintro (⟨s, hs, rfl⟩ | ⟨u, ⟨s, hs, rfl⟩, rfl⟩)
    · exact ⟨s, hs.trans (List.sublist_append_left l [a]), rfl⟩
    · exact ⟨s ++ [a], hs.append (.refl _), by simp⟩

theorem attains_map {β : Type*} {f : β → α} {l : List β} :
    Attains w (l.map f) t ↔ Attains (w ∘ f) l t := by
  simp only [Attains, List.sublist_map_iff]
  constructor
  · rintro ⟨_, ⟨s, hs, rfl⟩, hsum⟩
    exact ⟨s, hs, by simpa using hsum⟩
  · rintro ⟨s, hs, hsum⟩
    exact ⟨s.map f, ⟨s, hs, rfl⟩, by simpa using hsum⟩

/-- The weights may be read in a larger monoid. -/
theorem attains_iff_of_hom {N : Type*} [AddMonoid N] (φ : M →+ N) (hφ : Function.Injective φ)
    {w' : α → N} (hw : ∀ a ∈ l, w' a = φ (w a)) : Attains w' l (φ t) ↔ Attains w l t := by
  refine exists_congr fun s => and_congr_right fun hs => ?_
  have hmap : s.map w' = (s.map w).map φ := by
    rw [List.map_map]
    exact List.map_congr_left fun a ha => hw a (hs.subset ha)
  rw [hmap, ← map_list_sum, hφ.eq_iff]

end AddMonoid

theorem Attains.nonneg [AddMonoid M] [Preorder M] [AddLeftMono M] {w : α → M} {l : List α} {t : M}
    (h : Attains w l t) (hw : ∀ a ∈ l, 0 ≤ w a) : 0 ≤ t := by
  obtain ⟨s, hs, rfl⟩ := h
  refine List.sum_nonneg fun x hx => ?_
  obtain ⟨a, ha, rfl⟩ := List.mem_map.mp hx
  exact hw a (hs.subset ha)

/-- The order in which the selection is listed does not matter. -/
theorem attains_iff_of_nodup [AddCommMonoid M] {w : α → M} {l : List α} {t : M} (hl : l.Nodup) :
    Attains w l t ↔ ∃ s : List α, s.Nodup ∧ s ⊆ l ∧ (s.map w).sum = t := by
  constructor
  · rintro ⟨s, hs, hsum⟩
    exact ⟨s, hl.sublist hs, hs.subset, hsum⟩
  · rintro ⟨s, hs, hsub, rfl⟩
    obtain ⟨s', hperm, hs'⟩ := hs.subperm hsub
    exact ⟨s', hs', (hperm.map w).sum_eq⟩

section Best

variable [AddMonoid M] {w : α → M} {l s : List α} {t : M}

/-- No sublist has a larger sum within the bound `t` than `s`. -/
def IsBest [LE M] (w : α → M) (l : List α) (t : M) (s : List α) : Prop :=
  s.Sublist l ∧ (s.map w).sum ≤ t ∧
    ∀ s' : List α, s'.Sublist l → (s'.map w).sum ≤ t → (s'.map w).sum ≤ (s.map w).sum

theorem isBest_of_sum_eq [Preorder M] (hs : s.Sublist l) (hsum : (s.map w).sum = t) :
    IsBest w l t s :=
  ⟨hs, hsum.le, fun _ _ hle => hle.trans hsum.ge⟩

end Best

end Knapsack
