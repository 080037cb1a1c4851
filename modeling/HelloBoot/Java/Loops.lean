import Mathlib.Data.List.Basic
import Mathlib.Data.List.Forall2

/-!
# Loops that may throw

A loop whose rounds all return does what the pure loop does, and returns only then; a
round that throws whatever came before it makes the loop throw.
-/

namespace HelloBoot.Loops

variable {α β γ ε : Type*}

theorem foldlM_error {f : β → α → Except ε β} {l : List α} {a : α} (ha : a ∈ l)
    (hf : ∀ b, ∃ t, f b a = .error t) (b : β) : ∃ t, l.foldlM f b = .error t := by
  induction l generalizing b with
  | nil => cases ha
  | cons a' l ih =>
      rw [List.foldlM_cons]
      cases hstep : f b a' with
      | error t => exact ⟨t, rfl⟩
      | ok b' =>
          rcases List.mem_cons.mp ha with rfl | ha
          · obtain ⟨t, ht⟩ := hf b
            cases ht.symm.trans hstep
          · exact ih ha b'

theorem foldlM_fixed {f : β → α → Except ε β} {l : List α} {b : β}
    (h : ∀ a ∈ l, f b a = .ok b) : l.foldlM f b = .ok b := by
  induction l with
  | nil => rfl
  | cons a l ih =>
      obtain ⟨ha, hl⟩ := List.forall_mem_cons.mp h
      rw [List.foldlM_cons, ha]
      exact ih hl

theorem foldlM_ok {f : β → α → Except ε β} {l : List α} {I : β → Prop}
    (hf : ∀ a ∈ l, ∀ b, I b → ∃ b', f b a = .ok b' ∧ I b') {b : β} (hb : I b) :
    ∃ b', l.foldlM f b = .ok b' ∧ I b' := by
  induction l generalizing b with
  | nil => exact ⟨b, rfl, hb⟩
  | cons a l ih =>
      obtain ⟨ha, hl⟩ := List.forall_mem_cons.mp hf
      obtain ⟨b', hb', hI⟩ := ha b hb
      obtain ⟨b'', hb'', hI'⟩ := ih hl hI
      refine ⟨b'', ?_, hI'⟩
      rw [List.foldlM_cons, hb']
      exact hb''

/-- A loop on a state of which the rounds use a part only. -/
theorem map_foldlM {f : β → α → Except ε β} {f' : γ → α → Except ε γ} {g : β → γ}
    (h : ∀ b a, (f b a).map g = f' (g b) a) (l : List α) (b : β) :
    (l.foldlM f b).map g = l.foldlM f' (g b) := by
  induction l generalizing b with
  | nil => rfl
  | cons a l ih =>
      rw [List.foldlM_cons, List.foldlM_cons, ← h]
      cases f b a with
      | error t => rfl
      | ok b' => exact ih b'

theorem exists_of_bind_eq_ok.{u} {α β : Type u} {x : Except ε α} {f : α → Except ε β} {b : β}
    (h : x >>= f = .ok b) : ∃ a, x = .ok a ∧ f a = .ok b := by
  cases x with
  | error t => cases h
  | ok a => exact ⟨a, rfl, h⟩

/-- When a loop returns, every round does, on a state with the invariant of the rounds
before it. -/
theorem exists_round_of_foldlM_ok {f : β → α → Except ε β} {l : List α} {I : β → Prop}
    (hf : ∀ a ∈ l, ∀ b b', I b → f b a = .ok b' → I b') {b b' : β} (hb : I b)
    (h : l.foldlM f b = .ok b') : I b' ∧ ∀ a ∈ l, ∃ c c', I c ∧ f c a = .ok c' := by
  induction l generalizing b with
  | nil =>
      cases h
      exact ⟨hb, nofun⟩
  | cons a l ih =>
      obtain ⟨ha, hl⟩ := List.forall_mem_cons.mp hf
      rw [List.foldlM_cons] at h
      obtain ⟨c, hc, h⟩ := exists_of_bind_eq_ok h
      obtain ⟨hlast, hrounds⟩ := ih hl (ha b c hb hc) h
      exact ⟨hlast, List.forall_mem_cons.mpr ⟨⟨b, c, hb, hc⟩, hrounds⟩⟩

theorem mapM_ok {f : α → Except ε β} {g : α → β} {l : List α} (h : ∀ a ∈ l, f a = .ok (g a)) :
    l.mapM f = .ok (l.map g) := by
  induction l with
  | nil => rfl
  | cons a l ih =>
      obtain ⟨ha, hl⟩ := List.forall_mem_cons.mp h
      rw [List.mapM_cons, ha, ih hl]
      rfl

theorem forall₂_of_mapM_ok {f : α → Except ε β} {l : List α} {l' : List β}
    (h : l.mapM f = .ok l') : List.Forall₂ (fun a b => f a = .ok b) l l' := by
  induction l generalizing l' with
  | nil =>
      cases h
      exact .nil
  | cons a l ih =>
      rw [List.mapM_cons] at h
      obtain ⟨b, hb, h⟩ := exists_of_bind_eq_ok h
      obtain ⟨bs, hbs, h⟩ := exists_of_bind_eq_ok h
      cases h
      exact .cons hb (ih hbs)

theorem exists_of_mem_of_mapM_ok {f : α → Except ε β} {l : List α} {l' : List β}
    (h : l.mapM f = .ok l') {b : β} (hb : b ∈ l') : ∃ a ∈ l, f a = .ok b := by
  have hrounds := forall₂_of_mapM_ok h
  clear h
  induction hrounds with
  | nil => cases hb
  | cons hround _ ih =>
      rcases List.mem_cons.mp hb with rfl | hb
      · exact ⟨_, List.mem_cons_self, hround⟩
      · obtain ⟨a, ha, hround⟩ := ih hb
        exact ⟨a, .tail _ ha, hround⟩

theorem mapM_ok_of_forall₂ {f : α → Except ε β} {l : List α} {l' : List β}
    (h : List.Forall₂ (fun a b => f a = .ok b) l l') : l.mapM f = .ok l' := by
  induction h with
  | nil => rfl
  | cons hround _ ih =>
      rw [List.mapM_cons, hround, ih]
      rfl

theorem exists_mapM_ok {f : α → Except ε β} {R : α → β → Prop} {l : List α}
    (h : ∀ a ∈ l, ∃ b, f a = .ok b ∧ R a b) :
    ∃ l', l.mapM f = .ok l' ∧ List.Forall₂ R l l' := by
  induction l with
  | nil => exact ⟨[], rfl, .nil⟩
  | cons a l ih =>
      obtain ⟨⟨b, hb, hR⟩, hl⟩ := List.forall_mem_cons.mp h
      obtain ⟨l', hl', hR'⟩ := ih hl
      refine ⟨b :: l', ?_, .cons hR hR'⟩
      rw [List.mapM_cons, hb, hl']
      rfl

/-- A loop of which every round either returns a given value or throws. -/
theorem mapM_eq_ok_iff {f : α → Except ε β} {p : α → Prop} {g : α → β} {l : List α} (l' : List β)
    (h : ∀ a ∈ l, ∀ b, f a = .ok b ↔ p a ∧ b = g a) :
    l.mapM f = .ok l' ↔ (∀ a ∈ l, p a) ∧ l' = l.map g := by
  constructor
  · intro hrun
    have hrounds := forall₂_of_mapM_ok hrun
    clear hrun
    induction hrounds with
    | nil => exact ⟨nofun, rfl⟩
    | @cons a b l l' hround _ ih =>
        obtain ⟨ha, hl⟩ := List.forall_mem_cons.mp h
        obtain ⟨hp, rfl⟩ := (ha b).mp hround
        obtain ⟨hall, rfl⟩ := ih hl
        exact ⟨List.forall_mem_cons.mpr ⟨hp, hall⟩, rfl⟩
  · rintro ⟨hall, rfl⟩
    exact mapM_ok fun a ha => (h a ha _).mpr ⟨hall a ha, rfl⟩

end HelloBoot.Loops
