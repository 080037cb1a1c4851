import Mathlib.Data.List.Nodup
import Mathlib.Data.List.Perm.Subperm
import Mathlib.Order.MinMax

/-!
# Finite ordered trees

`RoseTree α` is a finite tree whose nodes carry a value and an ordered list of
subtrees. `preorder` lists the values of a tree, a node before its subtrees,
and `preorderAll` does so for a forest. `Unfolds next t` says that `t` is what
a successor function `next` unfolds to: below every node `a` stand, in order,
exactly the elements of `next a`. A successor function unfolds to at most one
finite tree at each value, so the predicate reads `next` as an ordered graph
and `t` as the tree hanging below one of its vertices.
-/

namespace Forest

inductive RoseTree (α : Type*) where
  | node (value : α) (children : List (RoseTree α))

namespace RoseTree

def value {α : Type*} : RoseTree α → α
  | node a _ => a

@[simp] theorem value_node {α : Type*} (a : α) (ts : List (RoseTree α)) :
    (node a ts).value = a := rfl

/-- Structural induction with the hypothesis for every subtree. -/
@[elab_as_elim]
theorem induction {α : Type*} {motive : RoseTree α → Prop}
    (node : ∀ a ts, (∀ t ∈ ts, motive t) → motive (node a ts)) :
    ∀ t, motive t
  | .node a ts => node a ts fun t _ => induction node t

mutual

def preorder {α : Type*} : RoseTree α → List α
  | node a ts => a :: preorderAll ts

def preorderAll {α : Type*} : List (RoseTree α) → List α
  | [] => []
  | t :: ts => preorder t ++ preorderAll ts

end

@[simp] theorem preorder_node {α : Type*} (a : α) (ts : List (RoseTree α)) :
    preorder (node a ts) = a :: preorderAll ts := by
  rw [preorder]

@[simp] theorem preorderAll_nil {α : Type*} :
    preorderAll ([] : List (RoseTree α)) = [] := by
  rw [preorderAll]

@[simp] theorem preorderAll_cons {α : Type*} (t : RoseTree α) (ts : List (RoseTree α)) :
    preorderAll (t :: ts) = preorder t ++ preorderAll ts := by
  rw [preorderAll]

theorem preorderAll_eq_flatMap {α : Type*} (ts : List (RoseTree α)) :
    preorderAll ts = ts.flatMap preorder := by
  induction ts with
  | nil => simp
  | cons t ts ih => simp [ih]

theorem mem_preorderAll {α : Type*} {ts : List (RoseTree α)} {x : α} :
    x ∈ preorderAll ts ↔ ∃ t ∈ ts, x ∈ preorder t := by
  simp [preorderAll_eq_flatMap]

theorem preorder_sublist_preorderAll {α : Type*} {ts : List (RoseTree α)} {t : RoseTree α}
    (ht : t ∈ ts) : (preorder t).Sublist (preorderAll ts) := by
  rw [preorderAll_eq_flatMap]
  exact List.sublist_flatten_of_mem (List.mem_map_of_mem ht)

/-- The roots of a forest stand in its preorder, in the same order. -/
theorem map_value_sublist_preorderAll {α : Type*} (ts : List (RoseTree α)) :
    (ts.map value).Sublist (preorderAll ts) := by
  induction ts with
  | nil => simp
  | cons t ts ih =>
      cases t with
      | node a us =>
          rw [List.map_cons, value_node, preorderAll_cons, preorder_node, List.cons_append]
          exact (ih.trans (List.sublist_append_right _ _)).cons_cons a

theorem value_mem_preorder {α : Type*} (t : RoseTree α) : t.value ∈ preorder t := by
  cases t with
  | node a ts => simp

mutual

def height {α : Type*} : RoseTree α → ℕ
  | node _ ts => heightAll ts + 1

def heightAll {α : Type*} : List (RoseTree α) → ℕ
  | [] => 0
  | t :: ts => max (height t) (heightAll ts)

end

@[simp] theorem height_node {α : Type*} (a : α) (ts : List (RoseTree α)) :
    height (node a ts) = heightAll ts + 1 := by
  rw [height]

theorem heightAll_le_iff {α : Type*} {ts : List (RoseTree α)} {n : ℕ} :
    heightAll ts ≤ n ↔ ∀ t ∈ ts, height t ≤ n := by
  induction ts with
  | nil => simp [heightAll]
  | cons t ts ih => simp [heightAll, ih]

theorem height_le_heightAll {α : Type*} {ts : List (RoseTree α)} {t : RoseTree α}
    (ht : t ∈ ts) : height t ≤ heightAll ts :=
  heightAll_le_iff.mp le_rfl t ht

/-- A tree is at most as high as it has nodes. -/
theorem height_le_length_preorder {α : Type*} (t : RoseTree α) :
    height t ≤ (preorder t).length := by
  induction t using induction with
  | node a ts ih =>
      simp only [height_node, preorder_node, List.length_cons, Nat.add_le_add_iff_right]
      exact heightAll_le_iff.mpr fun t ht =>
        (ih t ht).trans (preorder_sublist_preorderAll ht).length_le

theorem exists_map_value_eq {α : Type*} {P : RoseTree α → Prop} {l : List α}
    (h : ∀ a ∈ l, ∃ t : RoseTree α, t.value = a ∧ P t) :
    ∃ ts : List (RoseTree α), ts.map value = l ∧ ∀ t ∈ ts, P t := by
  induction l with
  | nil => exact ⟨[], rfl, by simp⟩
  | cons a l ih =>
      obtain ⟨t, hvalue, ht⟩ := h a List.mem_cons_self
      obtain ⟨ts, hvalues, hts⟩ := ih fun b hb => h b (List.mem_cons_of_mem a hb)
      refine ⟨t :: ts, by simp [hvalue, hvalues], ?_⟩
      simpa using ⟨ht, hts⟩

/-- `t` is the tree that the successor function `next` unfolds to: below every
node stand, in order, the successors of its value. -/
inductive Unfolds {α : Type*} (next : α → List α) : RoseTree α → Prop
  | node {a : α} {ts : List (RoseTree α)} (hvalues : ts.map value = next a)
      (hsub : ∀ t ∈ ts, Unfolds next t) : Unfolds next (node a ts)

theorem unfolds_node_iff {α : Type*} {next : α → List α} {a : α}
    {ts : List (RoseTree α)} :
    Unfolds next (node a ts) ↔
      ts.map value = next a ∧ ∀ t ∈ ts, Unfolds next t := by
  constructor
  · rintro ⟨hvalues, hsub⟩
    exact ⟨hvalues, hsub⟩
  · rintro ⟨hvalues, hsub⟩
    exact .node hvalues hsub

/-- Only the successors of the tree's own values matter. -/
theorem Unfolds.congr {α : Type*} {next next' : α → List α} {t : RoseTree α}
    (h : Unfolds next t) (heq : ∀ a ∈ preorder t, next' a = next a) :
    Unfolds next' t := by
  induction h with
  | @node a ts hvalues hsub ih =>
      refine .node (hvalues.trans (heq a (by simp)).symm) fun t ht => ?_
      refine ih t ht fun b hb => heq b ?_
      rw [preorder_node]
      exact List.mem_cons_of_mem a (mem_preorderAll.mpr ⟨t, ht, hb⟩)

/-- The successors of a value of the tree are values of the tree. -/
theorem Unfolds.next_mem {α : Type*} {next : α → List α} {t : RoseTree α}
    (h : Unfolds next t) {a b : α} (ha : a ∈ preorder t) (hb : b ∈ next a) :
    b ∈ preorder t := by
  induction h with
  | @node c ts hvalues hsub ih =>
      rw [preorder_node, List.mem_cons] at ha ⊢
      refine .inr (mem_preorderAll.mpr ?_)
      rcases ha with rfl | ha
      · rw [← hvalues] at hb
        obtain ⟨t, ht, rfl⟩ := List.mem_map.mp hb
        exact ⟨t, ht, value_mem_preorder t⟩
      · obtain ⟨t, ht, hat⟩ := mem_preorderAll.mp ha
        exact ⟨t, ht, ih t ht hat⟩

/-- A value of the forest is the root of one of its trees or a successor. -/
theorem mem_values_or_mem_next {α : Type*} {next : α → List α} {ts : List (RoseTree α)}
    (hsub : ∀ t ∈ ts, Unfolds next t) {x : α} (hx : x ∈ preorderAll ts) :
    x ∈ ts.map value ∨ ∃ a ∈ preorderAll ts, x ∈ next a := by
  have htree : ∀ t : RoseTree α, Unfolds next t → x ∈ preorder t →
      x = t.value ∨ ∃ a ∈ preorder t, x ∈ next a := by
    intro t ht
    induction ht with
    | @node b us hvalues _ ih =>
        intro hmem
        rcases List.mem_cons.mp (preorder_node b us ▸ hmem) with rfl | hmem
        · exact .inl rfl
        · obtain ⟨u, hu, hxu⟩ := mem_preorderAll.mp hmem
          rw [preorder_node]
          rcases ih u hu hxu with rfl | ⟨a, ha, hxa⟩
          · exact .inr ⟨b, List.mem_cons_self, hvalues ▸ List.mem_map_of_mem hu⟩
          · exact .inr ⟨a, List.mem_cons_of_mem b (mem_preorderAll.mpr ⟨u, hu, ha⟩), hxa⟩
  obtain ⟨t, ht, hxt⟩ := mem_preorderAll.mp hx
  rcases htree t (hsub t ht) hxt with rfl | ⟨a, ha, hxa⟩
  · exact .inl (List.mem_map_of_mem ht)
  · exact .inr ⟨a, mem_preorderAll.mpr ⟨t, ht, ha⟩, hxa⟩

/-- The successors of a value of the forest stand in its preorder, in the same
order. -/
theorem next_sublist_preorderAll {α : Type*} {next : α → List α}
    {ts : List (RoseTree α)} (hsub : ∀ t ∈ ts, Unfolds next t) {a : α}
    (ha : a ∈ preorderAll ts) : (next a).Sublist (preorderAll ts) := by
  have htree : ∀ t : RoseTree α, Unfolds next t → a ∈ preorder t →
      (next a).Sublist (preorder t) := by
    intro t ht
    induction ht with
    | @node b us hvalues _ ih =>
        intro hmem
        rw [preorder_node]
        rcases List.mem_cons.mp (preorder_node b us ▸ hmem) with rfl | hmem
        · rw [← hvalues]
          exact (map_value_sublist_preorderAll us).cons a
        · obtain ⟨u, hu, hau⟩ := mem_preorderAll.mp hmem
          exact ((ih u hu hau).trans (preorder_sublist_preorderAll hu)).cons b
  obtain ⟨t, ht, hat⟩ := mem_preorderAll.mp ha
  exact (htree t (hsub t ht) hat).trans (preorder_sublist_preorderAll ht)

/-- Picking the elements of a sublist out of a list without repetitions gives
the sublist back. -/
theorem filter_mem_eq_of_sublist {α : Type*} [DecidableEq α] {s l : List α}
    (hnodup : l.Nodup) (h : s.Sublist l) : l.filter (fun x => x ∈ s) = s := by
  have hsub : s.Sublist (l.filter fun x => x ∈ s) := by
    have hself : s.filter (fun x => x ∈ s) = s := List.filter_eq_self.mpr (by simp)
    have hfilter := h.filter fun x => decide (x ∈ s)
    rwa [hself] at hfilter
  have hmem : (l.filter fun x => x ∈ s) ⊆ s := fun x hx => by
    simpa using (List.mem_filter.mp hx).2
  exact (hsub.eq_of_length_le
    (List.subperm_of_subset (hnodup.filter _) hmem).length_le).symm

end RoseTree

end Forest
