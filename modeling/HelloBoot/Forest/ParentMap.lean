import HelloBoot.Forest.RoseTree

/-!
# Forests given by parent pointers

A `ParentMap` is a finite list of items, some of them marked as roots, in which
every item names at most one parent. Nothing forbids a parent chain that stops
at an item which is no root, or one that runs in a circle. `IsForest M ts` says
that `ts` is the forest which the parent pointers describe: its trees stand at
the roots, in the order of the items, and below every node stand the items
which name it, in the order of the items. Such a forest always exists
(`exists_isForest`), it repeats no item (`IsForest.nodup`), and it holds exactly
the items whose parent chain ends in a root (`IsForest.mem_preorderAll`).
-/

namespace Forest

open RoseTree

/-- Items with marked roots, each naming at most one parent among the items. -/
structure ParentMap (α : Type*) where
  items : List α
  nodup : items.Nodup
  root : α → Bool
  parent : α → Option α
  parent_root : ∀ r, root r = true → parent r = none
  parent_mem : ∀ a b, parent b = some a → a ∈ items

namespace ParentMap

variable {α : Type*} (M : ParentMap α)

def roots : List α := M.items.filter M.root

def children [DecidableEq α] (a : α) : List α :=
  M.items.filter fun b => M.parent b = some a

/-- The item reached from `x` after following `k` parent pointers. -/
def ancestor : ℕ → α → Option α
  | 0, x => some x
  | k + 1, x => (M.parent x).bind (ancestor k)

/-- The chain from `x` meets a root after exactly `k` pointers. -/
def RootedAt (k : ℕ) (x : α) : Prop :=
  ∃ r, M.ancestor k x = some r ∧ M.root r = true

def Rooted (x : α) : Prop := ∃ k, M.RootedAt k x

variable {M}

@[simp] theorem mem_children [DecidableEq α] {a b : α} :
    b ∈ M.children a ↔ b ∈ M.items ∧ M.parent b = some a := by
  simp [children]

@[simp] theorem mem_roots {r : α} : r ∈ M.roots ↔ r ∈ M.items ∧ M.root r = true := by
  simp [roots]

theorem nodup_children [DecidableEq α] (a : α) : (M.children a).Nodup :=
  M.nodup.filter _

theorem nodup_roots : M.roots.Nodup := M.nodup.filter _

@[simp] theorem ancestor_zero (x : α) : M.ancestor 0 x = some x := rfl

theorem ancestor_succ (k : ℕ) (x : α) :
    M.ancestor (k + 1) x = (M.parent x).bind (M.ancestor k) := rfl

theorem ancestor_succ_of_parent {a b : α} (h : M.parent b = some a) (k : ℕ) :
    M.ancestor (k + 1) b = M.ancestor k a := by
  rw [ancestor_succ, h, Option.bind_some]

theorem ancestor_add (k l : ℕ) (x : α) :
    M.ancestor (k + l) x = (M.ancestor k x).bind (M.ancestor l) := by
  induction k generalizing x with
  | zero => simp
  | succ k ih =>
      rw [Nat.succ_add, ancestor_succ, ancestor_succ, Option.bind_assoc]
      exact Option.bind_congr fun a _ => ih a

theorem ancestor_eq_none_of_rootedAt {k l : ℕ} {x : α} (h : M.RootedAt k x)
    (hkl : k < l) : M.ancestor l x = none := by
  obtain ⟨r, hr, hroot⟩ := h
  obtain ⟨j, rfl⟩ := Nat.exists_eq_add_of_lt hkl
  rw [Nat.add_assoc, ancestor_add, hr, Option.bind_some, ancestor_succ,
    M.parent_root r hroot, Option.bind_none]

theorem rootedAt_succ_iff {k : ℕ} {a b : α} (h : M.parent b = some a) :
    M.RootedAt (k + 1) b ↔ M.RootedAt k a := by
  rw [RootedAt, RootedAt, ancestor_succ_of_parent h]

theorem rootedAt_zero_iff {x : α} : M.RootedAt 0 x ↔ M.root x = true := by
  simp [RootedAt]

theorem RootedAt.exists_parent {k : ℕ} {b : α} (h : M.RootedAt (k + 1) b) :
    ∃ a, M.parent b = some a ∧ M.RootedAt k a := by
  obtain ⟨r, hr, hroot⟩ := h
  rw [ancestor_succ] at hr
  obtain ⟨a, hparent, ha⟩ := Option.bind_eq_some_iff.mp hr
  exact ⟨a, hparent, r, ha, hroot⟩

/-- A chain that ends in a root never comes back to where it started. -/
theorem Rooted.ancestor_succ_ne {a : α} (h : M.Rooted a) (k : ℕ) :
    M.ancestor (k + 1) a ≠ some a := by
  intro hcycle
  obtain ⟨d, hd⟩ := h
  have hsame : M.ancestor (k + 1 + d) a = M.ancestor d a := by
    rw [ancestor_add, hcycle, Option.bind_some]
  obtain ⟨r, hr, -⟩ := id hd
  rw [ancestor_eq_none_of_rootedAt hd (by omega), hr] at hsame
  cases hsame

theorem Rooted.of_parent {a b : α} (ha : M.Rooted a) (h : M.parent b = some a) :
    M.Rooted b := by
  obtain ⟨k, hk⟩ := ha
  exact ⟨k + 1, (rootedAt_succ_iff h).mpr hk⟩

/-- The chain of an item rooted at depth `d` visits `d + 1` different items. -/
theorem RootedAt.exists_path {d : ℕ} {x : α} (hx : x ∈ M.items)
    (h : M.RootedAt d x) :
    ∃ p : List α, p.Nodup ∧ p.length = d + 1 ∧ p ⊆ M.items ∧
      ∀ y ∈ p, ∃ i, M.ancestor i x = some y := by
  induction d generalizing x with
  | zero =>
      refine ⟨[x], by simp, rfl, by simpa using hx, fun y hy => ⟨0, ?_⟩⟩
      rw [List.mem_singleton.mp hy, ancestor_zero]
  | succ d ih =>
      obtain ⟨a, hparent, ha⟩ := h.exists_parent
      obtain ⟨p, hnodup, hlength, hsub, hanc⟩ := ih (M.parent_mem a x hparent) ha
      have hnot : x ∉ p := by
        intro hmem
        obtain ⟨i, hi⟩ := hanc x hmem
        apply Rooted.ancestor_succ_ne ⟨d + 1, h⟩ i
        rw [ancestor_succ_of_parent hparent, hi]
      refine ⟨x :: p, List.nodup_cons.mpr ⟨hnot, hnodup⟩, by simp [hlength],
        List.cons_subset.mpr ⟨hx, hsub⟩, ?_⟩
      intro y hy
      rcases List.mem_cons.mp hy with rfl | hy
      · exact ⟨0, ancestor_zero y⟩
      · obtain ⟨i, hi⟩ := hanc y hy
        exact ⟨i + 1, by rw [ancestor_succ_of_parent hparent, hi]⟩

theorem RootedAt.lt_length {d : ℕ} {x : α} (hx : x ∈ M.items)
    (h : M.RootedAt d x) : d < M.items.length := by
  obtain ⟨p, hnodup, hlength, hsub, -⟩ := h.exists_path hx
  have hle := (List.subperm_of_subset hnodup hsub).length_le
  omega

/-- Two ancestors of one item are equal when neither is above the other. -/
theorem ancestor_eq_of_incomparable {k l : ℕ} {x u v : α}
    (hu : M.ancestor k x = some u) (hv : M.ancestor l x = some v)
    (huv : ∀ j, M.ancestor (j + 1) u ≠ some v)
    (hvu : ∀ j, M.ancestor (j + 1) v ≠ some u) : u = v := by
  rcases Nat.lt_trichotomy k l with hlt | rfl | hlt
  · obtain ⟨j, rfl⟩ := Nat.exists_eq_add_of_lt hlt
    rw [Nat.add_assoc, ancestor_add, hu, Option.bind_some] at hv
    exact absurd hv (huv j)
  · exact Option.some.inj (hu.symm.trans hv)
  · obtain ⟨j, rfl⟩ := Nat.exists_eq_add_of_lt hlt
    rw [Nat.add_assoc, ancestor_add, hv, Option.bind_some] at hu
    exact absurd hu (hvu j)

section Forests

variable [DecidableEq α]

/-- Below every rooted item the parent pointers unfold to a finite tree. -/
theorem RootedAt.exists_unfolds (n : ℕ) {a : α} {d : ℕ} (ha : a ∈ M.items)
    (h : M.RootedAt d a) (hn : M.items.length ≤ n + d) :
    ∃ t : RoseTree α, t.value = a ∧ Unfolds M.children t := by
  induction n generalizing a d with
  | zero =>
      have hlt := h.lt_length ha
      omega
  | succ n ih =>
      have hchild : ∀ b ∈ M.children a,
          ∃ t : RoseTree α, t.value = b ∧ Unfolds M.children t := by
        intro b hb
        obtain ⟨hmem, hparent⟩ := mem_children.mp hb
        exact ih hmem ((rootedAt_succ_iff hparent).mpr h) (by omega)
      obtain ⟨ts, hvalues, hsub⟩ := exists_map_value_eq hchild
      exact ⟨.node a ts, rfl, .node hvalues hsub⟩

/-- `ts` is the forest that the parent pointers describe. -/
structure IsForest (M : ParentMap α) (ts : List (RoseTree α)) : Prop where
  values : ts.map value = M.roots
  unfolds : ∀ t ∈ ts, Unfolds M.children t

variable (M) in
theorem exists_isForest : ∃ ts, M.IsForest ts := by
  have hroot : ∀ r ∈ M.roots, ∃ t : RoseTree α, t.value = r ∧ Unfolds M.children t := by
    intro r hr
    obtain ⟨hmem, hroot⟩ := mem_roots.mp hr
    exact (rootedAt_zero_iff.mpr hroot).exists_unfolds M.items.length hmem le_rfl
  obtain ⟨ts, hvalues, hsub⟩ := exists_map_value_eq hroot
  exact ⟨ts, hvalues, hsub⟩

theorem mem_items_of_mem_preorder {t : RoseTree α} (ht : Unfolds M.children t)
    (hroot : t.value ∈ M.items) {x : α} (hx : x ∈ preorder t) : x ∈ M.items := by
  induction ht with
  | @node a ts hvalues hsub ih =>
      rcases List.mem_cons.mp (preorder_node a ts ▸ hx) with rfl | hx
      · exact hroot
      · obtain ⟨t, ht, hxt⟩ := mem_preorderAll.mp hx
        have hchild : t.value ∈ M.children a := hvalues ▸ List.mem_map_of_mem ht
        exact ih t ht (mem_children.mp hchild).1 hxt

/-- Every node of an unfolded tree has the root of the tree as an ancestor. -/
theorem exists_ancestor_of_mem_preorder {t : RoseTree α} (ht : Unfolds M.children t)
    {x : α} (hx : x ∈ preorder t) : ∃ k, M.ancestor k x = some t.value := by
  induction ht with
  | @node a ts hvalues hsub ih =>
      rcases List.mem_cons.mp (preorder_node a ts ▸ hx) with rfl | hx
      · exact ⟨0, rfl⟩
      · obtain ⟨t, ht, hxt⟩ := mem_preorderAll.mp hx
        obtain ⟨k, hk⟩ := ih t ht hxt
        have hchild : t.value ∈ M.children a := hvalues ▸ List.mem_map_of_mem ht
        refine ⟨k + 1, ?_⟩
        rw [ancestor_add, hk, Option.bind_some,
          ancestor_succ_of_parent (mem_children.mp hchild).2, ancestor_zero, value_node]

/-- Trees at different, pairwise incomparable values share no item. -/
theorem nodup_preorderAll_of_incomparable {ts : List (RoseTree α)}
    (hsub : ∀ t ∈ ts, Unfolds M.children t) (hts : ∀ t ∈ ts, (preorder t).Nodup)
    (hvalues : (ts.map value).Nodup)
    (hinc : ∀ u ∈ ts.map value, ∀ v ∈ ts.map value, ∀ j,
      M.ancestor (j + 1) u ≠ some v) :
    (preorderAll ts).Nodup := by
  rw [preorderAll_eq_flatMap, List.nodup_flatMap]
  refine ⟨hts, (List.pairwise_map.mp hvalues).imp_of_mem ?_⟩
  intro t t' ht ht' hne x hx hx'
  obtain ⟨k, hk⟩ := exists_ancestor_of_mem_preorder (hsub t ht) hx
  obtain ⟨l, hl⟩ := exists_ancestor_of_mem_preorder (hsub t' ht') hx'
  have hmem := List.mem_map_of_mem (f := value) ht
  have hmem' := List.mem_map_of_mem (f := value) ht'
  exact hne (ancestor_eq_of_incomparable hk hl (hinc _ hmem _ hmem') (hinc _ hmem' _ hmem))

/-- The tree below a rooted item repeats no item. -/
theorem nodup_preorder {t : RoseTree α} (ht : Unfolds M.children t)
    (hroot : M.Rooted t.value) : (preorder t).Nodup := by
  induction ht with
  | @node a ts hvalues hsub ih =>
      have hparent : ∀ u ∈ ts.map value, M.parent u = some a := by
        intro u hu
        exact (mem_children.mp (hvalues ▸ hu)).2
      -- a chain from one child to another would run through `a` twice
      have hinc : ∀ u ∈ ts.map value, ∀ v ∈ ts.map value, ∀ j,
          M.ancestor (j + 1) u ≠ some v := by
        intro u hu v hv j hj
        rw [ancestor_succ_of_parent (hparent u hu)] at hj
        apply hroot.ancestor_succ_ne j
        rw [value_node, ancestor_add, hj, Option.bind_some,
          ancestor_succ_of_parent (hparent v hv), ancestor_zero]
      have hbelow : a ∉ preorderAll ts := by
        intro hmem
        obtain ⟨t, ht, hat⟩ := mem_preorderAll.mp hmem
        obtain ⟨k, hk⟩ := exists_ancestor_of_mem_preorder (hsub t ht) hat
        apply hroot.ancestor_succ_ne k
        rw [value_node, ancestor_add, hk, Option.bind_some,
          ancestor_succ_of_parent (hparent _ (List.mem_map_of_mem ht)), ancestor_zero]
      have hts : ∀ t ∈ ts, (preorder t).Nodup := fun t ht =>
        ih t ht (hroot.of_parent (hparent _ (List.mem_map_of_mem ht)))
      rw [preorder_node, List.nodup_cons]
      exact ⟨hbelow, nodup_preorderAll_of_incomparable hsub hts
        (hvalues ▸ nodup_children a) hinc⟩

namespace IsForest

variable {ts : List (RoseTree α)} (h : M.IsForest ts)

include h

theorem root_of_mem {r : α} (hr : r ∈ ts.map value) :
    r ∈ M.items ∧ M.root r = true :=
  mem_roots.mp (h.values ▸ hr)

theorem nodup : (preorderAll ts).Nodup := by
  have hrooted : ∀ t ∈ ts, M.Rooted t.value := fun t ht =>
    ⟨0, rootedAt_zero_iff.mpr (h.root_of_mem (List.mem_map_of_mem ht)).2⟩
  refine nodup_preorderAll_of_incomparable h.unfolds
    (fun t ht => nodup_preorder (h.unfolds t ht) (hrooted t ht))
    (h.values ▸ nodup_roots) ?_
  intro u hu v _ j hj
  rw [ancestor_succ, M.parent_root u (h.root_of_mem hu).2, Option.bind_none] at hj
  cases hj

/-- The forest holds exactly the items whose chain ends in a root. -/
theorem mem_preorderAll {x : α} :
    x ∈ preorderAll ts ↔ x ∈ M.items ∧ M.Rooted x := by
  constructor
  · intro hx
    obtain ⟨t, ht, hxt⟩ := RoseTree.mem_preorderAll.mp hx
    obtain ⟨hmem, hroot⟩ := h.root_of_mem (List.mem_map_of_mem ht)
    obtain ⟨k, hk⟩ := exists_ancestor_of_mem_preorder (h.unfolds t ht) hxt
    exact ⟨mem_items_of_mem_preorder (h.unfolds t ht) hmem hxt, k, t.value, hk, hroot⟩
  · rintro ⟨hmem, k, hk⟩
    induction k generalizing x with
    | zero =>
        have hr : x ∈ ts.map value :=
          h.values ▸ mem_roots.mpr ⟨hmem, rootedAt_zero_iff.mp hk⟩
        obtain ⟨t, ht, rfl⟩ := List.mem_map.mp hr
        exact RoseTree.mem_preorderAll.mpr ⟨t, ht, value_mem_preorder t⟩
    | succ k ih =>
        obtain ⟨a, hparent, ha⟩ := hk.exists_parent
        obtain ⟨t, ht, hat⟩ := RoseTree.mem_preorderAll.mp (ih (M.parent_mem a x hparent) ha)
        exact RoseTree.mem_preorderAll.mpr
          ⟨t, ht, (h.unfolds t ht).next_mem hat (mem_children.mpr ⟨hmem, hparent⟩)⟩

/-- No tree of the forest is higher than there are items. -/
theorem height_le {t : RoseTree α} (ht : t ∈ ts) : t.height ≤ M.items.length := by
  have hsub : preorderAll ts ⊆ M.items := fun x hx => (h.mem_preorderAll.mp hx).1
  have hlength := (List.subperm_of_subset h.nodup hsub).length_le
  calc t.height ≤ (preorder t).length := height_le_length_preorder t
    _ ≤ (preorderAll ts).length := (preorder_sublist_preorderAll ht).length_le
    _ ≤ M.items.length := hlength

end IsForest

/-- A forest without repetitions is the forest of the parent pointers read off
it: the items are its values, the roots the values of its trees, and an item
names `a` exactly when it stands right below `a`. -/
theorem isForest_of_unfolds {next : α → List α} {ts : List (RoseTree α)}
    (hsub : ∀ t ∈ ts, Unfolds next t) (hitems : M.items = preorderAll ts)
    (hroot : ∀ x ∈ M.items, (M.root x = true ↔ x ∈ ts.map value))
    (hparent : ∀ x ∈ M.items, ∀ a ∈ M.items, (M.parent x = some a ↔ x ∈ next a)) :
    M.IsForest ts := by
  have hchildren : ∀ a ∈ M.items, M.children a = next a := by
    intro a ha
    have hsublist : (next a).Sublist M.items :=
      hitems ▸ next_sublist_preorderAll hsub (hitems ▸ ha)
    rw [children, ← filter_mem_eq_of_sublist M.nodup hsublist]
    exact List.filter_congr fun x hx => decide_eq_decide.mpr (hparent x hx a ha)
  refine ⟨?_, fun t ht => (hsub t ht).congr fun a ha => hchildren a ?_⟩
  · have hsublist : (ts.map value).Sublist M.items :=
      hitems ▸ map_value_sublist_preorderAll ts
    rw [roots, ← filter_mem_eq_of_sublist M.nodup hsublist]
    refine (List.filter_congr fun x hx => ?_).symm
    rw [← Bool.decide_coe (M.root x)]
    exact decide_eq_decide.mpr (hroot x hx)
  · rw [hitems]
    exact RoseTree.mem_preorderAll.mpr ⟨t, ht, ha⟩

end Forests

end ParentMap

end Forest
