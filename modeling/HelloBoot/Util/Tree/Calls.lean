import HelloBoot.Util.Tree.Separate
import Mathlib.Algebra.BigOperators.Group.Finset.Basic
import Mathlib.Algebra.Order.BigOperators.Group.Finset

/-!
# How often `addTreeNode` is called

Ids and pids may be null, repeated, or lead in circles, but `addTreeNode` visits an
element only after it has given a node a child of an id that the node had no child of
before. So the calls, other than those for the roots, are counted by the pairs of a node
and an id (`listToTree_ends`), and no more stack is needed than there are such pairs.
-/

namespace HelloBoot.TreeUtil

variable {ε : Type} {list : List Ref} {ids pids : Ref → Option String} {h : Heap ε}

def countedRound (visit : Ref → Heap ε × ℕ → Except Throwable (Heap ε × ℕ)) (node : Ref)
    (objId : Option String) (s : Heap ε × ℕ) (t : Ref) : Except Throwable (Heap ε × ℕ) :=
  let childrenList := s.1.childrenOf node
  let objPid := (s.1 t).pid
  if objId ≠ objPid then pure s
  else
    let collect := childrenList.filter fun f => (s.1 f).id = (s.1 t).id
    if collect ≠ [] then pure s
    else visit t (s.1.setChildren node (some (childrenList ++ [t])), s.2)

def addTreeNodeCounted (list : List Ref) :
    ℕ → Ref → Heap ε × ℕ → Except Throwable (Heap ε × ℕ)
  | 0, _, _ => throw .stackOverflow
  | depth + 1, node, s =>
      let objId := (s.1 node).id
      list.foldlM (countedRound (addTreeNodeCounted list depth) node objId) (s.1, s.2 + 1)

def listToTreeCounted (equals : Heap ε → Ref → Ref → Except Throwable Bool) (depth : ℕ)
    (list : List Ref) (h : Heap ε) : Except Throwable (Built ε × ℕ) :=
  if list = [] then pure (⟨h, list, list⟩, 0)
  else do
    let rootList := list.filter fun t => isEmpty (h t).pid
    let list ← removeAll (equals h) rootList list
    let s ← rootList.foldlM (fun s it => addTreeNodeCounted list depth it s) (h, 0)
    pure (⟨s.1, list, rootList⟩, s.2)

/-- Counting changes nothing. -/
theorem map_addTreeNodeCounted (list : List Ref) (depth : ℕ) (node : Ref) (s : Heap ε × ℕ) :
    (addTreeNodeCounted list depth node s).map Prod.fst = addTreeNode list depth node s.1 := by
  induction depth generalizing node s with
  | zero => rfl
  | succ depth ih =>
      refine Loops.map_foldlM (fun s t => ?_) list _
      simp only [countedRound]
      split
      case isTrue => rfl
      case isFalse =>
          split
          case isTrue => rfl
          case isFalse => exact ih t _

theorem map_foldlM_counted (list : List Ref) (depth : ℕ) (roots : List Ref) (s : Heap ε × ℕ) :
    (roots.foldlM (fun s it => addTreeNodeCounted list depth it s) s).map Prod.fst =
      roots.foldlM (fun h it => addTreeNode list depth it h) s.1 :=
  Loops.map_foldlM (fun s it => map_addTreeNodeCounted list depth it s) roots s

theorem map_listToTreeCounted (equals : Heap ε → Ref → Ref → Except Throwable Bool) (depth : ℕ)
    (list : List Ref) (h : Heap ε) :
    (listToTreeCounted equals depth list h).map Prod.fst = listToTree equals depth list h := by
  unfold listToTreeCounted listToTree
  split
  case isTrue => rfl
  case isFalse =>
      simp only [bind, Except.bind]
      cases removeAll (equals h) (list.filter fun t => isEmpty (h t).pid) list with
      | error t => rfl
      | ok kept =>
          simp only [← map_foldlM_counted kept depth _ (h, 0)]
          cases (list.filter fun t => isEmpty (h t).pid).foldlM
            (fun s it => addTreeNodeCounted kept depth it s) (h, 0) <;> rfl

/-- The children of every element are elements, with distinct ids. -/
structure DistinctChildren (list : List Ref) (ids pids : Ref → Option String) (h : Heap ε) :
    Prop where
  keys : h.Keys ids pids
  nodup : ∀ v ∈ list, ((h.childrenOf v).map ids).Nodup
  subset : ∀ v ∈ list, h.childrenOf v ⊆ list

def linkCount (list : List Ref) (h : Heap ε) : ℕ :=
  ∑ v ∈ list.toFinset, (h.childrenOf v).length

def pairCount (list : List Ref) (ids : Ref → Option String) : ℕ :=
  list.length * (list.map ids).toFinset.card

theorem DistinctChildren.linkCount_le (hs : DistinctChildren list ids pids h) :
    linkCount list h ≤ pairCount list ids := by
  have hnode : ∀ v ∈ list.toFinset, (h.childrenOf v).length ≤ (list.map ids).toFinset.card := by
    intro v hv
    have hv' := List.mem_toFinset.mp hv
    have hlength : ((h.childrenOf v).map ids).length = (h.childrenOf v).length :=
      List.length_map ids
    rw [← hlength, ← List.toFinset_card_of_nodup (hs.nodup v hv')]
    exact Finset.card_le_card fun x hx => List.mem_toFinset.mpr
      (List.map_subset ids (hs.subset v hv') (List.mem_toFinset.mp hx))
  calc linkCount list h ≤ list.toFinset.card • (list.map ids).toFinset.card :=
        Finset.sum_le_card_nsmul _ _ _ hnode
    _ ≤ pairCount list ids := Nat.mul_le_mul_right _ (List.toFinset_card_le list)

theorem linkCount_extend {node : Ref} (hnode : node ∈ list) (h : Heap ε) (t : Ref) :
    linkCount list (h.extend node [t]) = linkCount list h + 1 := by
  have hmem := List.mem_toFinset.mpr hnode
  have hrest : ∑ v ∈ list.toFinset.erase node, ((h.extend node [t]).childrenOf v).length =
      ∑ v ∈ list.toFinset.erase node, (h.childrenOf v).length :=
    Finset.sum_congr rfl fun v hv => by
      rw [Heap.childrenOf_extend_of_ne (Finset.ne_of_mem_erase hv)]
  rw [linkCount, linkCount, ← Finset.add_sum_erase _ _ hmem, ← Finset.add_sum_erase _ _ hmem,
    hrest, Heap.childrenOf_extend_self, List.length_append, List.length_singleton]
  omega

theorem DistinctChildren.extend (hs : DistinctChildren list ids pids h) {node t : Ref}
    (ht : t ∈ list) (hnew : ∀ f ∈ h.childrenOf node, ids f ≠ ids t) :
    DistinctChildren list ids pids (h.extend node [t]) where
  keys := hs.keys.extend node [t]
  nodup v hv := by
    rcases eq_or_ne v node with rfl | hne
    · rw [Heap.childrenOf_extend_self, List.map_append, List.map_singleton,
        ← List.concat_eq_append]
      refine List.Nodup.concat (fun hmem => ?_) (hs.nodup v hv)
      obtain ⟨f, hf, hid⟩ := List.mem_map.mp hmem
      exact hnew f hf hid
    · rw [Heap.childrenOf_extend_of_ne hne]
      exact hs.nodup v hv
  subset v hv := by
    rcases eq_or_ne v node with rfl | hne
    · rw [Heap.childrenOf_extend_self]
      exact List.append_subset.mpr ⟨hs.subset v hv, by simpa using ht⟩
    · rw [Heap.childrenOf_extend_of_ne hne]
      exact hs.subset v hv

/-- What calls on the way from `s` to `s'` leave behind: as many links more as there were
calls, but for `n` of them. -/
structure Counted (list : List Ref) (ids pids : Ref → Option String) (n : ℕ)
    (s s' : Heap ε × ℕ) : Prop where
  distinct : DistinctChildren list ids pids s'.1
  le : linkCount list s.1 ≤ linkCount list s'.1
  calls : s'.2 + linkCount list s.1 = s.2 + n + linkCount list s'.1

theorem Counted.trans {n m : ℕ} {s s' s'' : Heap ε × ℕ} (h : Counted list ids pids n s s')
    (h' : Counted list ids pids m s' s'') : Counted list ids pids (n + m) s s'' where
  distinct := h'.distinct
  le := h.le.trans h'.le
  calls := by
    have hfirst := h.calls
    have hsecond := h'.calls
    omega

/-- The visit of a new child is the call that the link to it counts for. -/
theorem Counted.child {node t : Ref} {s s' : Heap ε × ℕ} (hnode : node ∈ list)
    (h : Counted list ids pids 1 (s.1.extend node [t], s.2) s') :
    Counted list ids pids 0 s s' where
  distinct := h.distinct
  le := by
    have hle := h.le
    rw [linkCount_extend hnode] at hle
    exact Nat.le_of_succ_le hle
  calls := by
    have hcalls := h.calls
    rw [linkCount_extend hnode] at hcalls
    omega

/-- A round passes over the element, or links and visits it as a child of a new id. -/
theorem countedRound_cases (visit : Ref → Heap ε × ℕ → Except Throwable (Heap ε × ℕ))
    (node : Ref) (objId : Option String) (t : Ref) {s : Heap ε × ℕ} (hkeys : s.1.Keys ids pids) :
    countedRound visit node objId s t = .ok s ∨
      (∀ f ∈ s.1.childrenOf node, ids f ≠ ids t) ∧
        countedRound visit node objId s t = visit t (s.1.extend node [t], s.2) := by
  simp only [countedRound]
  split
  case isTrue => exact .inl rfl
  case isFalse =>
      split
      case isTrue => exact .inl rfl
      case isFalse hcollect =>
          refine .inr ⟨fun f hf hid => hcollect ?_, ?_⟩
          · rw [← hkeys.id_eq, ← hkeys.id_eq] at hid
            exact List.ne_nil_of_mem (List.mem_filter.mpr ⟨hf, by simpa using hid⟩)
          · rw [Heap.setChildren_append_eq_extend]

/-- A visit returns on a stack that is deeper than there are pairs left to link, and is
one call more than it adds links. -/
theorem addTreeNodeCounted_ok {kept : List Ref} (hkept : kept ⊆ list) {depth : ℕ} {node : Ref}
    (hnode : node ∈ list) {s : Heap ε × ℕ} (hs : DistinctChildren list ids pids s.1)
    (hdepth : pairCount list ids < depth + linkCount list s.1) :
    ∃ s', addTreeNodeCounted kept depth node s = .ok s' ∧ Counted list ids pids 1 s s' := by
  induction depth generalizing node s with
  | zero =>
      have hle := hs.linkCount_le
      omega
  | succ depth ih =>
      refine Loops.foldlM_ok (fun t ht s₁ hs₁ => ?_) ⟨hs, le_rfl, rfl⟩
      rcases countedRound_cases (addTreeNodeCounted kept depth) node (s.1 node).id t
        hs₁.distinct.keys with hskip | ⟨hnew, hvisit⟩
      · exact ⟨s₁, hskip, hs₁⟩
      · have hlinks := linkCount_extend hnode s₁.1 t
        have hle := hs₁.le
        obtain ⟨s₂, hrun, hs₂⟩ := ih (hkept ht) (s := (s₁.1.extend node [t], s₁.2))
          (hs₁.distinct.extend (hkept ht) hnew) (by simp only; omega)
        exact ⟨s₂, hvisit.trans hrun, hs₁.trans (hs₂.child hnode)⟩

theorem foldlM_addTreeNodeCounted {kept : List Ref} (hkept : kept ⊆ list) {depth : ℕ}
    (hdepth : pairCount list ids < depth) {roots : List Ref} (hroots : roots ⊆ list)
    {s : Heap ε × ℕ} (hs : DistinctChildren list ids pids s.1) :
    ∃ s', roots.foldlM (fun s it => addTreeNodeCounted kept depth it s) s = .ok s' ∧
      Counted list ids pids roots.length s s' := by
  induction roots generalizing s with
  | nil => exact ⟨s, rfl, hs, le_rfl, rfl⟩
  | cons root roots ih =>
      obtain ⟨hroot, hroots⟩ := List.cons_subset.mp hroots
      obtain ⟨s₁, hrun₁, hs₁⟩ := addTreeNodeCounted_ok hkept hroot hs
        (Nat.lt_of_lt_of_le hdepth (Nat.le_add_right depth _))
      obtain ⟨s₂, hrun₂, hs₂⟩ := ih hroots hs₁.distinct
      refine ⟨s₂, ?_, ?_⟩
      · rw [List.foldlM_cons, hrun₁]
        exact hrun₂
      · rw [List.length_cons, Nat.add_comm]
        exact hs₁.trans hs₂

theorem DistinctChildren.of_null (hnull : ∀ r ∈ list, (h r).children = none) :
    DistinctChildren list h.ids h.pids h := by
  have hnone : ∀ v ∈ list, h.childrenOf v = [] := fun v hv => by
    rw [Heap.childrenOf, hnull v hv, Option.getD_none]
  exact ⟨h.keys_self, fun v hv => by simp [hnone v hv], fun v hv => by simp [hnone v hv]⟩

theorem listToTreeCounted_ok {equals : Heap ε → Ref → Ref → Except Throwable Bool} {depth : ℕ}
    {kept : List Ref} (hnull : ∀ r ∈ list, (h r).children = none)
    (hremove : removeAll (equals h) (list.filter fun t => isEmpty (h t).pid) list = .ok kept)
    (hdepth : pairCount list h.ids < depth) :
    ∃ built calls, listToTreeCounted equals depth list h = .ok (built, calls) ∧
      calls ≤ built.roots.length + pairCount list h.ids := by
  unfold listToTreeCounted
  split
  case isTrue => exact ⟨_, 0, rfl, Nat.zero_le _⟩
  case isFalse =>
      have hkept : kept ⊆ list := fun t ht => ((mem_removeAll_iff hremove).mp ht).1
      have hroots : (list.filter fun t => isEmpty (h t).pid) ⊆ list := List.filter_subset_self list
      obtain ⟨s, hrun, hs⟩ := foldlM_addTreeNodeCounted (s := (h, 0)) hkept hdepth hroots
        (DistinctChildren.of_null hnull)
      have hcalls := hs.calls
      have hlinks := hs.distinct.linkCount_le
      refine ⟨⟨s.1, kept, list.filter fun t => isEmpty (h t).pid⟩, s.2, ?_, ?_⟩
      · simp only [bind, Except.bind, hremove, hrun]
        rfl
      · simp only at hcalls ⊢
        omega

/-- Whatever the ids and pids are, `listToTree` ends as `removeAll` does, or returns after
at most one call of `addTreeNode` for every root and every pair of an element and an id. -/
theorem listToTree_ends (equals : Heap ε → Ref → Ref → Except Throwable Bool)
    (hnull : ∀ r ∈ list, (h r).children = none) {depth : ℕ}
    (hdepth : list.length * (list.map h.ids).toFinset.card < depth) :
    (∃ t, removeAll (equals h) (list.filter fun t => isEmpty (h t).pid) list = .error t ∧
      listToTree equals depth list h = .error t) ∨
    ∃ built calls, listToTree equals depth list h = .ok built ∧
      listToTreeCounted equals depth list h = .ok (built, calls) ∧
      calls ≤ built.roots.length + list.length * (list.map h.ids).toFinset.card := by
  cases hremove : removeAll (equals h) (list.filter fun t => isEmpty (h t).pid) list with
  | error t =>
      refine .inl ⟨t, rfl, ?_⟩
      have hne : list ≠ [] := by
        rintro rfl
        cases hremove
      simp only [listToTree, if_neg hne, bind, Except.bind, hremove]
  | ok kept =>
      obtain ⟨built, calls, hrun, hcalls⟩ := listToTreeCounted_ok hnull hremove hdepth
      refine .inr ⟨built, calls, ?_, hrun, hcalls⟩
      rw [← map_listToTreeCounted, hrun]
      rfl

theorem listToTree_ends_demo :
    (∃ t, removeAll (treeNodeEquals 37 demo)
        ([0, 1, 2, 3, 4, 5].filter fun t => isEmpty (demo t).pid) [0, 1, 2, 3, 4, 5] = .error t ∧
      listToTree (treeNodeEquals 37) 37 [0, 1, 2, 3, 4, 5] demo = .error t) ∨
    ∃ built calls, listToTree (treeNodeEquals 37) 37 [0, 1, 2, 3, 4, 5] demo = .ok built ∧
      listToTreeCounted (treeNodeEquals 37) 37 [0, 1, 2, 3, 4, 5] demo = .ok (built, calls) ∧
      calls ≤ built.roots.length + 6 * 6 :=
  listToTree_ends (treeNodeEquals 37) demo_freshItems.children_null (by decide)

end HelloBoot.TreeUtil
