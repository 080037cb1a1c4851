import HelloBoot.Util.Tree.ToTree

/-!
# Flattening a forest and building it again

`treeToList` walks a tree in preorder, takes the children off every node it
meets and appends the node to a list. `treeToListAll` does so for every root of
a forest, collecting into one list. A forest whose roots have an empty pid and
whose children carry the id of their parent as their pid comes back when its
flattening is built again, unless some child's pid is itself empty: such a child
stands below a node with the empty id, and the builder takes it for a root
(`flattenBuild_not_of_empty_id`). Flattening what the builder returns permutes
the list it was given when every node reaches a root.
-/

namespace HelloBoot.TreeUtil

open Forest Forest.RoseTree

variable {ε : Type}

/-- `treeToList` on each root in order, collecting into one list. -/
def treeToListAll (depth : ℕ) (h : Heap ε) (roots : List Ref) :
    Except Throwable (Heap ε × List Ref) :=
  roots.foldlM (treeToList depth) (h, [])

theorem treeToList_succ (depth : ℕ) (h : Heap ε) (list : List Ref) (t : Ref) :
    treeToList (depth + 1) (h, list) t =
      (h.childrenOf t).foldlM (treeToList depth) (h.setChildren t none, list ++ [t]) := rfl

/-- The loop over the children appends their trees one after the other, provided
each of them does so for itself. -/
theorem foldlM_treeToList {depth : ℕ} {ts : List (RoseTree Ref)} {next : Ref → List Ref}
    (hts : ∀ t ∈ ts, ∀ (h : Heap ε) (list : List Ref),
      (∀ v ∈ preorder t, h.childrenOf v = next v) →
      treeToList depth (h, list) t.value = .ok (h.clear (preorder t), list ++ preorder t))
    (hnodup : (preorderAll ts).Nodup) {h : Heap ε} {list : List Ref}
    (hnext : ∀ v ∈ preorderAll ts, h.childrenOf v = next v) :
    (ts.map value).foldlM (treeToList depth) (h, list) =
      .ok (h.clear (preorderAll ts), list ++ preorderAll ts) := by
  induction ts generalizing h list with
  | nil => simp [pure, Except.pure]
  | cons t ts ih =>
      rw [preorderAll_cons] at hnext hnodup
      obtain ⟨-, hnodupts, hdisj⟩ := List.nodup_append.mp hnodup
      rw [List.map_cons, List.foldlM_cons, hts t List.mem_cons_self h list
        fun v hv => hnext v (List.mem_append_left _ hv)]
      refine (ih (fun u hu => hts u (List.mem_cons_of_mem t hu)) hnodupts ?_).trans ?_
      · intro v hv
        have hvt : v ∉ preorder t := fun hvt => hdisj v hvt v hv rfl
        rw [Heap.childrenOf, Heap.clear_of_not_mem hvt]
        exact hnext v (List.mem_append_right _ hv)
      · rw [Heap.clear_clear, preorderAll_cons, List.append_assoc]

/-- `treeToList` clears the nodes of the tree and appends them in preorder. -/
theorem treeToList_eq {next : Ref → List Ref} {t : RoseTree Ref} (ht : Unfolds next t)
    (hnodup : (preorder t).Nodup) {depth : ℕ} (hdepth : t.height ≤ depth) {h : Heap ε}
    {list : List Ref} (hnext : ∀ v ∈ preorder t, h.childrenOf v = next v) :
    treeToList depth (h, list) t.value =
      .ok (h.clear (preorder t), list ++ preorder t) := by
  induction ht generalizing depth h list with
  | @node a ts hvalues hsub ih =>
      simp only [preorder_node, List.mem_cons] at hnext
      rw [preorder_node, List.nodup_cons] at hnodup
      rw [height_node] at hdepth
      obtain ⟨d, rfl⟩ : ∃ d, depth = d + 1 := ⟨depth - 1, by omega⟩
      have hts : ∀ t ∈ ts, ∀ (h : Heap ε) (list : List Ref),
          (∀ v ∈ preorder t, h.childrenOf v = next v) →
          treeToList d (h, list) t.value = .ok (h.clear (preorder t), list ++ preorder t) := by
        intro t ht h list hnext
        have hheight := height_le_heightAll ht
        exact ih t ht ((preorder_sublist_preorderAll ht).nodup hnodup.2) (by omega) hnext
      have hcleared : ∀ v ∈ preorderAll ts, (h.clear [a]).childrenOf v = next v := by
        intro v hv
        have hva : v ∉ [a] := fun hva => hnodup.1 (List.mem_singleton.mp hva ▸ hv)
        rw [Heap.childrenOf, Heap.clear_of_not_mem hva]
        exact hnext v (.inr hv)
      rw [value_node, treeToList_succ, hnext a (.inl rfl), ← hvalues,
        Heap.setChildren_none_eq_clear, foldlM_treeToList hts hnodup.2 hcleared,
        Heap.clear_clear, preorder_node, List.append_assoc]
      rfl

theorem treeToListAll_eq {h : Heap ε} {ts : List (RoseTree Ref)}
    (hsub : ∀ t ∈ ts, Unfolds h.childrenOf t) (hnodup : (preorderAll ts).Nodup)
    {depth : ℕ} (hdepth : ∀ t ∈ ts, t.height ≤ depth) :
    treeToListAll depth h (ts.map value) =
      .ok (h.clear (preorderAll ts), preorderAll ts) := by
  have hts : ∀ t ∈ ts, ∀ (h' : Heap ε) (list : List Ref),
      (∀ v ∈ preorder t, h'.childrenOf v = h.childrenOf v) →
      treeToList depth (h', list) t.value =
        .ok (h'.clear (preorder t), list ++ preorder t) := fun t ht _ _ hnext =>
    treeToList_eq (hsub t ht) ((preorder_sublist_preorderAll ht).nodup hnodup)
      (hdepth t ht) hnext
  rw [treeToListAll, foldlM_treeToList hts hnodup fun _ _ => rfl, List.nil_append]

/-- A forest of nodes with distinct ids whose roots have an empty pid and whose
other nodes carry the id of their parent as their pid. -/
structure KeyedForest (h : Heap ε) (ts : List (RoseTree Ref)) : Prop where
  unfolds : ∀ t ∈ ts, Unfolds h.childrenOf t
  id_ne_none : ∀ r ∈ preorderAll ts, (h r).id ≠ none
  nodup_ids : ((preorderAll ts).map h.ids).Nodup
  root_pid : ∀ r ∈ ts.map value, isEmpty (h r).pid = true
  child_pid : ∀ r ∈ preorderAll ts, ∀ c ∈ h.childrenOf r, (h c).pid = (h r).id

/-- Flattening the forest lists every node once, in preorder, with its children
set to null, and building that list returns the forest on the same nodes. -/
def FlattenBuild (h : Heap ε) (ts : List (RoseTree Ref)) : Prop :=
  ∃ (h₁ : Heap ε) (built : Built ε),
    (∀ depth, (preorderAll ts).length ≤ depth →
      treeToListAll depth h (ts.map value) = .ok (h₁, preorderAll ts) ∧
        listToTree (treeNodeEquals depth) depth (preorderAll ts) h₁ = .ok built) ∧
    (∀ r ∈ preorderAll ts, h₁ r = { h r with children := none }) ∧
    built.heap.IsForest (ts.map value) ts ∧ built.roots = ts.map value ∧
    ∀ r, { built.heap r with children := none } = { h r with children := none }

/-- Building the list and flattening the result returns a permutation of it. -/
def BuildFlatten (h : Heap ε) (list : List Ref) : Prop :=
  ∃ (built : Built ε) (h₁ : Heap ε) (flat : List Ref),
    (∀ depth, list.length ≤ depth →
      listToTree (treeNodeEquals depth) depth list h = .ok built ∧
        treeToListAll depth built.heap built.roots = .ok (h₁, flat)) ∧
    flat.Perm list

namespace KeyedForest

variable {h : Heap ε} {ts : List (RoseTree Ref)} (hkeyed : KeyedForest h ts)

include hkeyed

theorem nodup : (preorderAll ts).Nodup := hkeyed.nodup_ids.of_map

theorem freshItems : FreshItems (h.clear (preorderAll ts)) (preorderAll ts) where
  id_ne_none r hr := by
    rw [Heap.clear_of_mem hr]
    exact hkeyed.id_ne_none r hr
  nodup_ids := by
    rw [Heap.ids_clear]
    exact hkeyed.nodup_ids
  children_null r hr := by rw [Heap.clear_of_mem hr]

/-- The parent pointers of the flattened nodes describe the forest again, as long
as no child has an empty pid. -/
theorem isForest (hpid : ∀ r ∈ preorderAll ts, ∀ c ∈ h.childrenOf r,
      isEmpty (h c).pid = false) :
    hkeyed.freshItems.parentMap.IsForest ts := by
  have hfields : ∀ r, (h.clear (preorderAll ts) r).pid = (h r).pid ∧
      (h.clear (preorderAll ts) r).id = (h r).id := fun r =>
    ⟨congrFun (Heap.pids_clear _) r, congrFun (Heap.ids_clear _) r⟩
  have hnotroot : ∀ x ∈ preorderAll ts, isEmpty (h x).pid = false →
      ∃ r ∈ preorderAll ts, x ∈ h.childrenOf r := by
    intro x hx hempty
    rcases mem_values_or_mem_next hkeyed.unfolds hx with hroot | hchild
    · rw [hkeyed.root_pid x hroot] at hempty
      cases hempty
    · exact hchild
  refine ParentMap.isForest_of_unfolds hkeyed.unfolds rfl ?_ ?_
  · intro x hx
    change isEmpty (h.clear (preorderAll ts) x).pid = true ↔ _
    rw [(hfields x).1]
    refine ⟨fun hempty => ?_, hkeyed.root_pid x⟩
    rcases mem_values_or_mem_next hkeyed.unfolds hx with hroot | ⟨r, hr, hchild⟩
    · exact hroot
    · rw [hpid r hr x hchild] at hempty
      cases hempty
  · intro x hx a ha
    refine (hkeyed.freshItems.parentOf_eq_some_iff (a := a) (b := x)).trans ?_
    rw [(hfields x).1, (hfields a).2]
    constructor
    · rintro ⟨hempty, -, hid⟩
      obtain ⟨r, hr, hchild⟩ := hnotroot x hx hempty
      have hra : r = a := List.inj_on_of_nodup_map hkeyed.nodup_ids hr ha
        ((hkeyed.child_pid r hr x hchild).symm.trans hid.symm)
      exact hra ▸ hchild
    · intro hchild
      exact ⟨hpid a ha x hchild, ha, (hkeyed.child_pid a ha x hchild).symm⟩

/-- Flattening and building again returns the forest, as long as no child has an
empty pid. -/
theorem flattenBuild (hpid : ∀ r ∈ preorderAll ts, ∀ c ∈ h.childrenOf r,
      isEmpty (h c).pid = false) : FlattenBuild h ts := by
  have hforest := hkeyed.isForest hpid
  have hbuilt := hkeyed.freshItems.builtOf_isForest hforest
  have hroots : (hkeyed.freshItems.builtOf ts).roots = ts.map value := hbuilt.values.symm
  have hheight : ∀ t ∈ ts, t.height ≤ (preorderAll ts).length := fun _ ht =>
    hforest.height_le ht
  refine ⟨h.clear (preorderAll ts), hkeyed.freshItems.builtOf ts,
    fun depth hdepth => ⟨?_, ?_⟩, fun r hr => Heap.clear_of_mem hr,
    hroots ▸ hbuilt, hroots, fun r => ?_⟩
  · exact treeToListAll_eq hkeyed.unfolds hkeyed.nodup
      fun t ht => (hheight t ht).trans hdepth
  · exact hkeyed.freshItems.listToTree_eq_builtOf hforest hdepth
  · by_cases hr : r ∈ preorderAll ts
    · simp only [FreshItems.builtOf, Heap.link_of_mem hr, Heap.clear_of_mem hr,
        TreeNode.extend_with_children_none]
    · simp only [FreshItems.builtOf, Heap.link_of_not_mem hr, Heap.clear_of_not_mem hr]

end KeyedForest

/-- Building a list whose nodes all reach a root and flattening the result gives
a permutation of the list. -/
theorem FreshItems.buildFlatten {h : Heap ε} {list : List Ref}
    (hfresh : FreshItems h list) (hreach : ∀ r ∈ list, ReachesRoot h list r) :
    BuildFlatten h list := by
  obtain ⟨ts, hts⟩ := hfresh.parentMap.exists_isForest
  have hbuilt := hfresh.builtOf_isForest hts
  refine ⟨hfresh.builtOf ts, (hfresh.builtOf ts).heap.clear (preorderAll ts),
    preorderAll ts, fun depth hdepth => ⟨hfresh.listToTree_eq_builtOf hts hdepth, ?_⟩, ?_⟩
  · rw [← hbuilt.values]
    exact treeToListAll_eq hbuilt.unfolds hts.nodup
      fun t ht => (hts.height_le ht).trans hdepth
  · refine (List.perm_ext_iff_of_nodup hts.nodup hfresh.nodup).mpr fun r => ?_
    rw [hfresh.mem_preorderAll_iff hts]
    exact ⟨ReachesRoot.mem, hreach r⟩

/-- Flattening and building undo each other: a forest in which no child has an
empty pid comes back from its flattening, and a list in which every node reaches a
root is permuted by building and flattening it. -/
theorem flattenBuild_and_buildFlatten :
    (∀ (h : Heap ε) (ts : List (RoseTree Ref)), KeyedForest h ts →
      (∀ r ∈ preorderAll ts, ∀ c ∈ h.childrenOf r, isEmpty (h c).pid = false) →
      FlattenBuild h ts) ∧
    (∀ (h : Heap ε) (list : List Ref), FreshItems h list →
      (∀ r ∈ list, ReachesRoot h list r) → BuildFlatten h list) :=
  ⟨fun _ _ hkeyed hpid => hkeyed.flattenBuild hpid,
    fun _ _ hfresh hreach => hfresh.buildFlatten hreach⟩

def oneChild : Heap Unit
  | 0 => ⟨"1", none, some [1], ()⟩
  | 1 => ⟨"2", "1", none, ()⟩
  | _ => ⟨"x", none, none, ()⟩

theorem oneChild_keyedForest : KeyedForest oneChild [.node 0 [.node 1 []]] where
  unfolds := by simp [unfolds_node_iff, Heap.childrenOf, oneChild]
  id_ne_none := by simp [oneChild]
  nodup_ids := by simp [oneChild]
  root_pid := by simp [oneChild, isEmpty]
  child_pid := by simp [oneChild, Heap.childrenOf]

theorem demo_reachesRoot :
    ∀ r ∈ [0, 1, 2, 3, 4, 5], ReachesRoot demo [0, 1, 2, 3, 4, 5] r := by
  have h1 : ReachesRoot demo [0, 1, 2, 3, 4, 5] 1 := .root (by decide) rfl
  have h3 : ReachesRoot demo [0, 1, 2, 3, 4, 5] 3 := .step (by decide) rfl h1
  simp only [List.forall_mem_cons, List.not_mem_nil, false_implies, implies_true, and_true]
  exact ⟨.root (by decide) rfl, h1, .step (by decide) rfl h1, h3,
    .step (by decide) rfl h3, .step (by decide) rfl h3⟩

theorem flattenBuild_and_buildFlatten_demo :
    FlattenBuild oneChild [.node 0 [.node 1 []]] ∧
      BuildFlatten demo [0, 1, 2, 3, 4, 5] := by
  refine ⟨flattenBuild_and_buildFlatten.1 _ _ oneChild_keyedForest ?_,
    flattenBuild_and_buildFlatten.2 _ _ demo_freshItems demo_reachesRoot⟩
  simp [oneChild, Heap.childrenOf, isEmpty]

/-- A root with the empty id, and below it a child whose pid is that id. -/
def emptyId : Heap Unit
  | 0 => ⟨"", none, some [1], ()⟩
  | 1 => ⟨"2", "", none, ()⟩
  | _ => ⟨"x", none, none, ()⟩

theorem emptyId_keyedForest : KeyedForest emptyId [.node 0 [.node 1 []]] where
  unfolds := by simp [unfolds_node_iff, Heap.childrenOf, emptyId]
  id_ne_none := by simp [emptyId]
  nodup_ids := by simp [emptyId]
  root_pid := by simp [emptyId, isEmpty]
  child_pid := by simp [emptyId, Heap.childrenOf]

/-- The child of a node with the empty id comes back as a root. -/
theorem flattenBuild_not_of_empty_id :
    KeyedForest emptyId [.node 0 [.node 1 []]] ∧
      ¬ FlattenBuild emptyId [.node 0 [.node 1 []]] := by
  refine ⟨emptyId_keyedForest, ?_⟩
  rintro ⟨h₁, built, hrun, -, -, hroots, -⟩
  obtain ⟨hflat, hbuild⟩ := hrun 2 le_rfl
  have hheight : ∀ t ∈ [RoseTree.node 0 [RoseTree.node 1 []]], t.height ≤ 2 := by simp [heightAll]
  have hflat' := treeToListAll_eq emptyId_keyedForest.unfolds
    emptyId_keyedForest.nodup hheight
  rw [hflat'] at hflat
  obtain rfl : emptyId.clear _ = h₁ := congrArg Prod.fst (Except.ok.inj hflat)
  obtain ⟨ts, hts⟩ := emptyId_keyedForest.freshItems.parentMap.exists_isForest
  have hbuild' : listToTree (treeNodeEquals 2) 2
      (preorderAll [RoseTree.node 0 [RoseTree.node 1 []]])
      (emptyId.clear (preorderAll [RoseTree.node 0 [RoseTree.node 1 []]])) =
      .ok (emptyId_keyedForest.freshItems.builtOf ts) :=
    emptyId_keyedForest.freshItems.listToTree_eq_builtOf hts le_rfl
  obtain rfl := Except.ok.inj (hbuild.symm.trans hbuild')
  have htwo : (emptyId_keyedForest.freshItems.builtOf ts).roots = [0, 1] := by
    simp [FreshItems.builtOf, Heap.clear, emptyId, isEmpty]
  rw [htwo] at hroots
  cases hroots

end HelloBoot.TreeUtil
