import HelloBoot.Util.Tree.ToTree

/-!
# Linking twice

`addTreeNode` passes over an element when the node has a child of its id already, and
does not visit it then. On nodes that either builder has linked, every root has all its
children, so a second `listToTree` stops at the roots and changes nothing
(`listToTree_idempotent`).
-/

namespace HelloBoot.TreeUtil

open Forest Forest.RoseTree

variable {ε : Type} {h : Heap ε} {list : List Ref}

/-- A node that has a child of the id of every element which names it stays as it is. -/
theorem addTreeNode_of_linked {depth : ℕ} {node : Ref}
    (hlinked : ∀ t ∈ list, (h node).id = (h t).pid →
      ∃ f ∈ h.childrenOf node, (h f).id = (h t).id) :
    addTreeNode list (depth + 1) node h = .ok h := by
  rw [addTreeNode]
  refine Loops.foldlM_fixed fun t ht => ?_
  by_cases hmatch : (h node).id = (h t).pid
  · obtain ⟨f, hf, hid⟩ := hlinked t ht hmatch
    have hcollect : (h.childrenOf node).filter (fun f => (h f).id = (h t).id) ≠ [] :=
      List.ne_nil_of_mem (List.mem_filter.mpr ⟨hf, by simpa using hid⟩)
    simp only [hmatch, ne_eq, not_true, if_false, hcollect, not_false_iff, if_true]
    rfl
  · exact if_pos hmatch

namespace FreshItems

variable (hfresh : FreshItems h list) {ts : List (RoseTree Ref)}
  (hts : hfresh.parentMap.IsForest ts)

include hts

/-- Every element that names a root is among the children of the root. -/
theorem mem_childrenOf_root {r t : Ref} (hr : r ∈ list) (hroot : isEmpty (h r).pid = true)
    (ht : t ∈ list) (hnot : isEmpty (h t).pid = false) (hmatch : (h r).id = (h t).pid) :
    t ∈ (hfresh.builtOf ts).heap.childrenOf r := by
  have hmem : r ∈ preorderAll ts := (hfresh.mem_preorderAll_iff hts).mpr (.root hr hroot)
  rw [hfresh.childrenOf_builtOf hts hmem, hfresh.parentMap_children hr]
  simp [ht, hnot, hmatch]

theorem listToTree_builtOf {depth : ℕ} (hdepth : list.length ≤ depth) :
    listToTree (treeNodeEquals depth) depth list (hfresh.builtOf ts).heap =
      .ok (hfresh.builtOf ts) := by
  have hids : (hfresh.builtOf ts).heap.ids = h.ids := Heap.ids_link _ _
  have hpids : (hfresh.builtOf ts).heap.pids = h.pids := Heap.pids_link _ _
  have hid : ∀ r, ((hfresh.builtOf ts).heap r).id = (h r).id := congrFun hids
  have hpid : ∀ r, ((hfresh.builtOf ts).heap r).pid = (h r).pid := congrFun hpids
  rw [listToTree_eq_buildWith]
  refine buildWith_eq_ok_iff.mpr ⟨list.filter fun it => !isEmpty (h it).pid,
    (hfresh.builtOf ts).heap, ?_, ?_, ?_⟩
  · have hremove := removeAll_roots (hids.symm ▸ hfresh.nodup_ids) fun hne =>
      (List.length_pos_iff.mpr hne).trans_le hdepth
    simpa only [hpid] using hremove
  · refine Loops.foldlM_fixed fun r hr => ?_
    simp only [hpid, List.mem_filter] at hr
    obtain ⟨d, rfl⟩ : ∃ d, depth = d + 1 :=
      Nat.exists_eq_add_one.mpr ((List.length_pos_of_mem hr.1).trans_le hdepth)
    refine addTreeNode_of_linked fun t ht hmatch => ?_
    simp only [hid, hpid, List.mem_filter, Bool.not_eq_true'] at ht hmatch
    exact ⟨t, hfresh.mem_childrenOf_root hts hr.1 hr.2 ht.1 ht.2 hmatch, rfl⟩
  · simp only [hpid]
    rfl

end FreshItems

/-- After either builder has linked the nodes, `listToTree` on a copy of the list returns
the same roots and leaves every node as it is. -/
theorem listToTree_idempotent (hfresh : FreshItems h list) :
    ∃ built : Built ε, ∀ depth, list.length ≤ depth →
      toTree (treeNodeEquals depth) depth list h = .ok built ∧
        listToTree (treeNodeEquals depth) depth list h = .ok built ∧
        listToTree (treeNodeEquals depth) depth list built.heap = .ok built := by
  obtain ⟨ts, hts⟩ := hfresh.parentMap.exists_isForest
  exact ⟨hfresh.builtOf ts, fun depth hdepth =>
    ⟨hfresh.toTree_eq_builtOf hts hdepth, hfresh.listToTree_eq_builtOf hts hdepth,
      hfresh.listToTree_builtOf hts hdepth⟩⟩

theorem listToTree_idempotent_demo :
    ∃ built : Built Unit, ∀ depth, 6 ≤ depth →
      toTree (treeNodeEquals depth) depth [0, 1, 2, 3, 4, 5] demo = .ok built ∧
        listToTree (treeNodeEquals depth) depth [0, 1, 2, 3, 4, 5] demo = .ok built ∧
        listToTree (treeNodeEquals depth) depth [0, 1, 2, 3, 4, 5] built.heap = .ok built :=
  listToTree_idempotent demo_freshItems

end HelloBoot.TreeUtil
