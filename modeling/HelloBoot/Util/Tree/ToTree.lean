import HelloBoot.Util.Tree.Build

/-!
# The forest that the tree builders return

`Heap.IsForest h roots ts` reads a forest off the heap: `ts` are the trees that
stand at `roots` when the children of a node are those its field holds, a null
field and an empty list being the same. The forest that `toTree` leaves on the
heap holds exactly the nodes from which the pids lead to a root
(`toTree_forest`), and `listToTree` leaves the same heap, list and roots behind
(`toTree_eq_listToTree`).
-/

namespace HelloBoot.TreeUtil

open Forest Forest.RoseTree

variable {ε : Type}

/-- `ts` are the trees at `roots` on the heap. -/
structure Heap.IsForest (h : Heap ε) (roots : List Ref) (ts : List (RoseTree Ref)) : Prop where
  values : ts.map value = roots
  unfolds : ∀ t ∈ ts, Unfolds h.childrenOf t

/-- The nodes of the source's demonstration: two roots `1` and `11`, two nodes
below `11` and two below `21`; every other reference is a node `x` without
parent. -/
def demo : Heap Unit
  | 0 => ⟨"1", none, none, ()⟩
  | 1 => ⟨"11", none, none, ()⟩
  | 2 => ⟨"22", "11", none, ()⟩
  | 3 => ⟨"21", "11", none, ()⟩
  | 4 => ⟨"31", "21", none, ()⟩
  | 5 => ⟨"32", "21", none, ()⟩
  | _ => ⟨"x", none, none, ()⟩

theorem demo_freshItems : FreshItems demo [0, 1, 2, 3, 4, 5] :=
  ⟨by decide, by decide, by decide⟩

namespace FreshItems

variable {h : Heap ε} {list : List Ref} (hfresh : FreshItems h list)
  {ts : List (RoseTree Ref)} (hts : hfresh.parentMap.IsForest ts)

include hts

theorem mem_preorderAll_iff {r : Ref} :
    r ∈ preorderAll ts ↔ ReachesRoot h list r :=
  hts.mem_preorderAll.trans hfresh.mem_and_rooted_iff

theorem childrenOf_builtOf {r : Ref} (hr : r ∈ preorderAll ts) :
    (hfresh.builtOf ts).heap.childrenOf r = hfresh.parentMap.children r := by
  have hmem := (hts.mem_preorderAll.mp hr).1
  rw [builtOf, Heap.childrenOf_link_of_mem hr, Heap.childrenOf,
    hfresh.children_null r hmem, Option.getD_none, List.nil_append]

theorem builtOf_isForest :
    (hfresh.builtOf ts).heap.IsForest (hfresh.builtOf ts).roots ts where
  values := hts.values
  unfolds t ht := (hts.unfolds t ht).congr fun _ hr =>
    hfresh.childrenOf_builtOf hts (mem_preorderAll.mpr ⟨t, ht, hr⟩)

/-- A node of the forest that is no root stands below the node it names. -/
theorem exists_parent_of_mem {r : Ref} (hr : r ∈ preorderAll ts)
    (hroot : isEmpty (h r).pid = false) :
    ∃ p ∈ preorderAll ts, (h p).id = (h r).pid ∧
      r ∈ (hfresh.builtOf ts).heap.childrenOf p := by
  have hreach := (hfresh.mem_preorderAll_iff hts).mp hr
  cases hreach with
  | root _ hempty => rw [hempty] at hroot; cases hroot
  | @step _ p hmem hid hreach =>
      have hp := (hfresh.mem_preorderAll_iff hts).mpr hreach
      refine ⟨p, hp, hid, ?_⟩
      rw [hfresh.childrenOf_builtOf hts hp]
      exact ParentMap.mem_children.mpr
        ⟨hmem, hfresh.parentOf_eq_some_iff.mpr ⟨hroot, hreach.mem, hid⟩⟩

end FreshItems

/-- `toTree` returns the nodes with an empty pid, in order. The forest it leaves
on the heap holds exactly the nodes from which the pids lead to such a node, each
once; every other node of it stands below the node whose id is its pid, and
siblings keep the order of the list. -/
theorem toTree_forest {h : Heap ε} {list : List Ref} (hfresh : FreshItems h list) :
    ∃ built : Built ε,
      (∀ depth, list.length ≤ depth →
        toTree (treeNodeEquals depth) depth list h = .ok built) ∧
      built.roots = list.filter (fun r => isEmpty (h r).pid) ∧
      ∃ ts : List (RoseTree Ref), built.heap.IsForest built.roots ts ∧
        (∀ r, r ∈ preorderAll ts ↔ ReachesRoot h list r) ∧
        (preorderAll ts).Nodup ∧
        (∀ r ∈ preorderAll ts, isEmpty (h r).pid = false →
          ∃ p ∈ preorderAll ts, (h p).id = (h r).pid ∧ r ∈ built.heap.childrenOf p) ∧
        (∀ p ∈ preorderAll ts, (built.heap.childrenOf p).Sublist list) := by
  obtain ⟨ts, hts⟩ := hfresh.parentMap.exists_isForest
  refine ⟨hfresh.builtOf ts, fun depth hdepth => hfresh.toTree_eq_builtOf hts hdepth,
    rfl, ts, hfresh.builtOf_isForest hts, fun r => hfresh.mem_preorderAll_iff hts,
    hts.nodup, fun r hr hroot => hfresh.exists_parent_of_mem hts hr hroot, ?_⟩
  intro p hp
  rw [hfresh.childrenOf_builtOf hts hp]
  exact List.filter_sublist

theorem toTree_forest_demo :
    ∃ built : Built Unit,
      (∀ depth, 6 ≤ depth →
        toTree (treeNodeEquals depth) depth [0, 1, 2, 3, 4, 5] demo = .ok built) ∧
      built.roots = [0, 1] := by
  obtain ⟨built, hbuilt, hroots, -⟩ := toTree_forest demo_freshItems
  exact ⟨built, hbuilt, hroots⟩

/-- The two builders agree: run on the same nodes and list, each from its own
copy, they leave the same nodes and the same rest of the list behind and return
the same roots. -/
theorem toTree_eq_listToTree {h : Heap ε} {list : List Ref} (hfresh : FreshItems h list) :
    ∃ built : Built ε, ∀ depth, list.length ≤ depth →
      toTree (treeNodeEquals depth) depth list h = .ok built ∧
        listToTree (treeNodeEquals depth) depth list h = .ok built := by
  obtain ⟨ts, hts⟩ := hfresh.parentMap.exists_isForest
  exact ⟨hfresh.builtOf ts, fun depth hdepth =>
    ⟨hfresh.toTree_eq_builtOf hts hdepth, hfresh.listToTree_eq_builtOf hts hdepth⟩⟩

theorem toTree_eq_listToTree_demo :
    ∃ built : Built Unit, ∀ depth, 6 ≤ depth →
      toTree (treeNodeEquals depth) depth [0, 1, 2, 3, 4, 5] demo = .ok built ∧
        listToTree (treeNodeEquals depth) depth [0, 1, 2, 3, 4, 5] demo = .ok built :=
  toTree_eq_listToTree demo_freshItems

end HelloBoot.TreeUtil
