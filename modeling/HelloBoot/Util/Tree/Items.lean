import HelloBoot.Forest.ParentMap
import HelloBoot.Util.Tree.TreeUtil

/-!
# The parent pointers of a list of nodes

A list of nodes with distinct ids and null children is read as a `ParentMap`:
the roots are the nodes with an empty pid, and the parent of another node is the
node of the list whose id is its pid, if there is one. `ReachesRoot` is the same
chain in the words of the nodes.
-/

namespace HelloBoot.TreeUtil

open Forest

variable {ε : Type} {h : Heap ε} {list : List Ref}

/-- Nodes as the builders expect them: ids set and distinct, no children yet. -/
structure FreshItems (h : Heap ε) (list : List Ref) : Prop where
  id_ne_none : ∀ r ∈ list, (h r).id ≠ none
  nodup_ids : (list.map h.ids).Nodup
  children_null : ∀ r ∈ list, (h r).children = none

inductive ReachesRoot (h : Heap ε) (list : List Ref) : Ref → Prop
  | root {r : Ref} (hr : r ∈ list) (hroot : isEmpty (h r).pid = true) :
      ReachesRoot h list r
  | step {r q : Ref} (hr : r ∈ list) (hq : (h q).id = (h r).pid)
      (hreach : ReachesRoot h list q) : ReachesRoot h list r

theorem ReachesRoot.mem {r : Ref} (hr : ReachesRoot h list r) : r ∈ list := by
  cases hr with
  | root hr _ => exact hr
  | step hr _ _ => exact hr

def parentOf (h : Heap ε) (list : List Ref) (r : Ref) : Option Ref :=
  if isEmpty (h r).pid then none else list.find? fun q => (h q).id = (h r).pid

namespace FreshItems

variable (hfresh : FreshItems h list)

include hfresh

theorem nodup : list.Nodup := hfresh.nodup_ids.of_map

theorem eq_of_id_eq {r q : Ref} (hr : r ∈ list) (hq : q ∈ list)
    (hid : (h r).id = (h q).id) : r = q :=
  List.inj_on_of_nodup_map hfresh.nodup_ids hr hq hid

theorem parentOf_eq_some_iff {a b : Ref} :
    parentOf h list b = some a ↔
      isEmpty (h b).pid = false ∧ a ∈ list ∧ (h a).id = (h b).pid := by
  unfold parentOf
  cases hb : isEmpty (h b).pid with
  | true => simp
  | false =>
      simp only [Bool.false_eq_true, if_false, true_and]
      constructor
      · intro hfind
        exact ⟨List.mem_of_find?_eq_some hfind, by simpa using List.find?_some hfind⟩
      · rintro ⟨ha, hid⟩
        have hsome : (list.find? fun q => (h q).id = (h b).pid).isSome := by
          rw [List.find?_isSome]
          exact ⟨a, ha, by simpa using hid⟩
        obtain ⟨q, hq⟩ := Option.isSome_iff_exists.mp hsome
        have hqid : (h q).id = (h b).pid := by simpa using List.find?_some hq
        rw [hq, hfresh.eq_of_id_eq (List.mem_of_find?_eq_some hq) ha (hqid.trans hid.symm)]

def parentMap : ParentMap Ref where
  items := list
  nodup := hfresh.nodup
  root r := isEmpty (h r).pid
  parent := parentOf h list
  parent_root r hr := by simp [parentOf, hr]
  parent_mem _ _ hab := (hfresh.parentOf_eq_some_iff.mp hab).2.1

@[simp] theorem parentMap_roots :
    hfresh.parentMap.roots = list.filter fun r => isEmpty (h r).pid := rfl

theorem reachesRoot_of_ancestor {k : ℕ} {x r : Ref} (hx : x ∈ list)
    (hr : hfresh.parentMap.ancestor k x = some r) (hroot : isEmpty (h r).pid = true) :
    ReachesRoot h list x := by
  induction k generalizing x with
  | zero =>
      rw [ParentMap.ancestor_zero, Option.some.injEq] at hr
      exact .root hx (hr ▸ hroot)
  | succ k ih =>
      rw [ParentMap.ancestor_succ] at hr
      obtain ⟨a, hparent, ha⟩ := Option.bind_eq_some_iff.mp hr
      obtain ⟨-, hmem, hid⟩ := hfresh.parentOf_eq_some_iff.mp hparent
      exact .step hx hid (ih hmem ha)

/-- The items of the forest are the nodes from which the pids reach a root. -/
theorem mem_and_rooted_iff {x : Ref} :
    x ∈ list ∧ hfresh.parentMap.Rooted x ↔ ReachesRoot h list x := by
  constructor
  · rintro ⟨hx, k, r, hr, hroot⟩
    exact hfresh.reachesRoot_of_ancestor hx hr hroot
  · intro hreach
    refine ⟨hreach.mem, ?_⟩
    induction hreach with
    | @root r hr hroot => exact ⟨0, r, rfl, hroot⟩
    | @step r q hr hq hreach ih =>
        cases hroot : isEmpty (h r).pid with
        | true => exact ⟨0, r, rfl, hroot⟩
        | false =>
            exact ih.of_parent
              (hfresh.parentOf_eq_some_iff.mpr ⟨hroot, hreach.mem, hq⟩)

/-- The children of a node are what the builders look for: the nodes, other than
the roots, whose pid is its id. -/
theorem parentMap_children {a : Ref} (ha : a ∈ list) :
    hfresh.parentMap.children a =
      (list.filter fun r => !isEmpty (h r).pid).filter fun r => (h a).id = (h r).pid := by
  rw [List.filter_filter]
  refine List.filter_congr fun b _ => ?_
  have hparent : hfresh.parentMap.parent b = some a ↔
      isEmpty (h b).pid = false ∧ a ∈ list ∧ (h a).id = (h b).pid :=
    hfresh.parentOf_eq_some_iff
  rw [Bool.eq_iff_iff, decide_eq_true_iff, hparent]
  simp [ha, and_comm]

end FreshItems

end HelloBoot.TreeUtil
