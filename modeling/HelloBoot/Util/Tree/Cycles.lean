import HelloBoot.Forest.Descent
import HelloBoot.Util.Tree.ToTree

/-!
# When `toTree` returns

`addChildren` visits every element that names the node, and does not look whether it has
been there before. With distinct ids the way from a root never comes back to an element;
with repeated ids it can, because an element may have the id of a root that is above it.
The calls end exactly when no cycle is reached from a root (`toTree_returns_iff`).
-/

namespace HelloBoot.TreeUtil

open Forest

variable {ε : Type} {h : Heap ε} {list : List Ref} {ids pids : Ref → Option String}

def Names (ids pids : Ref → Option String) (list : List Ref) (a b : Ref) : Prop :=
  b ∈ list ∧ ids a = pids b

/-- Depths that are enough for some elements have a depth that is enough for all. -/
theorem exists_common_depth {P : Ref → ℕ → Prop} (hmono : ∀ b d d', d ≤ d' → P b d → P b d')
    (hP : ∀ b ∈ list, ∃ d, P b d) : ∃ d, ∀ b ∈ list, P b d := by
  induction list with
  | nil => exact ⟨0, nofun⟩
  | cons b list ih =>
      obtain ⟨hb, hlist⟩ := List.forall_mem_cons.mp hP
      obtain ⟨d, hd⟩ := hb
      obtain ⟨d', hd'⟩ := ih hlist
      refine ⟨max d d', List.forall_mem_cons.mpr ⟨hmono b d _ (le_max_left d d') hd, ?_⟩⟩
      exact fun b' hb' => hmono b' d' _ (le_max_right d d') (hd' b' hb')

/-- A visit of the node returns on a stack of at least this depth. -/
def ReturnsAt (ε : Type) (ids pids : Ref → Option String) (list : List Ref) (node : Ref)
    (d : ℕ) : Prop :=
  ∀ depth, d ≤ depth → ∀ h : Heap ε, h.Keys ids pids →
    ∃ h', addChildren list depth node h = .ok h' ∧ h'.Keys ids pids

/-- From an accessible node the calls come to an end. -/
theorem exists_returnsAt (hids : ∀ r ∈ list, ids r ≠ none) {node : Ref} (hnode : ids node ≠ none)
    (hacc : Acc (Function.swap (Names ids pids list)) node) :
    ∃ d, ReturnsAt ε ids pids list node d := by
  induction hacc with
  | intro node _ ih =>
      have hbelow : ∀ b ∈ list, ∃ d,
          Names ids pids list node b → ReturnsAt ε ids pids list b d := by
        intro b hb
        by_cases hnames : Names ids pids list node b
        · exact (ih b hnames (hids b hb)).imp fun _ hd _ => hd
        · exact ⟨0, fun h => absurd h hnames⟩
      obtain ⟨d, hd⟩ := exists_common_depth
        (fun b d d' hle h hnames depth hdepth => h hnames depth (hle.trans hdepth)) hbelow
      refine ⟨d + 1, fun depth hdepth h hkeys => ?_⟩
      obtain ⟨depth, rfl⟩ := Nat.exists_eq_add_of_le' (Nat.one_le_of_lt hdepth)
      refine Loops.foldlM_ok (f := addChildrenBody list depth node) (fun b hb h hkeys => ?_) hkeys
      by_cases hmatch : ids node = pids b
      · rw [addChildrenBody_of_eq (by rwa [hkeys.id_eq]) (by rwa [hkeys.id_eq, hkeys.pid_eq])]
        exact hd b hb ⟨hb, hmatch⟩ depth (Nat.le_of_succ_le_succ hdepth) _ (hkeys.extend node _)
      · rw [addChildrenBody_of_ne (by rwa [hkeys.id_eq]) (by rwa [hkeys.id_eq, hkeys.pid_eq])]
        exact ⟨h, rfl, hkeys⟩

theorem acc_of_addChildren (hids : ∀ r ∈ list, ids r ≠ none) {depth : ℕ} {node : Ref}
    (hnode : ids node ≠ none) {h h' : Heap ε} (hkeys : h.Keys ids pids)
    (hrun : addChildren list depth node h = .ok h') :
    h'.Keys ids pids ∧ Acc (Function.swap (Names ids pids list)) node := by
  induction depth generalizing node h h' with
  | zero => cases hrun
  | succ depth ih =>
      have hround : ∀ b ∈ list, ∀ h h' : Heap ε, h.Keys ids pids →
          addChildrenBody list depth node h b = .ok h' →
          h'.Keys ids pids ∧
            (ids node = pids b → Acc (Function.swap (Names ids pids list)) b) := by
        intro b hb h h' hkeys hbody
        by_cases hmatch : ids node = pids b
        · rw [addChildrenBody_of_eq (by rwa [hkeys.id_eq]) (by rwa [hkeys.id_eq, hkeys.pid_eq])]
            at hbody
          exact (ih (hids b hb) (hkeys.extend node _) hbody).imp_right fun h _ => h
        · rw [addChildrenBody_of_ne (by rwa [hkeys.id_eq]) (by rwa [hkeys.id_eq, hkeys.pid_eq])]
            at hbody
          cases hbody
          exact ⟨hkeys, fun h => absurd h hmatch⟩
      obtain ⟨hlast, hrounds⟩ := Loops.exists_round_of_foldlM_ok
        (fun b hb h h' hkeys hbody => (hround b hb h h' hkeys hbody).1) hkeys hrun
      refine ⟨hlast, .intro node fun b hnames => ?_⟩
      obtain ⟨h₁, h₂, hkeys₁, hbody⟩ := hrounds b hnames.1
      exact (hround b hnames.1 h₁ h₂ hkeys₁ hbody).2 hnames.2

section ToTree

variable (hids : ∀ r ∈ list, (h r).id ≠ none) (hnull : ∀ r ∈ list, (h r).children = none)

include hids hnull

theorem toTree_of_acc
    (hacc : ∀ root ∈ list, isEmpty (h root).pid = true →
      Acc (Function.swap (Names h.ids h.pids (list.filter fun r => !isEmpty (h r).pid))) root) :
    ∃ d, ∀ depth, d ≤ depth → ∃ built, toTree (treeNodeEquals depth) depth list h = .ok built := by
  have hroots : ∀ root ∈ list.filter fun r => isEmpty (h r).pid, ∃ d,
      ReturnsAt ε h.ids h.pids (list.filter fun r => !isEmpty (h r).pid) root d := by
    intro root hroot
    obtain ⟨hmem, hempty⟩ := List.mem_filter.mp hroot
    exact exists_returnsAt (fun r hr => hids r (List.mem_of_mem_filter hr)) (hids root hmem)
      (hacc root hmem hempty)
  obtain ⟨d, hd⟩ := exists_common_depth
    (fun root d d' hle h depth hdepth => h depth (hle.trans hdepth)) hroots
  refine ⟨d + 1, fun depth hdepth => ?_⟩
  have hremove := removeAll_roots_of_null hnull fun _ => Nat.zero_lt_of_lt hdepth
  obtain ⟨heap, hvisits, -⟩ := Loops.foldlM_ok
    (fun root hroot heap hkeys => hd root hroot depth (Nat.le_of_succ_le hdepth) heap hkeys)
    h.keys_self
  exact ⟨_, buildWith_eq_ok_iff.mpr ⟨_, heap, hremove, hvisits, rfl⟩⟩

theorem acc_of_toTree {depth : ℕ} {built : Built ε}
    (hrun : toTree (treeNodeEquals depth) depth list h = .ok built) {root : Ref}
    (hroot : root ∈ list) (hempty : isEmpty (h root).pid = true) :
    Acc (Function.swap (Names h.ids h.pids (list.filter fun r => !isEmpty (h r).pid))) root := by
  obtain ⟨kept, heap, hremove, hvisits, -⟩ := buildWith_eq_ok_iff.mp hrun
  have hmem : root ∈ list.filter fun r => isEmpty (h r).pid :=
    List.mem_filter.mpr ⟨hroot, hempty⟩
  cases depth with
  | zero =>
      obtain ⟨t, ht⟩ := Loops.foldlM_error (f := fun heap it => addChildren kept 0 it heap) hmem
        (fun _ => ⟨_, rfl⟩) h
      rw [ht] at hvisits
      cases hvisits
  | succ depth =>
      obtain rfl := Except.ok.inj
        ((removeAll_roots_of_null hnull fun _ => Nat.succ_pos depth).symm.trans hremove)
      have hids' : ∀ r ∈ list.filter fun r => !isEmpty (h r).pid, h.ids r ≠ none :=
        fun r hr => hids r (List.mem_of_mem_filter hr)
      obtain ⟨-, hrounds⟩ := Loops.exists_round_of_foldlM_ok (I := fun h' => h'.Keys h.ids h.pids)
        (fun r hr heap heap' hkeys hvisit =>
          (acc_of_addChildren hids' (hids r (List.mem_of_mem_filter hr)) hkeys hvisit).1)
        h.keys_self hvisits
      obtain ⟨h₁, h₂, hkeys, hvisit⟩ := hrounds root hmem
      exact (acc_of_addChildren hids' (hids root hroot) hkeys hvisit).2

end ToTree

/-- `toTree` returns after finitely many calls of `addChildren` if and only if the way down
from no root leads to an element that stands below itself. -/
theorem toTree_returns_iff (hids : ∀ r ∈ list, (h r).id ≠ none)
    (hnull : ∀ r ∈ list, (h r).children = none) :
    (∃ depth built, toTree (treeNodeEquals depth) depth list h = .ok built) ↔
      ¬ ∃ root ∈ list, isEmpty (h root).pid = true ∧ ∃ x,
        Relation.ReflTransGen
          (Names h.ids h.pids (list.filter fun r => !isEmpty (h r).pid)) root x ∧
        Relation.TransGen (Names h.ids h.pids (list.filter fun r => !isEmpty (h r).pid)) x x := by
  constructor
  · rintro ⟨depth, built, hrun⟩ ⟨root, hroot, hempty, hcycle⟩
    exact not_cycle_of_acc (acc_of_toTree hids hnull hrun hroot hempty) hcycle
  · intro hnone
    obtain ⟨d, hd⟩ := toTree_of_acc hids hnull fun root hroot hempty =>
      acc_of_not_cycle (fun _ _ hnames => hnames.1) fun hcycle =>
        hnone ⟨root, hroot, hempty, hcycle⟩
    exact ⟨d, hd d le_rfl⟩

theorem toTree_returns_iff_demo :
    (∃ depth built, toTree (treeNodeEquals depth) depth [0, 1, 2, 3, 4, 5] demo = .ok built) ↔
      ¬ ∃ root ∈ [0, 1, 2, 3, 4, 5], isEmpty (demo root).pid = true ∧ ∃ x,
        Relation.ReflTransGen (Names demo.ids demo.pids
          ([0, 1, 2, 3, 4, 5].filter fun r => !isEmpty (demo r).pid)) root x ∧
        Relation.TransGen (Names demo.ids demo.pids
          ([0, 1, 2, 3, 4, 5].filter fun r => !isEmpty (demo r).pid)) x x :=
  toTree_returns_iff demo_freshItems.id_ne_none demo_freshItems.children_null

/-- A root and a second row of the same id, whose pid is that id. -/
def repeated : Heap Unit
  | 0 => ⟨"1", none, none, ()⟩
  | _ => ⟨"1", "1", none, ()⟩

/-- The second row hangs below the root and below itself, and the calls go on without
end. -/
theorem not_toTree_of_repeated_id :
    (∀ r ∈ [0, 1], (repeated r).id ≠ none) ∧ (∀ r ∈ [0, 1], (repeated r).children = none) ∧
      ¬ ∃ depth built, toTree (treeNodeEquals depth) depth [0, 1] repeated = .ok built := by
  have hids : ∀ r ∈ [0, 1], (repeated r).id ≠ none := by decide
  have hnull : ∀ r ∈ [0, 1], (repeated r).children = none := by decide
  refine ⟨hids, hnull, ?_⟩
  rintro ⟨depth, built, hrun⟩
  have hacc := acc_of_toTree hids hnull hrun (.head _) rfl
  exact not_cycle_of_acc hacc
    ⟨1, .single ⟨by decide, rfl⟩, .single ⟨by decide, rfl⟩⟩

end HelloBoot.TreeUtil
