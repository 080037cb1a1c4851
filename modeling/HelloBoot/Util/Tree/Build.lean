import HelloBoot.Java.Loops
import HelloBoot.Util.Tree.Link

/-!
# What the tree builders return

`toTree` and `listToTree` differ only in how they visit a root, and both visits
are `Links`. On nodes with distinct ids and null children either of them
therefore returns `builtOf`: the nodes linked along the forest of their parent
pointers, the list without its roots, and the roots.
-/

namespace HelloBoot.TreeUtil

open Forest Forest.RoseTree

variable {ε : Type}

def addChildrenBody (list : List Ref) (depth : ℕ) (node : Ref) (h : Heap ε) (it : Ref) :
    Except Throwable (Heap ε) :=
  match (h node).id with
  | none => throw .nullPointer
  | some id =>
      if some id = (h it).pid then
        let children := h.childrenOf node
        addChildren list depth it (h.setChildren node (some (children ++ [it])))
      else pure h

theorem addChildrenBody_of_ne {list : List Ref} {depth : ℕ} {node it : Ref} {h : Heap ε}
    (hid : (h node).id ≠ none) (hne : (h node).id ≠ (h it).pid) :
    addChildrenBody list depth node h it = .ok h := by
  obtain ⟨i, hi⟩ := Option.ne_none_iff_exists'.mp hid
  rw [hi] at hne
  simp only [addChildrenBody, hi, hne, if_false]
  rfl

theorem addChildrenBody_of_eq {list : List Ref} {depth : ℕ} {node it : Ref} {h : Heap ε}
    (hid : (h node).id ≠ none) (heq : (h node).id = (h it).pid) :
    addChildrenBody list depth node h it = addChildren list depth it (h.extend node [it]) := by
  obtain ⟨i, hi⟩ := Option.ne_none_iff_exists'.mp hid
  rw [hi] at heq
  simp only [addChildrenBody, hi]
  rw [if_pos heq, Heap.setChildren_append_eq_extend]

theorem links_addChildren (list : List Ref) (ids pids : Ref → Option String) :
    Links list ids pids (addChildren (ε := ε) list) (addChildrenBody list) where
  visit_succ _ _ _ _ := rfl
  skip depth node h it hkeys hid hne := by
    rw [← hkeys.id_eq] at hid hne
    rw [← hkeys.pid_eq] at hne
    exact addChildrenBody_of_ne hid hne
  append depth node h it hkeys hid heq _ := by
    rw [← hkeys.id_eq] at hid heq
    rw [← hkeys.pid_eq] at heq
    exact addChildrenBody_of_eq hid heq

/-- The body of the loop of `addTreeNode` where the ids are `ids`. -/
def addTreeNodeBody (list : List Ref) (ids : Ref → Option String) (depth : ℕ) (node : Ref)
    (h : Heap ε) (t : Ref) : Except Throwable (Heap ε) :=
  let childrenList := h.childrenOf node
  let objPid := (h t).pid
  if ids node ≠ objPid then pure h
  else
    let collect := childrenList.filter fun f => (h f).id = (h t).id
    if collect ≠ [] then pure h
    else addTreeNode list depth t (h.setChildren node (some (childrenList ++ [t])))

/-- The look for a child of the same id finds none, so `addTreeNode` links as
`addChildren` does. -/
theorem links_addTreeNode (list : List Ref) (ids pids : Ref → Option String) :
    Links list ids pids (addTreeNode (ε := ε) list) (addTreeNodeBody list ids) := by
  refine ⟨?_, ?_, ?_⟩
  · intro depth node h hkeys
    rw [addTreeNode, hkeys.id_eq]
    rfl
  · intro depth node h t hkeys _ hne
    rw [← hkeys.pid_eq] at hne
    exact if_pos hne
  · intro depth node h t hkeys _ heq hfresh
    have hcollect : (h.childrenOf node).filter (fun f => (h f).id = (h t).id) = [] := by
      refine List.filter_eq_nil_iff.mpr fun f hf => ?_
      rw [hkeys.id_eq, hkeys.id_eq]
      simpa using hfresh f hf
    rw [← hkeys.pid_eq] at heq
    simp only [addTreeNodeBody, heq, ne_eq, not_true, if_false, hcollect,
      Heap.setChildren_append_eq_extend]

/-- Both builders, with the visit of a root left open. -/
def buildWith (visit : List Ref → ℕ → Ref → Heap ε → Except Throwable (Heap ε))
    (equals : Heap ε → Ref → Ref → Except Throwable Bool) (depth : ℕ)
    (list : List Ref) (h : Heap ε) : Except Throwable (Built ε) :=
  if list = [] then pure ⟨h, list, list⟩
  else do
    let rootList := list.filter fun it => isEmpty (h it).pid
    let list ← removeAll (equals h) rootList list
    let h ← rootList.foldlM (fun h it => visit list depth it h) h
    pure ⟨h, list, rootList⟩

theorem buildWith_eq_ok_iff {visit : List Ref → ℕ → Ref → Heap ε → Except Throwable (Heap ε)}
    {equals : Heap ε → Ref → Ref → Except Throwable Bool} {depth : ℕ} {list : List Ref}
    {h : Heap ε} {built : Built ε} :
    buildWith visit equals depth list h = .ok built ↔
      ∃ kept heap,
        removeAll (equals h) (list.filter fun it => isEmpty (h it).pid) list = .ok kept ∧
        (list.filter fun it => isEmpty (h it).pid).foldlM
          (fun heap it => visit kept depth it heap) h = .ok heap ∧
        built = ⟨heap, kept, list.filter fun it => isEmpty (h it).pid⟩ := by
  unfold buildWith
  split
  case isTrue hnil =>
      subst hnil
      constructor
      · intro hbuild
        cases hbuild
        exact ⟨[], h, rfl, rfl, rfl⟩
      · rintro ⟨kept, heap, hremove, hvisits, rfl⟩
        cases hremove
        cases hvisits
        rfl
  case isFalse =>
      constructor
      · intro hbuild
        obtain ⟨kept, hremove, hbuild⟩ := Loops.exists_of_bind_eq_ok hbuild
        obtain ⟨heap, hvisits, hbuild⟩ := Loops.exists_of_bind_eq_ok hbuild
        exact ⟨kept, heap, hremove, hvisits, (Except.ok.inj hbuild).symm⟩
      · rintro ⟨kept, heap, hremove, hvisits, rfl⟩
        simp only [bind, Except.bind, hremove, hvisits]
        rfl

theorem toTree_eq_buildWith (equals : Heap ε → Ref → Ref → Except Throwable Bool)
    (depth : ℕ) (list : List Ref) (h : Heap ε) :
    toTree equals depth list h = buildWith addChildren equals depth list h := rfl

theorem listToTree_eq_buildWith (equals : Heap ε → Ref → Ref → Except Throwable Bool)
    (depth : ℕ) (list : List Ref) (h : Heap ε) :
    listToTree equals depth list h = buildWith addTreeNode equals depth list h := rfl

section RemoveAll

variable {h : Heap ε} {list : List Ref} {depth : ℕ}

/-- `removeAll` takes the roots out of the list and nothing else, if an element equals
itself and no element with a pid equals a root. -/
theorem removeAll_roots_of_equals {equals : Ref → Ref → Except Throwable Bool}
    {p : Ref → Ref → Bool} (heq : ∀ it ∈ list, ∀ r ∈ list, equals it r = .ok (p it r))
    (hself : ∀ it ∈ list, p it it = true)
    (hroot : ∀ it ∈ list, ∀ r ∈ list, p it r = true → isEmpty (h r).pid = true →
      isEmpty (h it).pid = true) :
    removeAll equals (list.filter fun it => isEmpty (h it).pid) list =
      .ok (list.filter fun it => !isEmpty (h it).pid) := by
  rw [removeAll_eq_filter fun it hit r hr => heq it hit r (List.mem_of_mem_filter hr)]
  refine congrArg Except.ok (List.filter_congr fun it hit => congrArg _ (Bool.eq_iff_iff.mpr ?_))
  rw [List.any_eq_true]
  constructor
  · rintro ⟨r, hr, hequal⟩
    obtain ⟨hmem, hempty⟩ := List.mem_filter.mp hr
    exact hroot it hit r hmem hequal hempty
  · exact fun hempty => ⟨it, List.mem_filter.mpr ⟨hit, hempty⟩, hself it hit⟩

theorem removeAll_roots (hids : (list.map h.ids).Nodup) (hdepth : list ≠ [] → 0 < depth) :
    removeAll (treeNodeEquals depth h) (list.filter fun it => isEmpty (h it).pid) list =
      .ok (list.filter fun it => !isEmpty (h it).pid) := by
  refine removeAll_roots_of_equals (p := fun it r => decide (it = r)) ?_ (by simp) ?_
  · intro it hit r hr
    obtain ⟨d, rfl⟩ := Nat.exists_eq_add_one.mpr (hdepth (List.ne_nil_of_mem hit))
    exact treeNodeEquals_of_ids (List.inj_on_of_nodup_map hids hit hr)
  · intro it _ r _ hequal hempty
    rwa [of_decide_eq_true hequal]

theorem removeAll_roots_of_null (hnull : ∀ r ∈ list, (h r).children = none)
    (hdepth : list ≠ [] → 0 < depth) :
    removeAll (treeNodeEquals depth h) (list.filter fun it => isEmpty (h it).pid) list =
      .ok (list.filter fun it => !isEmpty (h it).pid) := by
  refine removeAll_roots_of_equals
    (p := fun it r => decide ((h it).id = (h r).id ∧ (h it).pid = (h r).pid)) ?_ (by simp) ?_
  · intro it hit r hr
    obtain ⟨d, rfl⟩ := Nat.exists_eq_add_one.mpr (hdepth (List.ne_nil_of_mem hit))
    exact treeNodeEquals_of_null (hnull it hit) (hnull r hr)
  · intro it _ r _ hequal hempty
    rwa [(of_decide_eq_true hequal).2]

end RemoveAll

namespace FreshItems

variable {h : Heap ε} {list : List Ref} (hfresh : FreshItems h list)
  {ts : List (RoseTree Ref)}

include hfresh

/-- The result of either builder, for the forest `ts` of the parent pointers. -/
def builtOf (ts : List (RoseTree Ref)) : Built ε where
  heap := h.link hfresh.parentMap.children (preorderAll ts)
  list := list.filter fun it => !isEmpty (h it).pid
  roots := list.filter fun it => isEmpty (h it).pid

/-- A builder whose visits are `Links` returns `builtOf`, given a stack as deep as
the list is long. -/
theorem buildWith_eq (hts : hfresh.parentMap.IsForest ts)
    {visit : List Ref → ℕ → Ref → Heap ε → Except Throwable (Heap ε)}
    (hvisit : ∀ rest, ∃ body, Links rest h.ids h.pids (visit rest) body)
    {depth : ℕ} (hdepth : list.length ≤ depth) :
    buildWith visit (treeNodeEquals depth) depth list h = .ok (hfresh.builtOf ts) := by
  have hitems : ∀ v ∈ preorderAll ts, v ∈ list := fun v hv => (hts.mem_preorderAll.mp hv).1
  refine buildWith_eq_ok_iff.mpr ⟨_, _, ?_, ?_, rfl⟩
  · exact removeAll_roots hfresh.nodup_ids fun hne => (List.length_pos_iff.mpr hne).trans_le hdepth
  · obtain ⟨body, L⟩ := hvisit (list.filter fun it => !isEmpty (h it).pid)
    have hlinked := L.foldlM_visit
      ((List.filter_sublist.map h.ids).nodup hfresh.nodup_ids) hts.unfolds
      (fun v hv => hfresh.parentMap_children (hitems v hv))
      (fun v hv => hfresh.id_ne_none v (hitems v hv)) hts.nodup
      (fun t ht => (hts.height_le ht).trans hdepth) h.keys_self
      fun v hv => by simp [Heap.childrenOf, hfresh.children_null v (hitems v hv)]
    rwa [hts.values, hfresh.parentMap_roots] at hlinked

theorem toTree_eq_builtOf (hts : hfresh.parentMap.IsForest ts) {depth : ℕ}
    (hdepth : list.length ≤ depth) :
    toTree (treeNodeEquals depth) depth list h = .ok (hfresh.builtOf ts) := by
  rw [toTree_eq_buildWith]
  exact hfresh.buildWith_eq hts
    (fun rest => ⟨_, links_addChildren rest h.ids h.pids⟩) hdepth

theorem listToTree_eq_builtOf (hts : hfresh.parentMap.IsForest ts) {depth : ℕ}
    (hdepth : list.length ≤ depth) :
    listToTree (treeNodeEquals depth) depth list h = .ok (hfresh.builtOf ts) := by
  rw [listToTree_eq_buildWith]
  exact hfresh.buildWith_eq hts
    (fun rest => ⟨_, links_addTreeNode rest h.ids h.pids⟩) hdepth

end FreshItems

end HelloBoot.TreeUtil
