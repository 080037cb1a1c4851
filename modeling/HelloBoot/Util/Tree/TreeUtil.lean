import HelloBoot.Util.Tree.TreeNode

/-!
# The tree builders

`toTree` and `listToTree` take the roots out of a list of nodes and hang every
other node below the node it names as its parent: `toTree` through the getters
and `addChildren`, `listToTree` through reflective field access and
`addTreeNode`, which looks for a child of the same id before it adds one. Both
change the argument list and the nodes, so they return a `Built`: the heap, what
is left of the list, and the roots. `treeToList` goes the other way.

The reflective methods are modelled for the field names `id`, `pid` and
`children`, which `getField` finds in `TreeNode`; a field read is a projection.
The element class of a list fixes `equals`, which `removeAll` calls, so it is a
parameter; `treeNodeEquals` is the one that `@Data` generates for `TreeNode`.
-/

namespace HelloBoot.TreeUtil

variable {ε : Type}

def listEquals (equals : Ref → Ref → Except Throwable Bool) :
    List Ref → List Ref → Except Throwable Bool
  | [], [] => pure true
  | x :: xs, y :: ys => do
      if ← equals x y then listEquals equals xs ys else pure false
  | _, _ => pure false

/-- The `equals` of `TreeNode`: the same object, or equal `id`, `pid` and
`children`. -/
def treeNodeEquals : ℕ → Heap ε → Ref → Ref → Except Throwable Bool
  | 0, _, _, _ => throw .stackOverflow
  | depth + 1, h, this, o =>
      if o = this then pure true
      else if (h this).id ≠ (h o).id then pure false
      else if (h this).pid ≠ (h o).pid then pure false
      else match (h this).children, (h o).children with
        | none, none => pure true
        | some xs, some ys => listEquals (treeNodeEquals depth h) xs ys
        | _, _ => pure false

def contains (equals : Ref → Ref → Except Throwable Bool) (it : Ref) :
    List Ref → Except Throwable Bool
  | [] => pure false
  | r :: rs => do
      if ← equals it r then pure true else contains equals it rs

def removeAll (equals : Ref → Ref → Except Throwable Bool) (c : List Ref) :
    List Ref → Except Throwable (List Ref)
  | [] => pure []
  | it :: list => do
      let found ← contains equals it c
      let kept ← removeAll equals c list
      pure (if found then kept else it :: kept)

/-- What a builder leaves behind: the nodes, the rest of the argument list and
the roots it returns. -/
structure Built (ε : Type) where
  heap : Heap ε
  list : List Ref
  roots : List Ref

def addChildren (list : List Ref) : ℕ → Ref → Heap ε → Except Throwable (Heap ε)
  | 0, _, _ => throw .stackOverflow
  | depth + 1, node, h =>
      list.foldlM (fun h it =>
        match (h node).id with
        | none => throw .nullPointer
        | some id =>
            if some id = (h it).pid then
              let children := h.childrenOf node
              addChildren list depth it (h.setChildren node (some (children ++ [it])))
            else pure h) h

/-- `toTree(list)`, where `equals` is that of the element class. -/
def toTree (equals : Heap ε → Ref → Ref → Except Throwable Bool) (depth : ℕ)
    (list : List Ref) (h : Heap ε) : Except Throwable (Built ε) :=
  if list = [] then pure ⟨h, list, list⟩
  else do
    let rootList := list.filter fun it => isEmpty (h it).pid
    let list ← removeAll (equals h) rootList list
    let h ← rootList.foldlM (fun h it => addChildren list depth it h) h
    pure ⟨h, list, rootList⟩

/-- `addTreeNode(node, list, aClass, "id", "pid", "children")`. -/
def addTreeNode (list : List Ref) : ℕ → Ref → Heap ε → Except Throwable (Heap ε)
  | 0, _, _ => throw .stackOverflow
  | depth + 1, node, h =>
      let objId := (h node).id
      list.foldlM (fun h t =>
        let childrenList := h.childrenOf node
        let objPid := (h t).pid
        if objId ≠ objPid then pure h
        else
          let collect := childrenList.filter fun f => (h f).id = (h t).id
          if collect ≠ [] then pure h
          else addTreeNode list depth t
            (h.setChildren node (some (childrenList ++ [t])))) h

/-- `listToTree(list, "id", "pid", "children")`, where `equals` is that of the
element class. -/
def listToTree (equals : Heap ε → Ref → Ref → Except Throwable Bool) (depth : ℕ)
    (list : List Ref) (h : Heap ε) : Except Throwable (Built ε) :=
  if list = [] then pure ⟨h, list, list⟩
  else do
    let rootList := list.filter fun t => isEmpty (h t).pid
    let list ← removeAll (equals h) rootList list
    let h ← rootList.foldlM (fun h it => addTreeNode list depth it h) h
    pure ⟨h, list, rootList⟩

/-- `treeToList(t, "children", list)`: the heap and the list it appends to. -/
def treeToList : ℕ → Heap ε × List Ref → Ref → Except Throwable (Heap ε × List Ref)
  | 0, _, _ => throw .stackOverflow
  | depth + 1, (h, list), t =>
      let curList := h.childrenOf t
      curList.foldlM (treeToList depth) (h.setChildren t none, list ++ [t])

section Equals

variable {h : Heap ε} {depth : ℕ}

/-- Nodes of different ids are told apart before their children are read. -/
theorem treeNodeEquals_of_ids {this o : Ref} (hids : (h this).id = (h o).id → this = o) :
    treeNodeEquals (depth + 1) h this o = .ok (decide (this = o)) := by
  by_cases heq : this = o
  · simp [treeNodeEquals, heq]
    rfl
  · have hne : (h this).id ≠ (h o).id := fun h => heq (hids h)
    simp [treeNodeEquals, heq, Ne.symm heq, hne]
    rfl

theorem treeNodeEquals_of_null {this o : Ref} (hthis : (h this).children = none)
    (ho : (h o).children = none) :
    treeNodeEquals (depth + 1) h this o =
      .ok (decide ((h this).id = (h o).id ∧ (h this).pid = (h o).pid)) := by
  by_cases heq : o = this
  · simp [treeNodeEquals, heq]
    rfl
  · by_cases hid : (h this).id = (h o).id <;> by_cases hpid : (h this).pid = (h o).pid <;>
      simp [treeNodeEquals, heq, hid, hpid, hthis, ho] <;> rfl

theorem contains_eq_any {equals : Ref → Ref → Except Throwable Bool} {it : Ref} {c : List Ref}
    {p : Ref → Bool} (heq : ∀ r ∈ c, equals it r = .ok (p r)) :
    contains equals it c = .ok (c.any p) := by
  induction c with
  | nil => rfl
  | cons r rs ih =>
      obtain ⟨hr, hrs⟩ := List.forall_mem_cons.mp heq
      rw [contains, hr, ih hrs, List.any_cons]
      cases p r <;> rfl

/-- When `equals` always returns, `removeAll` removes what equals an element of the
collection. -/
theorem removeAll_eq_filter {equals : Ref → Ref → Except Throwable Bool} {c list : List Ref}
    {p : Ref → Ref → Bool} (heq : ∀ it ∈ list, ∀ r ∈ c, equals it r = .ok (p it r)) :
    removeAll equals c list = .ok (list.filter fun it => !c.any (p it)) := by
  induction list with
  | nil => rfl
  | cons it list ih =>
      obtain ⟨hit, hlist⟩ := List.forall_mem_cons.mp heq
      rw [removeAll, contains_eq_any hit, ih hlist, List.filter_cons]
      cases c.any (p it) <;> rfl

end Equals

end HelloBoot.TreeUtil
