import HelloBoot.Java.Throwable
import Mathlib.Data.List.Basic
import Mathlib.Logic.Function.Basic

/-!
# Tree nodes on a heap

`TreeNode` objects are mutable and are shared between the list a caller passes
and the `children` lists of other nodes, so they live on a heap and are named by
references. `TreeNode.extend` is what linking does to one node: elements are
appended to its children list, which is created on the first of them.
`Heap.link next vs` extends every node of `vs` by its elements in `next`; it is
the closed form of what both builders do to the heap.
-/

namespace HelloBoot.TreeUtil

abbrev Ref := ℕ

structure TreeNode (ε : Type) where
  id : Option String
  pid : Option String
  children : Option (List Ref)
  ext : ε

abbrev Heap (ε : Type) := Ref → TreeNode ε

def isEmpty : Option String → Bool
  | none => true
  | some s => s == ""

/-- `children == null ? new ArrayList : children`, then one `add` for each
element; without elements the field stays as it is. -/
def TreeNode.extend {ε : Type} (n : TreeNode ε) (cs : List Ref) : TreeNode ε :=
  if cs = [] then n else { n with children := some (n.children.getD [] ++ cs) }

namespace TreeNode

variable {ε : Type} (n : TreeNode ε)

@[simp] theorem extend_nil : n.extend [] = n := rfl

@[simp] theorem id_extend (cs : List Ref) : (n.extend cs).id = n.id := by
  unfold extend
  split <;> rfl

@[simp] theorem pid_extend (cs : List Ref) : (n.extend cs).pid = n.pid := by
  unfold extend
  split <;> rfl

/-- Only the children of a node are extended. -/
theorem extend_with_children_none (cs : List Ref) :
    { n.extend cs with children := none } = { n with children := none } := by
  unfold extend
  split <;> rfl

@[simp] theorem children_extend_getD (cs : List Ref) :
    (n.extend cs).children.getD [] = n.children.getD [] ++ cs := by
  unfold extend
  split
  · next h => simp [h]
  · rfl

theorem extend_append (cs ds : List Ref) :
    (n.extend cs).extend ds = n.extend (cs ++ ds) := by
  rcases eq_or_ne cs [] with rfl | hcs
  · simp
  rcases eq_or_ne ds [] with rfl | hds
  · simp
  simp [extend, hcs, hds]

end TreeNode

namespace Heap

variable {ε : Type} (h : Heap ε)

def ids : Ref → Option String := fun r => (h r).id

def pids : Ref → Option String := fun r => (h r).pid

/-- The children of a node, none when the field is null. -/
def childrenOf (r : Ref) : List Ref := (h r).children.getD []

def setChildren (r : Ref) (cs : Option (List Ref)) : Heap ε :=
  Function.update h r { h r with children := cs }

def extend (r : Ref) (cs : List Ref) : Heap ε :=
  Function.update h r ((h r).extend cs)

/-- Extend every node of `vs` by its elements in `next`. -/
def link (next : Ref → List Ref) (vs : List Ref) : Heap ε :=
  fun r => if r ∈ vs then (h r).extend (next r) else h r

/-- The children lists of `vs` are null again. -/
def clear (vs : List Ref) : Heap ε :=
  fun r => if r ∈ vs then { h r with children := none } else h r

variable {h}

@[simp] theorem ids_apply (r : Ref) : h.ids r = (h r).id := rfl

@[simp] theorem pids_apply (r : Ref) : h.pids r = (h r).pid := rfl

@[simp] theorem ids_extend (r : Ref) (cs : List Ref) : (h.extend r cs).ids = h.ids := by
  funext s
  rcases eq_or_ne s r with rfl | hs <;> simp [extend, *]

@[simp] theorem pids_extend (r : Ref) (cs : List Ref) :
    (h.extend r cs).pids = h.pids := by
  funext s
  rcases eq_or_ne s r with rfl | hs <;> simp [extend, *]

@[simp] theorem ids_link (next : Ref → List Ref) (vs : List Ref) :
    (h.link next vs).ids = h.ids := by
  funext s
  by_cases hs : s ∈ vs <;> simp [link, hs]

@[simp] theorem pids_link (next : Ref → List Ref) (vs : List Ref) :
    (h.link next vs).pids = h.pids := by
  funext s
  by_cases hs : s ∈ vs <;> simp [link, hs]

@[simp] theorem ids_clear (vs : List Ref) : (h.clear vs).ids = h.ids := by
  funext s
  by_cases hs : s ∈ vs <;> simp [clear, hs]

@[simp] theorem pids_clear (vs : List Ref) : (h.clear vs).pids = h.pids := by
  funext s
  by_cases hs : s ∈ vs <;> simp [clear, hs]

@[simp] theorem extend_nil (r : Ref) : h.extend r [] = h := by
  simp [extend]

theorem setChildren_append_eq_extend (r it : Ref) :
    h.setChildren r (some (h.childrenOf r ++ [it])) = h.extend r [it] := by
  simp [setChildren, extend, TreeNode.extend, childrenOf]

@[simp] theorem link_nil (next : Ref → List Ref) : h.link next [] = h := by
  funext r
  simp [link]

theorem link_of_mem {next : Ref → List Ref} {vs : List Ref} {r : Ref} (hr : r ∈ vs) :
    h.link next vs r = (h r).extend (next r) := if_pos hr

theorem link_of_not_mem {next : Ref → List Ref} {vs : List Ref} {r : Ref}
    (hr : r ∉ vs) : h.link next vs r = h r := if_neg hr

theorem childrenOf_link_of_mem {next : Ref → List Ref} {vs : List Ref} {r : Ref}
    (hr : r ∈ vs) : (h.link next vs).childrenOf r = h.childrenOf r ++ next r := by
  simp [childrenOf, link_of_mem hr]

theorem childrenOf_link_of_not_mem {next : Ref → List Ref} {vs : List Ref} {r : Ref}
    (hr : r ∉ vs) : (h.link next vs).childrenOf r = h.childrenOf r := by
  simp [childrenOf, link_of_not_mem hr]

theorem clear_of_mem {vs : List Ref} {r : Ref} (hr : r ∈ vs) :
    h.clear vs r = { h r with children := none } := if_pos hr

theorem clear_of_not_mem {vs : List Ref} {r : Ref} (hr : r ∉ vs) :
    h.clear vs r = h r := if_neg hr

@[simp] theorem clear_nil : h.clear [] = h := by
  funext r
  simp [clear]

theorem setChildren_none_eq_clear (r : Ref) : h.setChildren r none = h.clear [r] := by
  funext s
  rcases eq_or_ne s r with rfl | hs <;> simp [setChildren, clear, *]

theorem clear_clear (vs ws : List Ref) : (h.clear vs).clear ws = h.clear (vs ++ ws) := by
  funext r
  by_cases hv : r ∈ vs <;> by_cases hw : r ∈ ws <;> simp [clear, hv, hw]

/-- Linking two disjoint groups of nodes one after the other. -/
theorem link_link {next : Ref → List Ref} {vs ws : List Ref}
    (hdisj : ∀ r ∈ vs, r ∉ ws) : (h.link next vs).link next ws = h.link next (vs ++ ws) := by
  funext r
  by_cases hv : r ∈ vs
  · have hw := hdisj r hv
    simp [link, hv, hw]
  · by_cases hw : r ∈ ws <;> simp [link, hv, hw]

end Heap

end HelloBoot.TreeUtil
