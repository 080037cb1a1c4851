import HelloBoot.Util.Tree.Items

/-!
# What a builder does to the nodes

`addChildren` and `addTreeNode` visit a node by running over the whole list: an
element with another pid is passed over, one that names the node is appended to
its children and visited in turn. `Links` states this of a visit and its loop
body, and `Links.visit_eq` is the effect of the visit when the parent pointers
below the node unfold to a finite tree without repetitions: every node of that
tree is extended by the nodes which name it, and nothing else changes. The
induction is on the tree, so it also gives the depth of stack that is enough.
-/

namespace HelloBoot.TreeUtil

open Forest Forest.RoseTree

variable {ε : Type}

/-- The ids and pids of the nodes, which no builder changes. -/
def Heap.Keys (h : Heap ε) (ids pids : Ref → Option String) : Prop :=
  h.ids = ids ∧ h.pids = pids

theorem Heap.keys_self (h : Heap ε) : h.Keys h.ids h.pids := ⟨rfl, rfl⟩

namespace Heap.Keys

variable {h : Heap ε} {ids pids : Ref → Option String}

theorem id_eq (hkeys : h.Keys ids pids) (r : Ref) : (h r).id = ids r :=
  congrFun hkeys.1 r

theorem pid_eq (hkeys : h.Keys ids pids) (r : Ref) : (h r).pid = pids r :=
  congrFun hkeys.2 r

theorem extend (hkeys : h.Keys ids pids) (r : Ref) (cs : List Ref) :
    (h.extend r cs).Keys ids pids :=
  ⟨by rw [ids_extend, hkeys.1], by rw [pids_extend, hkeys.2]⟩

theorem link (hkeys : h.Keys ids pids) (next : Ref → List Ref) (vs : List Ref) :
    (h.link next vs).Keys ids pids :=
  ⟨by rw [ids_link, hkeys.1], by rw [pids_link, hkeys.2]⟩

end Heap.Keys

/-- A visit of a node with its loop body over `list`: the body passes over an
element with another pid, and appends and visits one that names the node and has
no child of the same id before it. -/
structure Links (list : List Ref) (ids pids : Ref → Option String)
    (visit : ℕ → Ref → Heap ε → Except Throwable (Heap ε))
    (body : ℕ → Ref → Heap ε → Ref → Except Throwable (Heap ε)) : Prop where
  visit_succ : ∀ depth node h, h.Keys ids pids →
    visit (depth + 1) node h = list.foldlM (body depth node) h
  skip : ∀ depth node h it, h.Keys ids pids → ids node ≠ none →
    ids node ≠ pids it → body depth node h it = .ok h
  append : ∀ depth node h it, h.Keys ids pids → ids node ≠ none →
    ids node = pids it → (∀ f ∈ h.childrenOf node, ids f ≠ ids it) →
    body depth node h it = visit depth it (h.extend node [it])

namespace Heap

variable {h : Heap ε} {next : Ref → List Ref} {node : Ref} {vs : List Ref}

theorem childrenOf_extend_self (cs : List Ref) :
    (h.extend node cs).childrenOf node = h.childrenOf node ++ cs := by
  simp [childrenOf, extend]

theorem childrenOf_extend_of_ne {r : Ref} (hr : r ≠ node) (cs : List Ref) :
    (h.extend node cs).childrenOf r = h.childrenOf r := by
  simp [childrenOf, extend, hr]

/-- Appending to a node commutes with linking other nodes. -/
theorem link_extend (hnode : node ∉ vs) (cs : List Ref) :
    (h.link next vs).extend node cs = (h.extend node cs).link next vs := by
  funext r
  rcases eq_or_ne r node with rfl | hr
  · simp [extend, link, hnode]
  · by_cases hv : r ∈ vs <;> simp [extend, link, hv, hr]

theorem extend_extend (cs ds : List Ref) :
    (h.extend node cs).extend node ds = h.extend node (cs ++ ds) := by
  simp [extend, TreeNode.extend_append]

theorem extend_link (hnode : node ∉ vs) :
    (h.extend node (next node)).link next vs = h.link next (node :: vs) := by
  funext r
  rcases eq_or_ne r node with rfl | hr
  · simp [extend, link, hnode]
  · simp [extend, link, hr]

end Heap

namespace Links

variable {list : List Ref} {ids pids : Ref → Option String}
  {visit : ℕ → Ref → Heap ε → Except Throwable (Heap ε)}
  {body : ℕ → Ref → Heap ε → Ref → Except Throwable (Heap ε)}
  (L : Links list ids pids visit body) {next : Ref → List Ref}

include L

theorem body_eq {depth : ℕ} {node : Ref} {h : Heap ε} {t : RoseTree Ref}
    (hid : ids node ≠ none) (hkeys : h.Keys ids pids) (hmatch : ids node = pids t.value)
    (hvisit : ∀ h : Heap ε, h.Keys ids pids → (∀ v ∈ preorder t, h.childrenOf v = []) →
      visit depth t.value h = .ok (h.link next (preorder t)))
    (hnode : node ∉ preorder t) (hfresh : ∀ f ∈ h.childrenOf node, ids f ≠ ids t.value)
    (hempty : ∀ v ∈ preorder t, h.childrenOf v = []) :
    body depth node h t.value = .ok ((h.extend node [t.value]).link next (preorder t)) := by
  rw [L.append depth node h _ hkeys hid hmatch hfresh]
  refine hvisit _ (hkeys.extend node _) fun v hv => ?_
  rw [Heap.childrenOf_extend_of_ne (ne_of_mem_of_not_mem hv hnode)]
  exact hempty v hv

/-- The loop of a visit appends to `node`, in order, the elements that name it,
provided each of them is linked by its own visit. -/
theorem foldlM_body {depth : ℕ} {node : Ref} (hid : ids node ≠ none)
    {rest : List Ref} {ts : List (RoseTree Ref)} {h : Heap ε} (hkeys : h.Keys ids pids)
    (hvalues : ts.map value = rest.filter fun it => ids node = pids it)
    (hts : ∀ t ∈ ts, ∀ h : Heap ε, h.Keys ids pids →
      (∀ v ∈ preorder t, h.childrenOf v = []) →
      visit depth t.value h = .ok (h.link next (preorder t)))
    (hnode : node ∉ preorderAll ts) (hnodup : (preorderAll ts).Nodup)
    (hrest : (rest.map ids).Nodup)
    (hfresh : ∀ f ∈ h.childrenOf node, ∀ it ∈ rest, ids f ≠ ids it)
    (hempty : ∀ v ∈ preorderAll ts, h.childrenOf v = []) :
    rest.foldlM (body depth node) h =
      .ok ((h.extend node (ts.map value)).link next (preorderAll ts)) := by
  induction rest generalizing ts h with
  | nil =>
      have hnil : ts = [] := List.map_eq_nil_iff.mp hvalues
      subst hnil
      simp [pure, Except.pure]
  | cons it rest ih =>
      rw [List.map_cons, List.nodup_cons] at hrest
      rw [List.foldlM_cons]
      by_cases hmatch : ids node = pids it
      · rw [List.filter_cons_of_pos (by simpa using hmatch)] at hvalues
        obtain ⟨t, ts', rfl, rfl, hvalues'⟩ := List.map_eq_cons_iff.mp hvalues
        simp only [preorderAll_cons, List.mem_append, not_or] at hnode hempty
        rw [preorderAll_cons, List.nodup_append] at hnodup
        obtain ⟨hnodupt, hnodupts, hdisj⟩ := hnodup
        rw [L.body_eq hid hkeys hmatch (hts t List.mem_cons_self) hnode.1
          (fun f hf => hfresh f hf _ List.mem_cons_self) fun v hv => hempty v (.inl hv)]
        refine (ih ((hkeys.extend node _).link next _) hvalues'
          (fun u hu => hts u (List.mem_cons_of_mem t hu)) hnode.2 hnodupts hrest.2
          ?_ ?_).trans ?_
        · -- the child just added differs from the elements still to come
          intro f hf it' hit'
          rw [Heap.childrenOf_link_of_not_mem hnode.1, Heap.childrenOf_extend_self,
            List.mem_append, List.mem_singleton] at hf
          rcases hf with hf | rfl
          · exact hfresh f hf it' (List.mem_cons_of_mem _ hit')
          · intro heq
            exact hrest.1 (List.mem_map.mpr ⟨it', hit', heq.symm⟩)
        · intro v hv
          have hvt : v ∉ preorder t := fun hvt => hdisj v hvt v hv rfl
          rw [Heap.childrenOf_link_of_not_mem hvt,
            Heap.childrenOf_extend_of_ne (ne_of_mem_of_not_mem hv hnode.2)]
          exact hempty v (.inr hv)
        · have hdisj' : ∀ r ∈ preorder t, r ∉ preorderAll ts' :=
            fun r hr hr' => hdisj r hr r hr' rfl
          rw [Heap.link_extend hnode.1, Heap.link_link hdisj', Heap.extend_extend,
            List.map_cons, preorderAll_cons, List.singleton_append]
      · rw [List.filter_cons_of_neg (by simpa using hmatch)] at hvalues
        rw [L.skip depth node h it hkeys hid hmatch]
        exact ih hkeys hvalues hts hnode hnodup hrest.2
          (fun f hf it' hit' => hfresh f hf it' (List.mem_cons_of_mem it hit')) hempty

/-- A visit links the tree that hangs below the node. -/
theorem visit_eq (hlist : (list.map ids).Nodup) {t : RoseTree Ref} (ht : Unfolds next t)
    (hnext : ∀ v ∈ preorder t, next v = list.filter fun it => ids v = pids it)
    (hid : ∀ v ∈ preorder t, ids v ≠ none) (hnodup : (preorder t).Nodup)
    {depth : ℕ} (hdepth : t.height ≤ depth) {h : Heap ε} (hkeys : h.Keys ids pids)
    (hempty : ∀ v ∈ preorder t, h.childrenOf v = []) :
    visit depth t.value h = .ok (h.link next (preorder t)) := by
  induction ht generalizing depth h with
  | @node a ts hvalues hsub ih =>
      simp only [preorder_node, List.mem_cons] at hnext hid hempty
      rw [preorder_node, List.nodup_cons] at hnodup
      rw [height_node] at hdepth
      obtain ⟨d, rfl⟩ : ∃ d, depth = d + 1 := ⟨depth - 1, by omega⟩
      have hts : ∀ t ∈ ts, ∀ h : Heap ε, h.Keys ids pids →
          (∀ v ∈ preorder t, h.childrenOf v = []) →
          visit d t.value h = .ok (h.link next (preorder t)) := by
        intro t ht h hkeys hempty
        have hmem : ∀ v ∈ preorder t, v ∈ preorderAll ts := fun v hv =>
          mem_preorderAll.mpr ⟨t, ht, hv⟩
        have hheight := height_le_heightAll ht
        exact ih t ht (fun v hv => hnext v (.inr (hmem v hv)))
          (fun v hv => hid v (.inr (hmem v hv)))
          ((preorder_sublist_preorderAll ht).nodup hnodup.2) (by omega) hkeys hempty
      have hchildren := hvalues.trans (hnext a (.inl rfl))
      have hnil : h.childrenOf a = [] := hempty a (.inl rfl)
      rw [value_node, L.visit_succ d a h hkeys,
        L.foldlM_body (hid a (.inl rfl)) hkeys hchildren hts hnodup.1 hnodup.2 hlist
          (by simp [hnil]) fun v hv => hempty v (.inr hv),
        hvalues, Heap.extend_link hnodup.1, preorder_node]

theorem foldlM_visit (hlist : (list.map ids).Nodup) {ts : List (RoseTree Ref)}
    (hts : ∀ t ∈ ts, Unfolds next t)
    (hnext : ∀ v ∈ preorderAll ts, next v = list.filter fun it => ids v = pids it)
    (hid : ∀ v ∈ preorderAll ts, ids v ≠ none) (hnodup : (preorderAll ts).Nodup)
    {depth : ℕ} (hdepth : ∀ t ∈ ts, t.height ≤ depth) {h : Heap ε}
    (hkeys : h.Keys ids pids) (hempty : ∀ v ∈ preorderAll ts, h.childrenOf v = []) :
    (ts.map value).foldlM (fun h it => visit depth it h) h =
      .ok (h.link next (preorderAll ts)) := by
  induction ts generalizing h with
  | nil => simp [pure, Except.pure]
  | cons t ts ih =>
      rw [preorderAll_cons] at hnext hid hempty hnodup
      obtain ⟨hnodupt, hnodupts, hdisj⟩ := List.nodup_append.mp hnodup
      have ht : t ∈ t :: ts := List.mem_cons_self
      rw [List.map_cons, List.foldlM_cons,
        L.visit_eq hlist (hts t ht) (fun v hv => hnext v (List.mem_append_left _ hv))
          (fun v hv => hid v (List.mem_append_left _ hv)) hnodupt (hdepth t ht) hkeys
          fun v hv => hempty v (List.mem_append_left _ hv)]
      refine (ih (fun u hu => hts u (List.mem_cons_of_mem t hu))
        (fun v hv => hnext v (List.mem_append_right _ hv))
        (fun v hv => hid v (List.mem_append_right _ hv)) hnodupts
        (fun u hu => hdepth u (List.mem_cons_of_mem t hu)) (hkeys.link next _)
        fun v hv => ?_).trans ?_
      · rw [Heap.childrenOf_link_of_not_mem fun hvt => hdisj v hvt v hv rfl]
        exact hempty v (List.mem_append_right _ hv)
      · rw [Heap.link_link fun r hr hr' => hdisj r hr r hr' rfl, preorderAll_cons]

end Links

end HelloBoot.TreeUtil
