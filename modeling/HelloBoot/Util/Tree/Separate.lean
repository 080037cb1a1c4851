import HelloBoot.Util.Tree.ToTree

/-!
# Separating the roots

Both builders take the roots out of the list with `removeAll`, which asks the `equals` of
the element class. An element that is no root stays in the list if and only if it equals
no root (`keepsDescendants_iff`); the class of the source's demonstration compares names
only, so there a node of the same name as a root is lost.
-/

namespace HelloBoot.TreeUtil

variable {ε : Type} {equals : Ref → Ref → Except Throwable Bool}

/-- When `contains` returns, it says whether some element of the list is equal. -/
theorem contains_eq_true_iff {it : Ref} {c : List Ref} {found : Bool}
    (h : contains equals it c = .ok found) :
    found = true ↔ ∃ r ∈ c, equals it r = .ok true := by
  induction c with
  | nil =>
      cases h
      simp
  | cons r rs ih =>
      obtain ⟨b, hr, h⟩ := Loops.exists_of_bind_eq_ok h
      cases b with
      | true =>
          cases h
          simp [hr]
      | false => simpa [hr] using ih h

theorem mem_removeAll_iff {c list kept : List Ref} (h : removeAll equals c list = .ok kept)
    {it : Ref} : it ∈ kept ↔ it ∈ list ∧ ¬ ∃ r ∈ c, equals it r = .ok true := by
  induction list generalizing kept with
  | nil =>
      cases h
      simp
  | cons x list ih =>
      obtain ⟨found, hfound, h⟩ := Loops.exists_of_bind_eq_ok h
      obtain ⟨rest, hrest, h⟩ := Loops.exists_of_bind_eq_ok h
      have hx := contains_eq_true_iff hfound
      cases h
      cases found with
      | true =>
          -- `x` is removed because it equals one of the others
          simp only [true_iff] at hx
          simp only [if_true, ih hrest, List.mem_cons]
          constructor
          · exact fun hit => ⟨.inr hit.1, hit.2⟩
          · rintro ⟨rfl | hit, hnone⟩
            · exact absurd hx hnone
            · exact ⟨hit, hnone⟩
      | false =>
          simp only [Bool.false_eq_true, false_iff] at hx
          simp only [Bool.false_eq_true, if_false, List.mem_cons, ih hrest]
          constructor
          · rintro (rfl | hit)
            · exact ⟨.inl rfl, hx⟩
            · exact ⟨.inr hit.1, hit.2⟩
          · rintro ⟨rfl | hit, hnone⟩
            · exact .inl rfl
            · exact .inr ⟨hit, hnone⟩

/-- The list that a builder leaves behind is what `removeAll` keeps. -/
theorem list_of_buildWith {visit : List Ref → ℕ → Ref → Heap ε → Except Throwable (Heap ε)}
    {equals : Heap ε → Ref → Ref → Except Throwable Bool} {depth : ℕ} {list kept : List Ref}
    {h : Heap ε} {built : Built ε}
    (hremove : removeAll (equals h) (list.filter fun r => isEmpty (h r).pid) list = .ok kept)
    (hbuild : buildWith visit equals depth list h = .ok built) : built.list = kept := by
  obtain ⟨kept', heap, hremove', -, rfl⟩ := buildWith_eq_ok_iff.mp hbuild
  exact Except.ok.inj (hremove'.symm.trans hremove)

/-- After `removeAll` the list of either builder still contains every element with a
non-empty pid if and only if no such element equals a root. -/
theorem keepsDescendants_iff {equals : Heap ε → Ref → Ref → Except Throwable Bool}
    {list kept : List Ref} {h : Heap ε}
    (hremove : removeAll (equals h) (list.filter fun r => isEmpty (h r).pid) list = .ok kept) :
    ((∀ it ∈ list, isEmpty (h it).pid = false → it ∈ kept) ↔
      ∀ it ∈ list, isEmpty (h it).pid = false →
        ∀ r ∈ list, isEmpty (h r).pid = true → equals h it r ≠ .ok true) ∧
    ∀ depth built, toTree equals depth list h = .ok built ∨
      listToTree equals depth list h = .ok built → built.list = kept := by
  refine ⟨forall₃_congr fun it hit _ => ?_, fun depth built hbuild => ?_⟩
  · rw [mem_removeAll_iff hremove]
    simp [hit]
  · exact hbuild.elim (list_of_buildWith hremove) (list_of_buildWith hremove)

/-- A root and a node below it that have the same name. -/
def namesakes : Heap String
  | 0 => ⟨"1", none, none, "a"⟩
  | _ => ⟨"2", "1", none, "a"⟩

/-- The `equals` that is generated for a class which adds a name to `TreeNode`, without a
call of the one of `TreeNode`. -/
def nameEquals (h : Heap String) (this o : Ref) : Except Throwable Bool :=
  pure (decide ((h this).ext = (h o).ext))

theorem keepsDescendants_iff_demo :
    ((∀ it ∈ [0, 1, 2, 3, 4, 5], isEmpty (demo it).pid = false → it ∈ [2, 3, 4, 5]) ↔
      ∀ it ∈ [0, 1, 2, 3, 4, 5], isEmpty (demo it).pid = false →
        ∀ r ∈ [0, 1, 2, 3, 4, 5], isEmpty (demo r).pid = true →
          treeNodeEquals 1 demo it r ≠ .ok true) ∧
    ∀ depth built, toTree (treeNodeEquals 1) depth [0, 1, 2, 3, 4, 5] demo = .ok built ∨
      listToTree (treeNodeEquals 1) depth [0, 1, 2, 3, 4, 5] demo = .ok built →
        built.list = [2, 3, 4, 5] :=
  keepsDescendants_iff (removeAll_roots demo_freshItems.nodup_ids fun _ => Nat.one_pos)

/-- The node below the root is removed with it, and is in no tree. -/
theorem not_keepsDescendants_of_namesakes :
    ([0, 1].map namesakes.ids).Nodup ∧
      removeAll (nameEquals namesakes) ([0, 1].filter fun r => isEmpty (namesakes r).pid) [0, 1] =
        .ok [] ∧
      ¬ (∀ it ∈ [0, 1], isEmpty (namesakes it).pid = false → it ∈ ([] : List Ref)) ∧
      toTree nameEquals 2 [0, 1] namesakes = .ok ⟨namesakes, [], [0]⟩ :=
  ⟨by decide, rfl, by decide, rfl⟩

end HelloBoot.TreeUtil
