import HelloBoot.Java.Objects
import Mathlib.Data.Finset.Card
import Mathlib.Data.Finset.Dedup

/-!
# `FixedValueValidator`

`isValid` returns in the first round of its loop over the set of allowed values, so it
compares with one of them only: the one that the set yields first. The verdict is that of
membership for every object if and only if no two different values are allowed
(`forall_isMembership_iff`).
-/

namespace HelloBoot.FixedValueValidator

/-- `initialize(constraintAnnotation)`: the set `values` of a new validator for the values of an
annotation. -/
def initializeValues (values : List String) : Finset String :=
  values.foldl (fun set val => insert val set) ∅

/-- An order in which a `HashSet` yields its elements. -/
structure IterationOrder (set : Finset String) where
  toList : List String
  nodup : toList.Nodup
  mem_toList : ∀ val, val ∈ toList ↔ val ∈ set

/-- `isValid(obj, context)`: the loop over the set, which returns in its first round. -/
def isValid {set : Finset String} (order : IterationOrder set) (obj : Option Obj) : Bool :=
  match order.toList with
  | [] => false
  | val :: _ => val = Obj.valueOf obj

theorem mem_foldl_insert {val : String} {values : List String} {set : Finset String} :
    val ∈ values.foldl (fun set val => insert val set) set ↔ val ∈ set ∨ val ∈ values := by
  induction values generalizing set with
  | nil => simp
  | cons val' values ih =>
      rw [List.foldl_cons, ih, Finset.mem_insert, List.mem_cons, or_comm (a := val = val'),
        or_assoc]

@[simp] theorem mem_initializeValues {val : String} {values : List String} :
    val ∈ initializeValues values ↔ val ∈ values := by
  rw [initializeValues, mem_foldl_insert]
  simp

variable {values : List String}

def IsMembership (order : IterationOrder (initializeValues values)) (obj : Option Obj) : Prop :=
  isValid order obj = true ↔ Obj.valueOf obj ∈ values

variable {order : IterationOrder (initializeValues values)} {obj : Option Obj}

theorem isValid_iff : isValid order obj = true ↔ order.toList.head? = some (Obj.valueOf obj) := by
  rw [isValid]
  cases order.toList with
  | nil => simp
  | cons val rest => simp

theorem isMembership_of_head
    (h : Obj.valueOf obj ∈ values → order.toList.head? = some (Obj.valueOf obj)) :
    IsMembership order obj := by
  refine ⟨fun hvalid => ?_, fun hobj => isValid_iff.mpr (h hobj)⟩
  rw [← mem_initializeValues, ← order.mem_toList]
  exact List.mem_of_head? (isValid_iff.mp hvalid)

/-- The verdict is right if and only if the text of the object is not allowed or is the
value that the set yields first. -/
theorem isMembership_iff (values : List String)
    (order : IterationOrder (initializeValues values)) (obj : Option Obj) :
    IsMembership order obj ↔
      (Obj.valueOf obj ∈ values → order.toList.head? = some (Obj.valueOf obj)) :=
  ⟨fun hverdict hobj => isValid_iff.mp (hverdict.mpr hobj), isMembership_of_head⟩

theorem exists_order_cons {set : Finset String} {val : String} (hval : val ∈ set) :
    ∃ (order : IterationOrder set) (rest : List String), order.toList = val :: rest := by
  refine ⟨⟨val :: (set.erase val).toList, ?_, fun val' => ?_⟩, _, rfl⟩
  · exact List.nodup_cons.mpr ⟨by simp, Finset.nodup_toList _⟩
  · rw [List.mem_cons, Finset.mem_toList, Finset.mem_erase]
    by_cases heq : val' = val
    · simp [heq, hval]
    · simp [heq]

/-- The verdict is right in every order and for every object if and only if no two
different values are allowed. -/
theorem forall_isMembership_iff (values : List String) :
    (∀ (order : IterationOrder (initializeValues values)) obj, IsMembership order obj) ↔
      ∀ val ∈ values, ∀ val' ∈ values, val = val' := by
  constructor
  · intro h val hval val' hval'
    obtain ⟨order, rest, horder⟩ := exists_order_cons (mem_initializeValues.mpr hval)
    have hfirst := isValid_iff.mp ((h order (some (.string val'))).mpr hval')
    rw [horder] at hfirst
    exact Option.some.inj hfirst
  · intro h order obj
    refine isMembership_of_head fun hobj => ?_
    cases horder : order.toList with
    | nil =>
        have hmem := (order.mem_toList _).mpr (mem_initializeValues.mpr hobj)
        rw [horder] at hmem
        cases hmem
    | cons val rest =>
        have hval : val ∈ values := by
          rw [← mem_initializeValues, ← order.mem_toList, horder]
          exact List.mem_cons_self
        exact congrArg some (h val hval _ hobj)

/-- Two values are allowed; their hashes put them into the buckets 1 and 7 of the set, so it
yields `wx` first. -/
def wxFirst : IterationOrder (initializeValues ["wx", "zfb"]) where
  toList := ["wx", "zfb"]
  nodup := by decide
  mem_toList val := by
    rw [mem_initializeValues]

theorem not_isMembership_of_wxFirst :
    isValid wxFirst (some (.string "zfb")) = false ∧
      ¬IsMembership wxFirst (some (.string "zfb")) := by
  have hverdict : isValid wxFirst (some (.string "zfb")) = false := by decide
  refine ⟨hverdict, fun h => ?_⟩
  have hallowed := h.mpr (by decide)
  rw [hverdict] at hallowed
  cases hallowed

end HelloBoot.FixedValueValidator
