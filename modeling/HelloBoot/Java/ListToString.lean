import Mathlib.Data.List.Basic

/-!
# `List.toString`

A list of strings is written between brackets with `", "` between its elements, which may
hold that text themselves. `cutPair` cuts a text at each `", "`; two lists are written alike if
and only if their elements fall into the same fragments, where the empty list has the
fragments of one empty string (`listToString_eq_iff`).
-/

namespace HelloBoot

section Cut

variable {α : Type*} [DecidableEq α] {a b : α}

/-- The pieces of a text between the occurrences of the separator `a`, `b`. -/
def cutPair (a b : α) : List α → List (List α)
  | [] => [[]]
  | [c] => [[c]]
  | c :: d :: l =>
      if c = a ∧ d = b then [] :: cutPair a b l else (cutPair a b (d :: l)).modifyHead (c :: ·)

theorem cutPair_ne_nil (a b : α) (l : List α) : cutPair a b l ≠ [] := by
  fun_induction cutPair a b l with
  | case1 | case2 | case3 => exact List.cons_ne_nil _ _
  | case4 c d l _ ih => rwa [ne_eq, List.modifyHead_eq_nil_iff]

theorem intercalate_cutPair (a b : α) (l : List α) : [a, b].intercalate (cutPair a b l) = l := by
  fun_induction cutPair a b l with
  | case1 | case2 => simp
  | case3 c d l h ih =>
      rw [List.intercalate_cons_of_ne_nil (cutPair_ne_nil a b l), ih, h.1, h.2]
      rfl
  | case4 c d l _ ih =>
      obtain ⟨first, rest, hcut⟩ := List.exists_cons_of_ne_nil (cutPair_ne_nil a b (d :: l))
      rw [hcut] at ih ⊢
      rw [List.modifyHead_cons, List.intercalate_cons_cons_left, ih]

theorem cutPair_injective (a b : α) : Function.Injective (cutPair a b) := by
  intro l r h
  rw [← intercalate_cutPair a b l, h, intercalate_cutPair]

/-- A separator that has been added is found, whatever stands in front of it. -/
theorem cutPair_append (hab : a ≠ b) (l r : List α) :
    cutPair a b (l ++ a :: b :: r) = cutPair a b l ++ cutPair a b r := by
  fun_induction cutPair a b l with
  | case1 => simp [cutPair]
  | case2 c => simp [cutPair, hab]
  | case3 c d l h ih => simp [cutPair, h, ih]
  | case4 c d l h ih =>
      obtain ⟨first, rest, hcut⟩ := List.exists_cons_of_ne_nil (cutPair_ne_nil a b (d :: l))
      rw [hcut] at ih ⊢
      rw [List.cons_append, List.cons_append, cutPair, if_neg h, ← List.cons_append, ih]
      rfl

theorem cutPair_intercalate (hab : a ≠ b) {ls : List (List α)} (hls : ls ≠ []) :
    cutPair a b ([a, b].intercalate ls) = ls.flatMap (cutPair a b) := by
  induction ls with
  | nil => exact absurd rfl hls
  | cons l ls ih =>
      by_cases hrest : ls = []
      · subst hrest
        simp
      · rw [List.intercalate_cons_of_ne_nil hrest, List.append_assoc, List.flatMap_cons, ← ih hrest]
        exact cutPair_append hab l _

theorem cutPair_eq_singleton {l : List α} (h : ¬[a, b] <:+: l) : cutPair a b l = [l] := by
  fun_induction cutPair a b l with
  | case1 | case2 => rfl
  | case3 c d l hcd ih => exact absurd ⟨[], l, by simp [hcd]⟩ h
  | case4 c d l hcd ih => rw [ih fun hin => h (hin.trans (List.suffix_cons c _).isInfix)]; rfl

end Cut

def listToString (list : List String) : String := "[" ++ ", ".intercalate list ++ "]"

/-- The fragments of the elements between all `", "`; the empty list counts as one empty
element. -/
def fragments (list : List String) : List (List Char) :=
  if list = [] then [[]] else list.flatMap fun s => cutPair ',' ' ' s.toList

theorem cutPair_toList_intercalate (list : List String) :
    cutPair ',' ' ' (", ".intercalate list).toList = fragments list := by
  rw [fragments, String.toList_intercalate]
  split
  case isTrue h =>
      subst h
      rfl
  case isFalse h =>
      have hcut : cutPair ',' ' ' ([',', ' '].intercalate (list.map String.toList)) =
          (list.map String.toList).flatMap (cutPair ',' ' ') :=
        cutPair_intercalate (by decide) (by simpa using h)
      rw [List.flatMap_map] at hcut
      exact hcut

/-- Lists are written alike if and only if they have the same fragments. -/
theorem listToString_eq_iff {list list' : List String} :
    listToString list = listToString list' ↔ fragments list = fragments list' := by
  rw [← cutPair_toList_intercalate, ← cutPair_toList_intercalate,
    (cutPair_injective ',' ' ').eq_iff, String.toList_inj, listToString, listToString]
  constructor
  · intro h
    have hlists := congrArg String.toList h
    simp only [String.toList_append, List.append_assoc] at hlists
    rw [← String.toList_inj]
    exact List.append_cancel_right (List.append_cancel_left hlists)
  · intro h
    rw [h]

/-- No element holds `", "`, and the list is not that of one empty string. -/
def PlainList (list : List String) : Prop :=
  (∀ s ∈ list, ¬[',', ' '] <:+: s.toList) ∧ list ≠ [""]

theorem fragments_of_plain {list : List String} (h : PlainList list) (hne : list ≠ []) :
    fragments list = list.map String.toList := by
  rw [fragments, if_neg hne, List.map_eq_flatMap]
  exact List.flatMap_congr fun s hs => cutPair_eq_singleton (h.1 s hs)

/-- Plain lists are told apart by their fragments. -/
theorem fragments_inj_of_plain {list list' : List String} (h : PlainList list)
    (h' : PlainList list') : fragments list = fragments list' ↔ list = list' := by
  have hempty : ∀ {list : List String}, PlainList list → list ≠ [] → fragments list ≠ [[]] := by
    intro list h hne heq
    rw [fragments_of_plain h hne] at heq
    obtain ⟨s, rfl, hs⟩ := List.map_eq_singleton_iff.mp heq
    exact h.2 (congrArg ([·]) (String.toList_eq_nil_iff.mp hs))
  constructor
  · intro heq
    by_cases hne : list = []
    · by_cases hne' : list' = []
      · rw [hne, hne']
      · exact absurd (heq.symm.trans (hne ▸ rfl)) (hempty h' hne')
    · by_cases hne' : list' = []
      · exact absurd (heq.trans (hne' ▸ rfl)) (hempty h hne)
      · rw [fragments_of_plain h hne, fragments_of_plain h' hne'] at heq
        exact List.map_injective_iff.mpr (fun _ _ => String.toList_inj.mp) heq
  · exact congrArg fragments

end HelloBoot
