import Mathlib.Data.List.DropRight
import Mathlib.Data.List.Basic

/-!
# `String.split`

`split` is `s.split(regex)` for a regular expression that matches one character: the
pieces between the separators, without the empty pieces at the end, and `s` alone if there
is no separator. What a reader finds in the pieces that skips empty ones does not depend on
the rule for the end (`findSome?_split`), and cutting at two separators in turn gives the
same pieces in either order (`flatMap_pieces_comm`).
-/

namespace HelloBoot

section SplitOn

variable {α : Type*}

theorem of_mem_splitOnP {p : α → Bool} {l w : List α} (h : w ∈ l.splitOnP p) :
    ∀ a ∈ w, a ∈ l ∧ p a = false := by
  induction l generalizing w with
  | nil => simp_all
  | cons b l ih =>
      obtain ⟨first, rest, hsplit⟩ := List.exists_cons_of_ne_nil (List.splitOnP_ne_nil p l)
      rw [List.splitOnP_cons_eq_if_modifyHead] at h
      have htail : ∀ w ∈ l.splitOnP p, ∀ a ∈ w, a ∈ b :: l ∧ p a = false := fun w hw a ha =>
        ⟨.tail b (ih hw a ha).1, (ih hw a ha).2⟩
      split at h
      case isTrue =>
          rcases List.mem_cons.mp h with rfl | h
          · exact nofun
          · exact htail w h
      case isFalse hb =>
          rw [hsplit, List.modifyHead_cons] at h
          rw [hsplit] at htail
          rcases List.mem_cons.mp h with rfl | h
          · refine List.forall_mem_cons.mpr ⟨⟨.head l, by simpa using hb⟩, ?_⟩
            exact htail first (.head rest)
          · exact htail w (.tail first h)

/-- Cutting the pieces again is cutting at both separators. -/
theorem flatMap_splitOnP (p q : α → Bool) (l : List α) :
    (l.splitOnP p).flatMap (List.splitOnP q) = l.splitOnP fun a => p a || q a := by
  induction l with
  | nil => simp
  | cons a l ih =>
      obtain ⟨first, rest, hsplit⟩ := List.exists_cons_of_ne_nil (List.splitOnP_ne_nil p l)
      obtain ⟨first', rest', hsplit'⟩ := List.exists_cons_of_ne_nil (List.splitOnP_ne_nil q first)
      rw [List.splitOnP_cons_eq_if_modifyHead, List.splitOnP_cons_eq_if_modifyHead, ← ih, hsplit]
      cases hp : p a with
      | true => simp
      | false =>
          simp only [Bool.false_eq_true, if_false, List.modifyHead_cons, List.flatMap_cons,
            List.splitOnP_cons_eq_if_modifyHead, hsplit']
          cases hq : q a with
          | true => simp
          | false => simp

end SplitOn

def pieces (c : Char) (s : String) : List String := (s.toList.splitOn c).map String.ofList

/-- `s.split(regex)` for a regular expression that matches the character `c`. -/
def split (c : Char) (s : String) : List String :=
  if c ∈ s.toList then (pieces c s).rdropWhile (· = "") else [s]

variable {c : Char} {s t w : String}

theorem pieces_of_notMem (h : c ∉ s.toList) : pieces c s = [s] := by
  rw [pieces, List.splitOn_eq_singleton h, List.map_singleton, String.ofList_toList]

theorem pieces_append (s t : String) :
    pieces c (s ++ String.singleton c ++ t) = pieces c s ++ pieces c t := by
  rw [pieces, String.toList_append, String.toList_append, String.toList_singleton,
    List.append_assoc, List.singleton_append, List.splitOn_append_cons_self, List.map_append]
  rfl

theorem pieces_cons (hs : c ∉ s.toList) (t : String) :
    pieces c (s ++ String.singleton c ++ t) = s :: pieces c t := by
  rw [pieces_append, pieces_of_notMem hs, List.singleton_append]

theorem pieces_append_of_notMem (hs : c ∉ s.toList) (t : String) :
    pieces c (s ++ t) = (pieces c t).modifyHead (s ++ ·) := by
  obtain ⟨first, rest, hsplit⟩ := List.exists_cons_of_ne_nil (List.splitOn_ne_nil c t.toList)
  have hlists : ∀ l : List Char, c ∉ l → (l ++ t.toList).splitOn c = (l ++ first) :: rest := by
    intro l hl
    induction l with
    | nil => exact hsplit
    | cons a l ih =>
        rw [List.mem_cons, not_or] at hl
        rw [List.cons_append, List.splitOn_cons_eq_if_modifyHead,
          if_neg (by simpa using Ne.symm hl.1), ih hl.2, List.modifyHead_cons, List.cons_append]
  rw [pieces, pieces, String.toList_append, hlists _ hs, hsplit, List.map_cons, List.map_cons,
    List.modifyHead_cons, String.ofList_append, String.ofList_toList]

theorem pieces_ne_nil (c : Char) (s : String) : pieces c s ≠ [] := by
  rw [pieces, ne_eq, List.map_eq_nil_iff]
  exact List.splitOn_ne_nil c s.toList

theorem of_mem_pieces (h : w ∈ pieces c s) : c ∉ w.toList ∧ ∀ x ∈ w.toList, x ∈ s.toList := by
  obtain ⟨l, hl, rfl⟩ := List.mem_map.mp h
  rw [List.splitOn_eq_splitOnP] at hl
  have hmem := of_mem_splitOnP hl
  rw [String.toList_ofList]
  exact ⟨fun hc => by simpa using (hmem c hc).2, fun x hx => (hmem x hx).1⟩

theorem infix_of_mem_pieces (h : w ∈ pieces c s) : w.toList <:+: s.toList := by
  obtain ⟨l, hl, rfl⟩ := List.mem_map.mp h
  have hjoin : [c].intercalate (s.toList.splitOn c) = s.toList := List.intercalate_splitOn c
  rw [String.toList_ofList, ← hjoin]
  clear hjoin h
  generalize s.toList.splitOn c = ls at hl
  induction ls with
  | nil => cases hl
  | cons l' ls ih =>
      by_cases hls : ls = []
      · subst hls
        obtain rfl := List.mem_singleton.mp hl
        simp
      · rw [List.intercalate_cons_of_ne_nil hls]
        rcases List.mem_cons.mp hl with rfl | hl
        · rw [List.append_assoc]
          exact (List.prefix_append _ _).isInfix
        · exact (ih hl).trans (List.suffix_append _ _).isInfix

theorem pieces_intercalate {parts : List String} (hne : parts ≠ [])
    (h : ∀ part ∈ parts, c ∉ part.toList) :
    pieces c ((String.singleton c).intercalate parts) = parts := by
  rw [pieces, String.toList_intercalate, String.toList_singleton,
    List.splitOn_intercalate c (by simpa using h) (by simpa using hne), List.map_map]
  exact List.map_id'' (fun _ => String.ofList_toList) parts

/-- The pieces determine the text. -/
theorem pieces_injective (c : Char) : Function.Injective (pieces c) := by
  intro s t h
  have hlists : s.toList.splitOn c = t.toList.splitOn c :=
    List.map_injective_iff.mpr (fun _ _ => String.ofList_inj.mp) h
  have hs : [c].intercalate (s.toList.splitOn c) = s.toList := List.intercalate_splitOn c
  have ht : [c].intercalate (t.toList.splitOn c) = t.toList := List.intercalate_splitOn c
  rw [← String.toList_inj, ← hs, hlists, ht]

theorem flatMap_pieces (a b : Char) (s : String) :
    (pieces a s).flatMap (pieces b) =
      (s.toList.splitOnP fun x => x == a || x == b).map String.ofList := by
  rw [pieces, List.flatMap_map, ← flatMap_splitOnP, List.map_flatMap]
  simp only [pieces, String.toList_ofList, List.splitOn_eq_splitOnP]

theorem flatMap_pieces_comm (a b : Char) (s : String) :
    (pieces a s).flatMap (pieces b) = (pieces b s).flatMap (pieces a) := by
  rw [flatMap_pieces, flatMap_pieces]
  simp only [Bool.or_comm]

theorem rdropWhile_append_replicate (l : List String) (n : ℕ) :
    (l ++ List.replicate n "").rdropWhile (· = "") = l.rdropWhile (· = "") := by
  induction n with
  | zero => rw [List.replicate_zero, List.append_nil]
  | succ n ih =>
      rw [List.replicate_succ', ← List.append_assoc,
        List.rdropWhile_concat_pos (· = "") _ "" (by simp), ih]

theorem rdropWhile_cons_cons {s t : String} (ht : t ≠ "") (l : List String) :
    ∃ l', (s :: t :: l).rdropWhile (· = "") = s :: t :: l' := by
  induction l using List.reverseRecOn with
  | nil => exact ⟨[], List.rdropWhile_concat_neg _ [s] t (by simpa using ht)⟩
  | append_singleton l w ih =>
      by_cases hw : w = ""
      · obtain ⟨l', hl'⟩ := ih
        exact ⟨l', (List.rdropWhile_concat_pos _ (s :: t :: l) w (by simpa using hw)).trans hl'⟩
      · exact ⟨l ++ [w], List.rdropWhile_concat_neg _ (s :: t :: l) w (by simpa using hw)⟩

/-- A reader that finds nothing in an empty piece finds the same in all pieces. -/
theorem findSome?_split {β : Type*} {f : String → Option β} (hf : f "" = none) (c : Char)
    (s : String) : (split c s).findSome? f = (pieces c s).findSome? f := by
  rw [split]
  split
  case isTrue =>
      have hempty : ((pieces c s).rtakeWhile (· = "")).findSome? f = none := by
        refine List.findSome?_eq_none_iff.mpr fun w hw => ?_
        have hw' : w = "" := by simpa using List.mem_rtakeWhile_imp hw
        rw [hw', hf]
      have hpieces : (pieces c s).rdropWhile (· = "") ++ (pieces c s).rtakeWhile (· = "") =
          pieces c s := List.rdropWhile_append_rtakeWhile
      conv_rhs => rw [← hpieces]
      rw [List.findSome?_append, hempty, Option.or_none]
  case isFalse h => rw [pieces_of_notMem h]

end HelloBoot
