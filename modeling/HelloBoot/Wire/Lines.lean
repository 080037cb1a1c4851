import Mathlib.Data.List.TakeWhile
import Mathlib.Data.Nat.Notation

/-!
# Reading line by line

A line ends at one of two symbols, or at the end of the text; the first of them followed by the
second ends one line and not two. The reader passes over a second symbol only when it reads on, so
it remembers that it has met the first. Whatever the lines are, together they are the text without
the two symbols (`flatten_lines`).
-/

namespace Wire

/-- A text, what is left of it, and whether the last line has ended at the first symbol. -/
structure LineReader (α : Type) where
  rest : List α
  skipLF : Bool := false

namespace LineReader

variable {α : Type} [DecidableEq α] (cr lf : α)

/-- A line goes on with this symbol. -/
def goes (c : α) : Bool := decide (c ≠ cr ∧ c ≠ lf)

/-- What is still to be read, without the second half of a line's end. -/
def skipped (r : LineReader α) : List α :=
  if r.skipLF ∧ r.rest.head? = some lf then r.rest.tail else r.rest

/-- The next line, unless there is nothing left. -/
def readLine (r : LineReader α) : Option (List α × LineReader α) :=
  match r.skipped lf with
  | [] => none
  | text@(_ :: _) =>
      match text.dropWhile (goes cr lf) with
      | [] => some (text.takeWhile (goes cr lf), ⟨[], false⟩)
      | c :: rest => some (text.takeWhile (goes cr lf), ⟨rest, c = cr⟩)

variable {cr lf} {r r' : LineReader α} {line : List α}

theorem length_skipped_le (r : LineReader α) : (r.skipped lf).length ≤ r.rest.length := by
  rw [skipped]
  split
  case isTrue =>
    rw [List.length_tail]
    exact Nat.sub_le _ _
  case isFalse => exact Nat.le_refl _

/-- The text is the line, its end if there is one, and what is left. -/
theorem exists_of_readLine (h : r.readLine cr lf = some (line, r')) :
    ∃ ending, r.skipped lf = line ++ ending ++ r'.rest ∧ (∀ c ∈ line, goes cr lf c = true) ∧
      (∀ c ∈ ending, ¬goes cr lf c = true) ∧ line ++ ending ≠ [] := by
  rw [readLine] at h
  split at h
  case h_1 => cases h
  case h_2 text c cs htext =>
    have hsplit := List.takeWhile_append_dropWhile (p := goes cr lf) (l := c :: cs)
    have hline : ∀ x ∈ (c :: cs).takeWhile (goes cr lf), goes cr lf x = true := fun _ =>
      List.mem_takeWhile_imp
    split at h
    case h_1 hdrop =>
      cases h
      rw [hdrop] at hsplit
      refine ⟨[], ?_, hline, List.forall_mem_nil _, ?_⟩
      · rw [htext, List.append_nil, hsplit]
      · rw [hsplit]
        exact List.cons_ne_nil _ _
    case h_2 e rest hdrop =>
      cases h
      rw [hdrop] at hsplit
      refine ⟨[e], ?_, hline, List.forall_mem_singleton.mpr ?_, by simp⟩
      · rw [htext, List.append_assoc, List.singleton_append, hsplit]
      · have he := List.head_dropWhile_not (goes cr lf) (l := c :: cs)
          (by rw [hdrop]; exact List.cons_ne_nil _ _)
        simpa only [hdrop, List.head_cons, Bool.not_eq_true] using he

theorem length_lt_of_readLine (h : r.readLine cr lf = some (line, r')) :
    r'.rest.length < r.rest.length := by
  obtain ⟨ending, htext, _, _, hne⟩ := exists_of_readLine h
  have hlength := congrArg List.length htext
  have hle : (r.skipped lf).length ≤ r.rest.length := length_skipped_le r
  have hpos := List.length_pos_iff.mpr hne
  rw [List.length_append] at hlength
  omega

variable (cr lf) in
/-- `while ((line = reader.readLine()) != null)`: the lines. -/
def lines (r : LineReader α) : List (List α) :=
  match _h : r.readLine cr lf with
  | none => []
  | some (line, r') => line :: lines r'
termination_by r.rest.length
decreasing_by exact length_lt_of_readLine _h

def unbroken (cr lf : α) (text : List α) : List α := text.filter (goes cr lf)

theorem unbroken_append (text more : List α) :
    unbroken cr lf (text ++ more) = unbroken cr lf text ++ unbroken cr lf more :=
  List.filter_append ..

theorem unbroken_skipped (r : LineReader α) :
    unbroken cr lf (r.skipped lf) = unbroken cr lf r.rest := by
  rw [skipped]
  split
  case isTrue h =>
    obtain ⟨text, htext⟩ := List.head?_eq_some_iff.mp h.2
    rw [htext, List.tail_cons, unbroken, unbroken,
      List.filter_cons_of_neg (by simp [goes])]
  case isFalse => rfl

theorem skipped_eq_nil_of_readLine (h : r.readLine cr lf = none) : r.skipped lf = [] := by
  rw [readLine] at h
  split at h
  case h_1 hnil => exact hnil
  case h_2 => split at h <;> cases h

theorem flatten_lines (r : LineReader α) : (lines cr lf r).flatten = unbroken cr lf r.rest := by
  induction r using lines.induct cr lf with
  | case1 r h =>
      rw [lines, ← unbroken_skipped]
      split
      case h_1 => rw [skipped_eq_nil_of_readLine h, unbroken, List.filter_nil, List.flatten_nil]
      case h_2 heq => exact absurd (h.symm.trans heq) nofun
  | case2 r line r' h ih =>
      obtain ⟨ending, htext, hline, hending, _⟩ := exists_of_readLine h
      rw [lines]
      split
      case h_1 heq => exact absurd (heq.symm.trans h) nofun
      case h_2 line' r'' heq =>
        obtain ⟨rfl, rfl⟩ := Prod.mk.inj (Option.some.inj (heq.symm.trans h))
        have hkept : unbroken cr lf line' = line' :=
          List.filter_eq_self.mpr hline
        have hdropped : unbroken cr lf ending = [] :=
          List.filter_eq_nil_iff.mpr hending
        rw [List.flatten_cons, ih, ← unbroken_skipped r, htext, unbroken_append, unbroken_append,
          hkept, hdropped, List.append_nil]

end LineReader

end Wire
