import Mathlib.Data.List.Perm.Basic

/-!
# Accounts of takers

A taker takes items one at a time, into its hand, and consumes or loses what it has in its hand
before it takes the next one. What it has taken is then what it has consumed, what it has in its
hand and what it has lost; and it consumes in the order in which it takes.
-/

namespace AckQueue

variable {α : Type*} {taken consumed lost : List α} {hand : Option α}

theorem perm_append_right_comm (l₁ l₂ l₃ : List α) : (l₁ ++ l₂ ++ l₃).Perm (l₁ ++ l₃ ++ l₂) := by
  rw [List.append_assoc, List.append_assoc]
  exact List.perm_append_comm.append_left l₁

/-- What is taken is consumed, in this order, or in the hand, or lost. -/
structure Account (taken consumed lost : List α) (hand : Option α) : Prop where
  perm : taken.Perm (consumed ++ hand.toList ++ lost)
  sublist : (consumed ++ hand.toList).Sublist taken

namespace Account

theorem take (h : Account taken consumed lost none) (item : Option α) :
    Account (taken ++ item.toList) consumed lost item where
  perm := by
    have hperm := h.perm
    rw [Option.toList_none, List.append_nil] at hperm
    exact (hperm.append_right _).trans (perm_append_right_comm ..)
  sublist := by
    have hsublist := h.sublist
    rw [Option.toList_none, List.append_nil] at hsublist
    exact hsublist.append_right _

theorem consume (h : Account taken consumed lost hand) :
    Account taken (consumed ++ hand.toList) lost none where
  perm := by
    rw [Option.toList_none, List.append_nil]
    exact h.perm
  sublist := by
    rw [Option.toList_none, List.append_nil]
    exact h.sublist

theorem lose (h : Account taken consumed lost hand) :
    Account taken consumed (lost ++ hand.toList) none where
  perm := by
    rw [Option.toList_none, List.append_nil, ← List.append_assoc]
    exact h.perm.trans (perm_append_right_comm ..)
  sublist := by
    rw [Option.toList_none, List.append_nil]
    exact (List.sublist_append_left ..).trans h.sublist

theorem miss (h : Account taken consumed lost hand) (item : Option α) :
    Account (taken ++ item.toList) consumed (lost ++ item.toList) hand where
  perm := by
    rw [← List.append_assoc]
    exact h.perm.append_right _
  sublist := h.sublist.trans (List.sublist_append_left ..)

end Account

end AckQueue
