import Mathlib.Algebra.Order.Group.Multiset
import Mathlib.Tactic.Abel

/-!
# Queues with acknowledgements

An item of such a queue is ready, or handed out under a tag to a holder, or settled, or rejected.
What is handed out is settled, rejected or given back by a condition on the tags and the holders;
a tag is used once. Whatever is done to a queue, the items stay the same but for those that are
put in (`items`), so none is lost and none is there twice.
-/

structure Held (α κ : Type) where
  holder : κ
  tag : ℕ
  item : α

/-- A queue of items `α` that holders `κ` take. -/
structure AckQueue (α κ : Type) where
  ready : List α := []
  held : List (Held α κ) := []
  settled : List α := []
  rejected : List α := []
  nextTag : ℕ := 0
  tag_lt : ∀ h ∈ held, h.tag < nextTag := by simp
  nodup_tag : (held.map Held.tag).Nodup := by simp

namespace AckQueue

variable {α κ : Type} (q : AckQueue α κ)

/-- Everything that has been put in, wherever it is now. -/
def items : Multiset α :=
  (q.ready : Multiset α) + (q.held.map Held.item : List α) + (q.settled : Multiset α) +
    (q.rejected : Multiset α)

def put (a : α) : AckQueue α κ := { q with ready := q.ready ++ [a] }

def take (holder : κ) (i : ℕ) (h : i < q.ready.length) : AckQueue α κ where
  ready := q.ready.eraseIdx i
  held := q.held ++ [⟨holder, q.nextTag, q.ready[i]⟩]
  settled := q.settled
  rejected := q.rejected
  nextTag := q.nextTag + 1
  tag_lt := by
    intro d hd
    rcases List.mem_append.mp hd with hd | hd
    · exact Nat.lt_succ_of_lt (q.tag_lt d hd)
    · rw [List.mem_singleton.mp hd]
      exact Nat.lt_succ_self _
  nodup_tag := by
    rw [List.map_append, List.nodup_append]
    refine ⟨q.nodup_tag, List.nodup_singleton _, fun t ht u hu => ?_⟩
    obtain ⟨d, hd, rfl⟩ := List.mem_map.mp ht
    rw [List.mem_singleton.mp hu]
    exact (q.tag_lt d hd).ne

def expire (i : ℕ) (h : i < q.ready.length) : AckQueue α κ :=
  { q with
    ready := q.ready.eraseIdx i
    rejected := q.rejected ++ [q.ready[i]] }

section Where

variable (p : Held α κ → Bool)

theorem tag_lt_of_mem_filter {d : Held α κ} (hd : d ∈ q.held.filter fun d => !p d) :
    d.tag < q.nextTag :=
  q.tag_lt d (List.mem_of_mem_filter hd)

theorem nodup_tag_filter : ((q.held.filter fun d => !p d).map Held.tag).Nodup :=
  q.nodup_tag.sublist (List.filter_sublist.map _)

def settle : AckQueue α κ where
  ready := q.ready
  held := q.held.filter fun d => !p d
  settled := q.settled ++ (q.held.filter p).map Held.item
  rejected := q.rejected
  nextTag := q.nextTag
  tag_lt _ := q.tag_lt_of_mem_filter p
  nodup_tag := q.nodup_tag_filter p

def giveBack : AckQueue α κ where
  ready := (q.held.filter p).map Held.item ++ q.ready
  held := q.held.filter fun d => !p d
  settled := q.settled
  rejected := q.rejected
  nextTag := q.nextTag
  tag_lt _ := q.tag_lt_of_mem_filter p
  nodup_tag := q.nodup_tag_filter p

def reject : AckQueue α κ where
  ready := q.ready
  held := q.held.filter fun d => !p d
  settled := q.settled
  rejected := q.rejected ++ (q.held.filter p).map Held.item
  nextTag := q.nextTag
  tag_lt _ := q.tag_lt_of_mem_filter p
  nodup_tag := q.nodup_tag_filter p

end Where

variable {q}

theorem eq_of_tag_eq {d d' : Held α κ} (hd : d ∈ q.held) (hd' : d' ∈ q.held)
    (h : d.tag = d'.tag) : d = d' := List.inj_on_of_nodup_map q.nodup_tag hd hd' h

theorem filter_held_eq_singleton {d : Held α κ} {p : Held α κ → Bool} (hd : d ∈ q.held)
    (h : ∀ d' ∈ q.held, p d' = true ↔ d'.tag = d.tag) : q.held.filter p = [d] := by
  have hnodup : (q.held.filter p).Nodup := (List.Nodup.of_map _ q.nodup_tag).filter p
  have hmem (d' : Held α κ) : d' ∈ q.held.filter p ↔ d' = d := by
    rw [List.mem_filter]
    constructor
    · rintro ⟨hd', hp⟩
      exact eq_of_tag_eq hd' hd ((h d' hd').mp hp)
    · rintro rfl
      exact ⟨hd, (h d' hd).mpr rfl⟩
  exact List.perm_singleton.mp ((List.perm_ext_iff_of_nodup hnodup (List.nodup_singleton d)).mpr
    fun d' => by rw [hmem, List.mem_singleton])

/-! ### No item is lost -/

theorem mem_items {a : α} : a ∈ q.items ↔
    ((a ∈ q.ready ∨ a ∈ q.held.map Held.item) ∨ a ∈ q.settled) ∨ a ∈ q.rejected := by
  simp only [items, Multiset.mem_add, Multiset.mem_coe]

theorem items_put (a : α) : (q.put a).items = q.items + {a} := by
  simp only [items, put, ← Multiset.coe_add, Multiset.coe_singleton]
  abel

theorem coe_eraseIdx {l : List α} {i : ℕ} (h : i < l.length) :
    (l.eraseIdx i : Multiset α) + {l[i]} = l := by
  rw [← Multiset.coe_singleton, add_comm, Multiset.coe_add]
  exact Multiset.coe_eq_coe.mpr (List.getElem_cons_eraseIdx_perm h)

theorem items_take {holder : κ} {i : ℕ} (h : i < q.ready.length) :
    (q.take holder i h).items = q.items := by
  simp only [items, take, List.map_append, List.map_singleton, ← Multiset.coe_add,
    Multiset.coe_singleton]
  rw [← coe_eraseIdx h]
  abel

theorem items_expire {i : ℕ} (h : i < q.ready.length) : (q.expire i h).items = q.items := by
  simp only [items, expire, ← Multiset.coe_add, Multiset.coe_singleton]
  rw [← coe_eraseIdx h]
  abel

theorem coe_filter_add (p : Held α κ → Bool) (l : List (Held α κ)) :
    (((l.filter p).map Held.item : List α) : Multiset α) +
      ((l.filter fun d => !p d).map Held.item : List α) = (l.map Held.item : List α) := by
  rw [Multiset.coe_add, ← List.map_append]
  exact Multiset.coe_eq_coe.mpr ((List.filter_append_perm p l).map _)

variable {p : Held α κ → Bool}

theorem items_settle : (q.settle p).items = q.items := by
  simp only [items, settle, ← Multiset.coe_add]
  rw [← coe_filter_add p q.held]
  abel

theorem items_giveBack : (q.giveBack p).items = q.items := by
  simp only [items, giveBack, ← Multiset.coe_add]
  rw [← coe_filter_add p q.held]
  abel

end AckQueue
