import HelloBoot.Paging.Served

/-!
# Reading a list that changes from page to page

A reader asks for a fixed number of pages of at most `p` elements, with the key of the
last element received as the cursor; `l i` is the list when page `i` is asked for. The
elements received have strictly ascending keys, however the list changes
(`scan_pairwise`). A page is empty if and only if the list holds nothing beyond all that
has been received (`page_ne_nil_iff`), and over a list that does not change the pages are
its consecutive pieces (`scan_const`).
-/

namespace Paging

variable {α κ : Type*} [LinearOrder κ] (key : α → κ) (p : ℕ)

/-- The next page of a reader that has received `received`. -/
def page (received l : List α) : List α := (beyond key (received.getLast?.map key) l).take p

/-- What a reader has received after `n` more pages. -/
def scan (received : List α) (l : ℕ → List α) : ℕ → List α
  | 0 => received
  | n + 1 => scan (received ++ page key p received (l 0)) (fun i => l (i + 1)) n

def Fed (received : List α) (l : ℕ → List α) (n : ℕ) : Prop :=
  ∀ i < n, page key p (scan key p received l i) (l i) ≠ []

variable {key p} {received l : List α} {ls : ℕ → List α} {n : ℕ}

theorem fed_succ : Fed key p received ls (n + 1) ↔
    page key p received (ls 0) ≠ [] ∧
      Fed key p (received ++ page key p received (ls 0)) (fun i => ls (i + 1)) n := by
  constructor
  · intro h
    exact ⟨h 0 n.succ_pos, fun i hi => h (i + 1) (Nat.succ_lt_succ hi)⟩
  · rintro ⟨hfirst, hrest⟩ i hi
    cases i with
    | zero => exact hfirst
    | succ i => exact hrest i (Nat.lt_of_succ_lt_succ hi)

theorem mem_beyond {c : Option κ} {a : α} :
    a ∈ beyond key c l ↔ a ∈ l ∧ ∀ k ∈ c, k < key a := by
  cases c <;> simp [beyond]

theorem le_last_of_pairwise (h : received.Pairwise fun a b => key a < key b) {a b : α}
    (ha : a ∈ received) (hb : received.getLast? = some b) : key a ≤ key b := by
  obtain ⟨front, rfl⟩ := List.getLast?_eq_some_iff.mp hb
  rcases List.mem_append.mp ha with ha | ha
  · exact ((List.pairwise_append.mp h).2.2 a ha b (List.mem_singleton_self b)).le
  · rw [List.mem_singleton.mp ha]

/-- Beyond the cursor is beyond all that has been received. -/
theorem mem_beyond_last (h : received.Pairwise fun a b => key a < key b) {a : α} :
    a ∈ beyond key (received.getLast?.map key) l ↔ a ∈ l ∧ ∀ b ∈ received, key b < key a := by
  rw [mem_beyond]
  refine and_congr_right fun _ => ?_
  constructor
  · intro hlast b hb
    cases hend : received.getLast? with
    | none => simp [List.getLast?_eq_none_iff.mp hend] at hb
    | some c => exact (le_last_of_pairwise h hb hend).trans_lt (hlast _ (by simp [hend]))
  · intro hall k hk
    obtain ⟨b, hb, rfl⟩ := Option.map_eq_some_iff.mp hk
    exact hall b (List.mem_of_getLast? hb)

theorem page_ne_nil_iff (hp : 0 < p) (h : received.Pairwise fun a b => key a < key b) :
    page key p received l ≠ [] ↔ ∃ a ∈ l, ∀ b ∈ received, key b < key a := by
  have htake : page key p received l ≠ [] ↔ beyond key (received.getLast?.map key) l ≠ [] := by
    rw [page, ne_eq, List.take_eq_nil_iff, not_or, and_iff_right hp.ne']
  rw [htake]
  constructor
  · intro hne
    obtain ⟨a, ha⟩ := List.exists_mem_of_ne_nil _ hne
    exact ⟨a, (mem_beyond_last h).mp ha⟩
  · rintro ⟨a, ha⟩
    exact List.ne_nil_of_mem ((mem_beyond_last h).mpr ha)

theorem append_page_pairwise (hl : l.Pairwise fun a b => key a < key b)
    (h : received.Pairwise fun a b => key a < key b) :
    (received ++ page key p received l).Pairwise fun a b => key a < key b := by
  refine List.pairwise_append.mpr ⟨h, ?_, ?_⟩
  · exact hl.sublist ((List.take_sublist p _).trans (beyond_sublist key _ l))
  · intro a ha b hb
    exact ((mem_beyond_last h).mp (List.mem_of_mem_take hb)).2 a ha

theorem scan_pairwise (hls : ∀ i, (ls i).Pairwise fun a b => key a < key b)
    (h : received.Pairwise fun a b => key a < key b) (n : ℕ) :
    (scan key p received ls n).Pairwise fun a b => key a < key b := by
  induction n generalizing received ls with
  | zero => exact h
  | succ n ih => exact ih (fun i => hls (i + 1)) (append_page_pairwise (hls 0) h)

theorem beyond_take (hl : l.Pairwise fun a b => key a < key b) (m : ℕ) :
    beyond key ((l.take m).getLast?.map key) l = l.drop m := by
  cases hlast : (l.take m).getLast? with
  | none =>
      rcases List.take_eq_nil_iff.mp (List.getLast?_eq_none_iff.mp hlast) with rfl | rfl
      · rfl
      · rw [List.drop_nil]
        rfl
  | some a =>
      rw [Option.map_some, beyond_eq_beyond_drop (hl.imp fun hab => hab.le) hlast]
      rw [← List.take_append_drop m l] at hl
      refine List.filter_eq_self.mpr fun b hb => decide_eq_true ?_
      exact (List.pairwise_append.mp hl).2.2 a (List.mem_of_getLast? hlast) b hb

theorem page_take (hl : l.Pairwise fun a b => key a < key b) (m : ℕ) :
    page key p (l.take m) l = (l.drop m).take p := by
  rw [page, beyond_take hl]

/-- Over a list that does not change, each page goes on where the one before it ended. -/
theorem scan_const (hl : l.Pairwise fun a b => key a < key b) (m n : ℕ) :
    scan key p (l.take m) (fun _ => l) n = l.take (m + n * p) := by
  induction n generalizing m with
  | zero => rw [scan, Nat.zero_mul, Nat.add_zero]
  | succ n ih =>
      rw [scan, page_take hl, ← List.take_add, ih, Nat.succ_mul, Nat.add_assoc, Nat.add_comm p]

theorem fed_const_iff (hp : 0 < p) (hl : l.Pairwise fun a b => key a < key b) :
    Fed key p [] (fun _ => l) n ↔ ∀ i < n, i * p < l.length := by
  refine forall₂_congr fun i _ => ?_
  have hscan := scan_const (p := p) hl 0 i
  rw [List.take_zero, Nat.zero_add] at hscan
  rw [hscan, page_take hl, ne_eq, List.take_eq_nil_iff, List.drop_eq_nil_iff]
  omega

end Paging
