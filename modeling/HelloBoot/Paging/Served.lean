import Mathlib.Data.List.Sort

/-!
# Reading a sorted list page by page

A reader asks for pages of at most `p` elements and passes, as the cursor of the
next page, the key of the last element it has received; a page holds only elements
whose key is strictly beyond the cursor. `served` is what the reader receives until
a page is empty. Over a sorted list it is a sublist, so nothing is received twice.
It is the whole list if and only if no page ends between two elements with the same
key (`served_eq_iff`): a cursor tells keys apart, not elements.
-/

namespace Paging

variable {α κ : Type*} [LinearOrder κ] (key : α → κ) (p : ℕ)

/-- The elements strictly beyond the cursor; no cursor is before everything. -/
def beyond : Option κ → List α → List α
  | none, l => l
  | some k, l => l.filter fun a => k < key a

theorem beyond_sublist (c : Option κ) (l : List α) : (beyond key c l).Sublist l := by
  cases c with
  | none => exact .refl l
  | some k => exact List.filter_sublist

theorem mem_of_getLast?_take {l : List α} {a : α} (h : (l.take p).getLast? = some a) : a ∈ l :=
  List.mem_of_mem_take (List.mem_of_getLast? h)

theorem length_beyond_lt {l : List α} {a : α} (h : a ∈ l) :
    (beyond key (some (key a)) l).length < l.length :=
  List.length_filter_lt_length_iff_exists.mpr ⟨a, h, by simp⟩

/-- What a reader receives from the pages of a list until a page is empty. -/
def served (l : List α) : List α :=
  match _ : (l.take p).getLast? with
  | none => []
  | some a => l.take p ++ served (beyond key (some (key a)) l)
termination_by l.length
decreasing_by exact length_beyond_lt key (mem_of_getLast?_take p ‹_›)

variable {key p}

theorem served_of_take_eq_nil {l : List α} (h : l.take p = []) : served key p l = [] := by
  unfold served
  split
  · rfl
  · rename_i hlast
    simp [h] at hlast

theorem served_of_getLast? {l : List α} {a : α} (h : (l.take p).getLast? = some a) :
    served key p l = l.take p ++ served key p (beyond key (some (key a)) l) := by
  rw [served.eq_def]
  split
  · rename_i hlast
    rw [h] at hlast
    cases hlast
  · rename_i b hlast
    rw [h] at hlast
    cases hlast
    rfl

theorem beyond_beyond {c : Option κ} {l : List α} {a : α} (h : a ∈ beyond key c l) :
    beyond key (some (key a)) (beyond key c l) = beyond key (some (key a)) l := by
  cases c with
  | none => rfl
  | some k =>
      have hk : k < key a := by simpa [beyond] using (List.mem_filter.mp h).2
      simp only [beyond, List.filter_filter]
      refine List.filter_congr fun b _ => ?_
      have himp : key a < key b → k < key b := hk.trans
      by_cases hb : key a < key b
      · simp [hb, himp hb]
      · simp [hb]

/-- Behind the last element of the first page only the rest of the list is left. -/
theorem beyond_eq_beyond_drop {l : List α} (hl : l.Pairwise fun a b => key a ≤ key b) {a : α}
    (ha : (l.take p).getLast? = some a) :
    beyond key (some (key a)) l = beyond key (some (key a)) (l.drop p) := by
  have htake : beyond key (some (key a)) (l.take p) = [] := by
    obtain ⟨front, hfront⟩ := List.getLast?_eq_some_iff.mp ha
    have hsorted := hl.sublist (List.take_sublist p l)
    rw [hfront] at hsorted ⊢
    refine List.filter_eq_nil_iff.mpr fun b hb => ?_
    rcases List.mem_append.mp hb with hb | hb
    · have hle := (List.pairwise_append.mp hsorted).2.2 b hb a (by simp)
      simpa using hle
    · obtain rfl := List.mem_singleton.mp hb
      simp
  calc beyond key (some (key a)) l
      = beyond key (some (key a)) (l.take p) ++ beyond key (some (key a)) (l.drop p) := by
        rw [beyond, beyond, beyond, ← List.filter_append, List.take_append_drop]
    _ = beyond key (some (key a)) (l.drop p) := by rw [htake, List.nil_append]

theorem served_sublist {l : List α} (hl : l.Pairwise fun a b => key a ≤ key b) :
    (served key p l).Sublist l := by
  induction hlength : l.length using Nat.strong_induction_on generalizing l with
  | _ n ih =>
    cases hlast : (l.take p).getLast? with
    | none => simp [served_of_take_eq_nil (List.getLast?_eq_none_iff.mp hlast)]
    | some a =>
        have hrest := ih _ (hlength ▸ length_beyond_lt key (mem_of_getLast?_take p hlast))
          (hl.sublist (beyond_sublist key (some (key a)) l)) rfl
        rw [served_of_getLast? hlast]
        rw [beyond_eq_beyond_drop hl hlast] at hrest ⊢
        have hdrop := (List.Sublist.refl (l.take p)).append
          (hrest.trans (beyond_sublist key (some (key a)) (l.drop p)))
        rwa [List.take_append_drop] at hdrop

/-- No page of `p` ends between two equal keys. -/
def Separated {κ : Type*} (p : ℕ) (ks : List κ) : Prop :=
  ∀ i < ks.length, p ∣ i + 1 → ks[i]? ≠ ks[i + 1]?

instance [DecidableEq κ] (p : ℕ) (ks : List κ) : Decidable (Separated p ks) :=
  inferInstanceAs (Decidable (∀ i < ks.length, p ∣ i + 1 → ks[i]? ≠ ks[i + 1]?))

section Separated

variable {κ : Type*} {p : ℕ} {ks : List κ}

theorem separated_nil (p : ℕ) : Separated p ([] : List κ) := by
  intro i hi
  simp at hi

theorem getLast?_take_of_le (hp : 0 < p) (hle : p ≤ ks.length) :
    (ks.take p).getLast? = ks[p - 1]? := by
  rw [List.getLast?_eq_getElem?, List.length_take, Nat.min_eq_left hle, List.getElem?_take,
    if_pos (by omega)]

theorem separated_iff (hp : 0 < p) (hks : ks ≠ []) :
    Separated p ks ↔ (ks.take p).getLast? ≠ (ks.drop p).head? ∧ Separated p (ks.drop p) := by
  constructor
  · intro h
    constructor
    · rcases lt_or_ge ks.length p with hlt | hge
      · rw [List.take_of_length_le hlt.le, List.drop_of_length_le hlt.le]
        simpa using hks
      · have hfirst := h (p - 1) (by omega) (by simp [Nat.sub_add_cancel hp])
        rwa [getLast?_take_of_le hp hge, List.head?_drop, ← Nat.sub_add_cancel hp]
    · intro i hi hdvd
      rw [List.length_drop] at hi
      have hnext := h (p + i) (by omega) ((Nat.dvd_add_right (Nat.dvd_refl p)).mpr hdvd)
      rwa [List.getElem?_drop, List.getElem?_drop]
  · rintro ⟨hfirst, hrest⟩ i hi hdvd
    rcases lt_or_ge i p with hlt | hge
    · have hi' : i + 1 = p := Nat.le_antisymm hlt (Nat.le_of_dvd (Nat.succ_pos i) hdvd)
      rw [getLast?_take_of_le hp (by omega), List.head?_drop] at hfirst
      rwa [hi', show i = p - 1 by omega]
    · obtain ⟨j, rfl⟩ := Nat.exists_eq_add_of_le hge
      have hnext := hrest j (by rw [List.length_drop]; omega)
        ((Nat.dvd_add_right (Nat.dvd_refl p)).mp hdvd)
      rwa [List.getElem?_drop, List.getElem?_drop] at hnext

end Separated

/-- Nothing is lost at the end of the first page. -/
theorem beyond_eq_self_iff {l : List α} (hl : l.Pairwise fun a b => key a ≤ key b) {a : α}
    (ha : ∀ b ∈ l, key a ≤ key b) :
    beyond key (some (key a)) l = l ↔ some (key a) ≠ (l.map key).head? := by
  cases l with
  | nil => simp [beyond]
  | cons b t =>
      have hbt := (List.pairwise_cons.mp hl).1
      have hab := ha b (by simp)
      constructor
      · intro h
        have hb : key a < key b := by
          have hmem : b ∈ beyond key (some (key a)) (b :: t) := by
            rw [h]
            exact List.mem_cons_self
          simpa [beyond] using (List.mem_filter.mp hmem).2
        simpa using hb.ne
      · intro h
        have hb : key a < key b := lt_of_le_of_ne hab (by simpa using h)
        refine List.filter_eq_self.mpr fun c hc => ?_
        rcases List.mem_cons.mp hc with rfl | hc
        · simpa using hb
        · simpa using hb.trans_le (hbt c hc)

/-- What is beyond a cursor is received as it stands if and only if the cursor hides
nothing and everything is received without it. -/
theorem served_beyond_eq_iff {c : Option κ} {l : List α}
    (hl : l.Pairwise fun a b => key a ≤ key b) :
    served key p (beyond key c l) = l ↔ beyond key c l = l ∧ served key p l = l := by
  constructor
  · intro h
    have hsub := served_sublist (p := p) (hl.sublist (beyond_sublist key c l))
    rw [h] at hsub
    have heq := (beyond_sublist key c l).antisymm hsub
    exact ⟨heq, by rwa [heq] at h⟩
  · rintro ⟨heq, h⟩
    rw [heq, h]

/-- Everything is received if and only if no page ends between two elements with the
same key. -/
theorem served_eq_iff (hp : 0 < p) {l : List α} (hl : l.Pairwise fun a b => key a ≤ key b) :
    served key p l = l ↔ Separated p (l.map key) := by
  induction hlength : l.length using Nat.strong_induction_on generalizing l with
  | _ n ih =>
    cases hlast : (l.take p).getLast? with
    | none =>
        have htake := List.getLast?_eq_none_iff.mp hlast
        obtain rfl : l = [] := by simpa [hp.ne'] using htake
        simp [served_of_take_eq_nil htake, separated_nil]
    | some a =>
        have hne : l ≠ [] := List.ne_nil_of_mem (mem_of_getLast?_take p hlast)
        have hkeys : l.map key ≠ [] := by simpa using hne
        have hpos := List.length_pos_iff.mpr hne
        have hdrop := hl.sublist (List.drop_sublist p l)
        have hle : ∀ b ∈ l.drop p, key a ≤ key b := by
          rw [← List.take_append_drop p l] at hl
          exact (List.pairwise_append.mp hl).2.2 a (List.mem_of_getLast? hlast)
        have hshorter : (l.drop p).length < n := by
          rw [List.length_drop, ← hlength]
          omega
        have hsplit : ∀ m, l.take p ++ m = l ↔ m = l.drop p := by
          intro m
          constructor
          · intro h
            exact List.append_cancel_left (h.trans (List.take_append_drop p l).symm)
          · rintro rfl
            exact List.take_append_drop p l
        calc served key p l = l
            ↔ served key p (beyond key (some (key a)) (l.drop p)) = l.drop p := by
              rw [served_of_getLast? hlast, beyond_eq_beyond_drop hl hlast, hsplit]
          _ ↔ some (key a) ≠ ((l.drop p).map key).head? ∧
                Separated p ((l.drop p).map key) := by
              rw [served_beyond_eq_iff hdrop, beyond_eq_self_iff hdrop hle,
                ih _ hshorter hdrop rfl]
          _ ↔ Separated p (l.map key) := by
              rw [separated_iff hp hkeys, ← List.map_take, ← List.map_drop,
                List.getLast?_map, hlast, Option.map_some]

end Paging
