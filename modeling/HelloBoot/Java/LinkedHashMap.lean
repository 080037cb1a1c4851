import Mathlib.Data.List.Induction
import Mathlib.Data.List.Nodup
import Mathlib.Data.List.Perm.Subperm

/-!
# Maps with an order

A `LinkedHashMap` is a list of entries with distinct keys. `put` replaces the value of a
key where it stands, and adds a new key at the end; the entries of a `HashMap` are
listed in the same way where nothing depends on their order.

After any number of calls of `put` a key holds what was put last (`get_putAll`), and new
distinct keys are listed one after the other (`entries_putAll`).
-/

namespace HelloBoot

@[ext] structure LinkedHashMap (κ ν : Type*) where
  entries : List (κ × ν)
  nodup : (entries.map Prod.fst).Nodup

namespace LinkedHashMap

variable {κ ν : Type*}

def empty : LinkedHashMap κ ν := ⟨[], List.nodup_nil⟩

def keys (m : LinkedHashMap κ ν) : List κ := m.entries.map Prod.fst

variable [DecidableEq κ]

/-- The entries with `v` as the value of `k`. -/
def putEntry (k : κ) (v : ν) : List (κ × ν) → List (κ × ν)
  | [] => [(k, v)]
  | e :: l => if e.1 = k then (k, v) :: l else e :: putEntry k v l

theorem map_fst_putEntry (k : κ) (v : ν) (l : List (κ × ν)) :
    (putEntry k v l).map Prod.fst =
      if k ∈ l.map Prod.fst then l.map Prod.fst else l.map Prod.fst ++ [k] := by
  induction l with
  | nil => rfl
  | cons e l ih =>
      by_cases he : e.1 = k
      · simp [putEntry, he]
      · rw [putEntry, if_neg he, List.map_cons, ih]
        simp only [List.map_cons, List.mem_cons, Ne.symm he, false_or]
        split <;> rfl

theorem putEntry_of_notMem {k : κ} (v : ν) {l : List (κ × ν)} (h : k ∉ l.map Prod.fst) :
    putEntry k v l = l ++ [(k, v)] := by
  induction l with
  | nil => rfl
  | cons e l ih =>
      simp only [List.map_cons, List.mem_cons, not_or] at h
      rw [putEntry, if_neg (Ne.symm h.1), ih h.2, List.cons_append]

def getEntry (k : κ) : List (κ × ν) → Option ν
  | [] => none
  | e :: l => if e.1 = k then some e.2 else getEntry k l

theorem getEntry_eq_some_iff {k : κ} {v : ν} {l : List (κ × ν)} (hl : (l.map Prod.fst).Nodup) :
    getEntry k l = some v ↔ (k, v) ∈ l := by
  induction l with
  | nil => simp [getEntry]
  | cons e l ih =>
      obtain ⟨hnew, hl⟩ := List.nodup_cons.mp hl
      rw [getEntry, List.mem_cons]
      split
      case isTrue he =>
          -- the key stands only once
          subst he
          have hnot : (e.1, v) ∉ l := fun hmem =>
            hnew (List.mem_map.mpr ⟨_, hmem, rfl⟩)
          simp [hnot, Prod.ext_iff, eq_comm]
      case isFalse he =>
          have hne : (k, v) ≠ e := fun heq => he (heq ▸ rfl)
          simp [hne, ih hl]

theorem mem_of_getEntry {k : κ} {v : ν} {l : List (κ × ν)} (h : getEntry k l = some v) :
    (k, v) ∈ l := by
  induction l with
  | nil => cases h
  | cons e l ih =>
      rw [getEntry] at h
      split at h
      case isTrue he =>
          subst he
          exact Option.some.inj h ▸ .head l
      case isFalse => exact .tail e (ih h)

theorem getEntry_map {ν' : Type*} (f : ν → ν') (k : κ) (l : List (κ × ν)) :
    getEntry k (l.map fun e => (e.1, f e.2)) = (getEntry k l).map f := by
  induction l with
  | nil => rfl
  | cons e l ih =>
      rw [List.map_cons, getEntry, getEntry]
      split
      case isTrue => rfl
      case isFalse => exact ih

theorem exists_getEntry_of_mem {e : κ × ν} {l : List (κ × ν)} (h : e ∈ l) :
    ∃ v, getEntry e.1 l = some v := by
  induction l with
  | nil => cases h
  | cons e' l ih =>
      rw [getEntry]
      split
      case isTrue => exact ⟨e'.2, rfl⟩
      case isFalse he =>
          rcases List.mem_cons.mp h with rfl | h
          · exact absurd rfl he
          · exact ih h

theorem getEntry_putEntry_self (k : κ) (v : ν) (l : List (κ × ν)) :
    getEntry k (putEntry k v l) = some v := by
  induction l with
  | nil => simp [putEntry, getEntry]
  | cons e l ih =>
      rw [putEntry]
      split
      case isTrue => simp [getEntry]
      case isFalse he => rw [getEntry, if_neg he, ih]

theorem getEntry_putEntry_of_ne {k k' : κ} (h : k' ≠ k) (v : ν) (l : List (κ × ν)) :
    getEntry k' (putEntry k v l) = getEntry k' l := by
  induction l with
  | nil => simp [putEntry, getEntry, h.symm]
  | cons e l ih =>
      rw [putEntry]
      split
      case isTrue he => simp [getEntry, he, h.symm]
      case isFalse => rw [getEntry, getEntry, ih]

def put (m : LinkedHashMap κ ν) (k : κ) (v : ν) : LinkedHashMap κ ν where
  entries := putEntry k v m.entries
  nodup := by
    rw [map_fst_putEntry]
    split
    · exact m.nodup
    · exact (List.concat_eq_append ▸ List.Nodup.concat ‹_› m.nodup :)

def get (m : LinkedHashMap κ ν) (k : κ) : Option ν := getEntry k m.entries

def putAll (m : LinkedHashMap κ ν) (l : List (κ × ν)) : LinkedHashMap κ ν :=
  l.foldl (fun m e => m.put e.1 e.2) m

section Get

variable {m : LinkedHashMap κ ν} {k k' : κ} {v : ν}

theorem get_eq_some_iff : m.get k = some v ↔ (k, v) ∈ m.entries := getEntry_eq_some_iff m.nodup

@[simp] theorem get_empty : (empty : LinkedHashMap κ ν).get k = none := rfl

@[simp] theorem get_put_self : (m.put k v).get k = some v :=
  getEntry_putEntry_self k v m.entries

theorem get_put_of_ne (h : k' ≠ k) : (m.put k v).get k' = m.get k' :=
  getEntry_putEntry_of_ne h v m.entries

theorem keys_put : (m.put k v).keys = if k ∈ m.keys then m.keys else m.keys ++ [k] :=
  map_fst_putEntry k v m.entries

theorem entries_put (h : k ∉ m.keys) : (m.put k v).entries = m.entries ++ [(k, v)] :=
  putEntry_of_notMem v h

end Get

section PutAll

variable {m : LinkedHashMap κ ν} {k : κ} {l : List (κ × ν)}

@[simp] theorem putAll_nil : m.putAll [] = m := rfl

@[simp] theorem putAll_cons (e : κ × ν) : m.putAll (e :: l) = (m.put e.1 e.2).putAll l := rfl

theorem putAll_append (l' : List (κ × ν)) : m.putAll (l ++ l') = (m.putAll l).putAll l' :=
  List.foldl_append

/-- New keys are listed in the order in which they are put. -/
theorem entries_putAll (hl : (l.map Prod.fst).Nodup) (hnew : ∀ e ∈ l, e.1 ∉ m.keys) :
    (m.putAll l).entries = m.entries ++ l := by
  induction l generalizing m with
  | nil => simp
  | cons e l ih =>
      obtain ⟨he, hl⟩ := List.nodup_cons.mp hl
      obtain ⟨hhead, htail⟩ := List.forall_mem_cons.mp hnew
      rw [putAll_cons, ih hl, entries_put hhead, List.append_assoc]
      · rfl
      · intro e' he'
        rw [keys_put, if_neg hhead, List.mem_append, not_or, List.mem_singleton]
        exact ⟨htail e' he', fun heq => he (heq ▸ List.mem_map_of_mem he')⟩

theorem get_putAll (m : LinkedHashMap κ ν) (k : κ) (l : List (κ × ν)) :
    (m.putAll l).get k = (getEntry k l.reverse).or (m.get k) := by
  induction l using List.reverseRecOn with
  | nil => rfl
  | append_singleton l e ih =>
      rw [putAll_append, putAll_cons, putAll_nil, List.reverse_append, List.reverse_singleton,
        List.singleton_append, getEntry]
      split
      case isTrue he => rw [← he, get_put_self, Option.some_or]
      case isFalse he => rw [get_put_of_ne (Ne.symm he), ih]

theorem keys_putAll_empty (l : List (κ × ν)) :
    ((empty : LinkedHashMap κ ν).putAll l).keys = (l.map Prod.fst).eraseDups := by
  induction l using List.reverseRecOn with
  | nil => rfl
  | append_singleton l e ih =>
      rw [putAll_append, putAll_cons, putAll_nil, keys_put, ih, List.map_append,
        List.eraseDups_append, List.map_cons, List.map_nil]
      by_cases he : e.1 ∈ l.map Prod.fst
      · rw [if_pos (List.mem_eraseDups.mpr he)]
        simp [List.removeAll, he]
      · rw [if_neg (fun h => he (List.mem_eraseDups.mp h))]
        simp [List.removeAll, he, List.eraseDups_cons]

theorem nodup_of_length_putAll
    (h : ((empty : LinkedHashMap κ ν).putAll l).entries.length = l.length) :
    (l.map Prod.fst).Nodup := by
  have hkeys := keys_putAll_empty l
  have hsubset : ((empty : LinkedHashMap κ ν).putAll l).keys ⊆ l.map Prod.fst := by
    intro k hk
    rw [hkeys] at hk
    exact List.mem_eraseDups.mp hk
  have hnodup : ((empty : LinkedHashMap κ ν).putAll l).keys.Nodup := LinkedHashMap.nodup _
  have hlength : ((empty : LinkedHashMap κ ν).putAll l).keys.length =
      (l.map Prod.fst).length := by
    rw [keys, List.length_map, List.length_map, h]
  have hperm := (hnodup.subperm hsubset).perm_of_length_le (Nat.le_of_eq hlength.symm)
  exact hperm.nodup_iff.mp hnodup

theorem mem_of_mem_entries_putAll {e : κ × ν}
    (h : e ∈ ((empty : LinkedHashMap κ ν).putAll l).entries) : e ∈ l := by
  have hget := get_eq_some_iff.mpr h
  rw [get_putAll, get_empty, Option.or_none] at hget
  exact List.mem_reverse.mp (mem_of_getEntry hget)

/-- A map that is put into another one covers it. -/
theorem get_putAll_entries (map : LinkedHashMap κ ν) :
    (m.putAll map.entries).get k = (map.get k).or (m.get k) := by
  have hget : getEntry k map.entries.reverse = map.get k := by
    refine Option.ext fun v => ?_
    have hnodup : (map.entries.reverse.map Prod.fst).Nodup := by
      rw [List.map_reverse]
      exact List.nodup_reverse.mpr map.nodup
    rw [getEntry_eq_some_iff hnodup, List.mem_reverse, get_eq_some_iff]
  rw [get_putAll, hget]

/-- Every entry that is put can be read back if and only if no two of them give different
values to one key. -/
theorem forall_get_putAll_iff :
    (∀ e ∈ l, (m.putAll l).get e.1 = some e.2) ↔ ∀ e ∈ l, ∀ e' ∈ l, e.1 = e'.1 → e.2 = e'.2 := by
  constructor
  · intro h e he e' he' heq
    have hget := h e he
    rw [heq, h e' he'] at hget
    exact (Option.some.inj hget).symm
  · intro h e he
    obtain ⟨v, hv⟩ := exists_getEntry_of_mem (List.mem_reverse.mpr he)
    have hlast : (e.1, v) ∈ l := List.mem_reverse.mp (mem_of_getEntry hv)
    rw [get_putAll, hv, Option.some_or]
    exact congrArg some (h _ hlast e he rfl)

omit [DecidableEq κ] in
/-- No entry behind the index `i` has the key. -/
theorem forall_later_append_iff {e : κ × ν} {i : ℕ} :
    (∀ (i' : ℕ) (e' : κ × ν), i < i' → (l ++ [e])[i']? = some e' → e'.1 ≠ k) ↔
      (∀ (i' : ℕ) (e' : κ × ν), i < i' → l[i']? = some e' → e'.1 ≠ k) ∧
        (i < l.length → e.1 ≠ k) := by
  constructor
  · intro hlater
    refine ⟨fun i' e' hi' h => hlater i' e' hi' ?_, fun hi => hlater _ e hi (by simp)⟩
    rw [List.getElem?_append_left (List.getElem?_eq_some_iff.mp h).1, h]
  · rintro ⟨hlater, he⟩ i' e' hi' h
    rcases Nat.lt_or_ge i' l.length with hlt | hge
    · rw [List.getElem?_append_left hlt] at h
      exact hlater i' e' hi' h
    · rw [List.getElem?_append_right hge, List.getElem?_singleton] at h
      split at h
      case isTrue hend => exact Option.some.inj h ▸ he (by omega)
      case isFalse => cases h

/-- What a key holds is the last entry with this key. -/
theorem get_putAll_empty_eq_some_iff {v : ν} :
    ((empty : LinkedHashMap κ ν).putAll l).get k = some v ↔
      ∃ i : ℕ, l[i]? = some (k, v) ∧
        ∀ (i' : ℕ) (e : κ × ν), i < i' → l[i']? = some e → e.1 ≠ k := by
  induction l using List.reverseRecOn with
  | nil => simp
  | append_singleton l e ih =>
      have hlast : (l ++ [e])[l.length]? = some e := by simp
      have hle {i : ℕ} {x : κ × ν} (hi : (l ++ [e])[i]? = some x) : i ≤ l.length := by
        have hlt := (List.getElem?_eq_some_iff.mp hi).1
        rw [List.length_append, List.length_singleton] at hlt
        omega
      rw [putAll_append, putAll_cons, putAll_nil]
      simp only [forall_later_append_iff]
      by_cases he : e.1 = k
      · subst he
        rw [get_put_self]
        constructor
        · intro hv
          refine ⟨l.length, by rw [hlast, ← Option.some.inj hv], fun i' e' hi' h => ?_, ?_⟩
          · exact absurd (List.getElem?_eq_some_iff.mp h).1 (Nat.lt_asymm hi')
          · exact fun h => absurd h (Nat.lt_irrefl _)
        · rintro ⟨i, hi, -, hbefore⟩
          have hge : ¬i < l.length := fun h => hbefore h rfl
          obtain rfl : i = l.length := Nat.le_antisymm (hle hi) (Nat.not_lt.mp hge)
          rw [hlast] at hi
          rw [Option.some.inj hi]
      · rw [get_put_of_ne (Ne.symm he), ih]
        refine exists_congr fun i => ?_
        constructor
        · rintro ⟨hi, hlater⟩
          have hlt := (List.getElem?_eq_some_iff.mp hi).1
          exact ⟨by rw [List.getElem?_append_left hlt, hi], hlater, fun _ => he⟩
        · rintro ⟨hi, hlater, -⟩
          have hlt : i < l.length := by
            refine Nat.lt_of_le_of_ne (hle hi) fun hend => he ?_
            rw [hend, hlast] at hi
            rw [Option.some.inj hi]
          rw [List.getElem?_append_left hlt] at hi
          exact ⟨hi, hlater⟩

end PutAll

section Indexed

variable {f : ℕ → κ} (hf : Function.Injective f)

include hf

omit [DecidableEq κ] in
theorem nodup_map_fst_zipIdx (l : List ν) :
    ((l.zipIdx.map fun v => (f v.2, v.1)).map Prod.fst).Nodup := by
  have hmap : (l.zipIdx.map fun v => (f v.2, v.1)).map Prod.fst =
      (l.zipIdx.map Prod.snd).map f := by
    rw [List.map_map, List.map_map]
    rfl
  rw [hmap, List.zipIdx_map_snd]
  exact List.Nodup.map hf List.nodup_range'

/-- Values that are put under their indexes are listed in their order. -/
theorem entries_putAll_zipIdx (l : List ν) :
    ((empty : LinkedHashMap κ ν).putAll (l.zipIdx.map fun v => (f v.2, v.1))).entries =
      l.zipIdx.map fun v => (f v.2, v.1) :=
  (entries_putAll (nodup_map_fst_zipIdx hf l) fun _ _ => List.not_mem_nil).trans
    (List.nil_append _)

theorem get_putAll_zipIdx (l : List ν) (j : ℕ) :
    ((empty : LinkedHashMap κ ν).putAll (l.zipIdx.map fun v => (f v.2, v.1))).get (f j) =
      l[j]? := by
  refine Option.ext fun v => ?_
  rw [get_eq_some_iff, entries_putAll_zipIdx hf, List.mem_map]
  constructor
  · rintro ⟨p, hp, heq⟩
    obtain ⟨hj, rfl⟩ := Prod.mk.inj heq
    obtain rfl := hf hj
    exact List.mem_zipIdx_iff_getElem?.mp hp
  · intro hv
    exact ⟨(v, j), List.mem_zipIdx_iff_getElem?.mpr hv, rfl⟩

end Indexed

end LinkedHashMap

end HelloBoot
