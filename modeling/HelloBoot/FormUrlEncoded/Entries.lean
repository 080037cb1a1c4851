import HelloBoot.FormUrlEncoded.Percent
import Mathlib.Algebra.BigOperators.Group.List.Basic
import Mathlib.Algebra.Order.BigOperators.Group.List
import Mathlib.Algebra.Order.Ring.Nat
import Mathlib.Data.List.Forall2
import Mathlib.Data.List.TakeWhile

/-!
# Entries of a form

`parse` splits octets at each `&`, every part at its first `=`, and decodes both sides.
It reads back what `format` writes, where names and values are encoded (`parse_format`).

`raw` writes the entries as they are. This can be read back exactly if the entries are
`Plain` (`parse_raw_perm_iff`): an `&` makes a part too many, a `%` shortens what is read, a
`+` is lost, and an `=` in a name shortens the names, while a permutation of the entries
would leave all these counts alone.
-/

namespace FormUrlEncoded

/-- A pointwise bound between lists with equal sums is an equality. -/
theorem forall_of_forall₂_of_sum_le {α β : Type*} {R : α → β → Prop} {f : α → ℕ} {g : β → ℕ}
    {Q : α → Prop} {as : List α} {bs : List β} (h : List.Forall₂ R as bs)
    (hle : ∀ a b, R a b → g b ≤ f a) (hQ : ∀ a b, R a b → f a ≤ g b → Q a)
    (hsum : (as.map f).sum ≤ (bs.map g).sum) : ∀ a ∈ as, Q a := by
  induction h with
  | nil => exact fun a ha => absurd ha List.not_mem_nil
  | @cons a b as bs hab htail ih =>
      have htailLe : (bs.map g).sum ≤ (as.map f).sum := by
        refine List.Forall₂.sum_le_sum ?_
        rw [List.forall₂_map_left_iff, List.forall₂_map_right_iff]
        exact htail.flip.imp fun b a hr => hle a b hr
      have hhead := hle a b hab
      simp only [List.map_cons, List.sum_cons] at hsum
      exact List.forall_mem_cons.mpr ⟨hQ a b hab (by omega), ih (by omega)⟩

/-- A measure that no element of a permuted list raises is the same for each of them. -/
theorem forall_of_forall₂_of_perm {α : Type*} {R : α → α → Prop} {μ : α → ℕ} {Q : α → Prop}
    {as bs : List α} (h : List.Forall₂ R as bs) (hperm : bs.Perm as)
    (hle : ∀ a b, R a b → μ b ≤ μ a) (hQ : ∀ a b, R a b → μ a ≤ μ b → Q a) : ∀ a ∈ as, Q a :=
  forall_of_forall₂_of_sum_le h hle hQ (hperm.map μ).sum_eq.ge

section Cut

variable {α : Type*} [DecidableEq α] {x : α} {l : List α}

/-- What stands before and after the first `x`. -/
def cut (x : α) (l : List α) : List α × List α :=
  (l.takeWhile (· ≠ x), (l.dropWhile (· ≠ x)).drop 1)

theorem cut_of_notMem (h : x ∉ l) : cut x l = (l, []) := by
  have hall : ∀ a ∈ l, decide (a ≠ x) = true := fun a ha =>
    decide_eq_true fun heq => h (heq ▸ ha)
  rw [cut, List.takeWhile_eq_self_iff.mpr hall, List.dropWhile_eq_nil_iff.mpr hall, List.drop_nil]

theorem cut_append (h : x ∉ l) (r : List α) : cut x (l ++ x :: r) = (l, r) := by
  have hall : ∀ a ∈ l, decide (a ≠ x) = true := fun a ha =>
    decide_eq_true fun heq => h (heq ▸ ha)
  rw [cut, List.takeWhile_append_of_pos hall, List.dropWhile_append_of_pos hall,
    List.takeWhile_cons_of_neg (by simp), List.dropWhile_cons_of_neg (by simp), List.append_nil,
    List.drop_one, List.tail_cons]

theorem cut_fst_append_snd (h : x ∈ l) : (cut x l).1 ++ x :: (cut x l).2 = l := by
  obtain ⟨s, t, rfl, hs⟩ := List.eq_append_cons_of_mem h
  rw [cut_append hs]

theorem length_cut_fst_lt (h : x ∈ l) (r : List α) : (cut x (l ++ x :: r)).1.length < l.length := by
  obtain ⟨s, t, rfl, hs⟩ := List.eq_append_cons_of_mem h
  rw [List.append_assoc, List.cons_append, cut_append hs]
  simp

theorem length_cut_fst_le (l r : List α) : (cut x (l ++ x :: r)).1.length ≤ l.length := by
  by_cases h : x ∈ l
  · exact (length_cut_fst_lt h r).le
  · rw [cut_append h]

end Cut

section SplitOn

variable {α : Type*} [DecidableEq α] {x : α} {l : List α} {ls : List (List α)}

theorem length_splitOn (x : α) (l : List α) : (l.splitOn x).length = l.count x + 1 := by
  induction l with
  | nil => simp
  | cons y l ih =>
      rw [List.splitOn_cons_eq_if_modifyHead, List.count_cons]
      split <;> simp [ih]

theorem splitOn_intercalate_eq_flatMap (hls : ls ≠ []) :
    ([x].intercalate ls).splitOn x = ls.flatMap (List.splitOn x) := by
  induction ls with
  | nil => exact absurd rfl hls
  | cons l ls ih =>
      by_cases hne : ls = []
      · subst hne
        simp
      · rw [List.intercalate_cons_of_ne_nil hne, List.append_assoc, List.singleton_append,
          List.splitOn_append_cons_self, ih hne, List.flatMap_cons]

/-- A separator inside of the parts makes a part too many. -/
theorem notMem_of_length_splitOn_intercalate
    (h : (([x].intercalate ls).splitOn x).length = ls.length) : ∀ l ∈ ls, x ∉ l := by
  by_cases hls : ls = []
  · subst hls
    simp
  · rw [splitOn_intercalate_eq_flatMap hls, List.length_flatMap] at h
    refine forall_of_forall₂_of_sum_le (R := Eq) (f := fun l => (l.splitOn x).length)
      (g := fun _ => 1) (List.forall₂_refl ls) ?_ ?_ (by simp [h])
    · intro l _ _
      exact length_splitOn x l ▸ Nat.le_add_left 1 _
    · intro l _ _ hle
      rw [length_splitOn] at hle
      exact List.count_eq_zero.mp (by omega)

end SplitOn

def rawPart (e : String × String) : Octets := utf8 e.1 ++ equals :: utf8 e.2

def raw (es : List (String × String)) : Octets := [amp].intercalate (es.map rawPart)

def formatPart (e : String × String) : Octets := encode e.1 ++ equals :: encode e.2

def format (es : List (String × String)) : Octets := [amp].intercalate (es.map formatPart)

def readEntry (b : Octets) : Option (String × String) := do
  let name ← decode (cut equals b).1
  let value ← decode (cut equals b).2
  return (name, value)

def parse (b : Octets) : Option (List (String × String)) := (b.splitOn amp).mapM readEntry

section Parse

variable {b : Octets} {e : String × String} {es l : List (String × String)}

theorem readEntry_eq_some_iff :
    readEntry b = some e ↔
      decode (cut equals b).1 = some e.1 ∧ decode (cut equals b).2 = some e.2 := by
  simp [readEntry, Option.bind_eq_some_iff, Prod.ext_iff]

theorem mapM_eq_some_iff {α β : Type} {f : α → Option β} {as : List α} {bs : List β} :
    as.mapM f = some bs ↔ List.Forall₂ (fun a b => f a = some b) as bs := by
  induction as generalizing bs with
  | nil => simp [eq_comm]
  | cons a as ih =>
      rw [List.mapM_cons, List.forall₂_cons_left_iff]
      simp [Option.bind_eq_some_iff, ih, @eq_comm _ bs]

/-- A text without separators is one entry, all of it the name. -/
theorem parse_encode (s : String) : parse (encode s) = some [(s, "")] := by
  have hamp : amp ∉ encode s := notMem_encode (by decide) (by decide) (by decide) s
  have hequals : equals ∉ encode s := notMem_encode (by decide) (by decide) (by decide) s
  rw [parse, List.splitOn_eq_singleton hamp, mapM_eq_some_iff, List.forall₂_cons]
  refine ⟨readEntry_eq_some_iff.mpr ?_, .nil⟩
  rw [cut_of_notMem hequals]
  exact ⟨decode_encode s, decode_nil⟩

theorem readEntry_formatPart (e : String × String) : readEntry (formatPart e) = some e := by
  rw [readEntry_eq_some_iff, formatPart,
    cut_append (notMem_encode (by decide) (by decide) (by decide) e.1)]
  exact ⟨decode_encode e.1, decode_encode e.2⟩

theorem amp_notMem_formatPart (e : String × String) : amp ∉ formatPart e := by
  have hamp : ∀ s, amp ∉ encode s := notMem_encode (by decide) (by decide) (by decide)
  rw [formatPart, List.mem_append, List.mem_cons]
  rintro (h | h | h)
  · exact hamp e.1 h
  · cases h
  · exact hamp e.2 h

/-- What is written with encoding is read back. -/
theorem parse_format (hne : es ≠ []) : parse (format es) = some es := by
  rw [parse, format, List.splitOn_intercalate amp _ (by simpa using hne), mapM_eq_some_iff,
    List.forall₂_map_left_iff]
  · exact List.forall₂_same.mpr fun e _ => readEntry_formatPart e
  · intro b hb
    obtain ⟨e, -, rfl⟩ := List.mem_map.mp hb
    exact amp_notMem_formatPart e

/-- Nothing in the entry would be read in another way. -/
def Plain (e : String × String) : Prop :=
  '=' ∉ e.1.toList ∧ ∀ c ∈ ['&', '+', '%'], c ∉ e.1.toList ∧ c ∉ e.2.toList

instance : DecidablePred Plain := fun _ => @instDecidableAnd _ _ _ (List.decidableBAll _ _)

theorem plain_iff :
    Plain e ↔ equals ∉ utf8 e.1 ∧ amp ∉ rawPart e ∧ plus ∉ rawPart e ∧ percent ∉ rawPart e := by
  have hmem : ∀ c : Char, c.val.toNat < 128 → c.val.toUInt8 ≠ equals →
      (c.val.toUInt8 ∉ rawPart e ↔ c ∉ e.1.toList ∧ c ∉ e.2.toList) := by
    intro c hc hne
    rw [rawPart, List.mem_append, List.mem_cons, mem_utf8_iff hc, mem_utf8_iff hc, or_iff_right hne,
      not_or]
  have hequals : equals ∉ utf8 e.1 ↔ '=' ∉ e.1.toList :=
    not_congr (mem_utf8_iff (c := '=') (by decide))
  rw [Plain, List.forall_mem_cons, List.forall_mem_cons, List.forall_mem_singleton, hequals,
    ← hmem '&' (by decide) (by decide), ← hmem '+' (by decide) (by decide),
    ← hmem '%' (by decide) (by decide)]
  rfl

example : Plain ("name", "A=B C") ∧ ¬ Plain ("name", "A&B") := by decide

section Raw

variable {a : String × String}

theorem equals_mem_rawPart (e : String × String) : equals ∈ rawPart e :=
  List.mem_append_right _ (.head _)

/-- Each `%` costs two octets of what is read. -/
theorem length_rawPart_of_readEntry (h : readEntry (rawPart e) = some a) :
    (rawPart a).length + 2 * (rawPart e).count percent = (rawPart e).length := by
  obtain ⟨hname, hvalue⟩ := readEntry_eq_some_iff.mp h
  have hnameLength := length_of_decode hname
  have hvalueLength := length_of_decode hvalue
  rw [← cut_fst_append_snd (equals_mem_rawPart e), List.count_append,
    List.count_cons_of_ne (by decide), rawPart]
  simp only [List.length_append, List.length_cons]
  omega

/-- Without a `%`, no plus sign is read. -/
theorem plus_notMem_of_readEntry (hpercent : percent ∉ rawPart e)
    (h : readEntry (rawPart e) = some a) : plus ∉ rawPart a := by
  obtain ⟨hname, hvalue⟩ := readEntry_eq_some_iff.mp h
  rw [← cut_fst_append_snd (equals_mem_rawPart e), List.mem_append, List.mem_cons, not_or,
    not_or] at hpercent
  rw [rawPart, List.mem_append, List.mem_cons, not_or, not_or]
  exact ⟨plus_notMem_of_decode hpercent.1 hname, by decide,
    plus_notMem_of_decode hpercent.2.2 hvalue⟩

/-- Without `%` and `+`, the name that is read ends at the first `=`. -/
theorem utf8_fst_of_readEntry (hpercent : percent ∉ rawPart e) (hplus : plus ∉ rawPart e)
    (h : readEntry (rawPart e) = some a) : utf8 a.1 = (cut equals (rawPart e)).1 := by
  obtain ⟨hname, -⟩ := readEntry_eq_some_iff.mp h
  rw [← cut_fst_append_snd (equals_mem_rawPart e), List.mem_append, not_or] at hpercent hplus
  rw [utf8_of_decode hpercent.1 hname, map_of_plus_notMem hplus.1]

theorem readEntry_rawPart (h : Plain e) : readEntry (rawPart e) = some e := by
  obtain ⟨hequals, -, hplus, hpercent⟩ := plain_iff.mp h
  rw [rawPart, List.mem_append, List.mem_cons, not_or, not_or] at hplus hpercent
  rw [readEntry_eq_some_iff, rawPart, cut_append hequals]
  exact ⟨decode_utf8 hpercent.1 hplus.1, decode_utf8 hpercent.2.2 hplus.2.2⟩

/-- Plain entries are read back as they are. -/
theorem parse_raw (hne : es ≠ []) (h : ∀ e ∈ es, Plain e) : parse (raw es) = some es := by
  rw [parse, raw, List.splitOn_intercalate amp _ (by simpa using hne), mapM_eq_some_iff,
    List.forall₂_map_left_iff]
  · exact List.forall₂_same.mpr fun e he => readEntry_rawPart (h e he)
  · intro b hb
    obtain ⟨e, he, rfl⟩ := List.mem_map.mp hb
    exact (plain_iff.mp (h e he)).2.1

theorem plain_of_parse_raw (hl : parse (raw es) = some l) (hperm : l.Perm es) :
    ∀ e ∈ es, Plain e := by
  by_cases hne : es = []
  · subst hne
    exact fun e he => absurd he List.not_mem_nil
  rw [parse, mapM_eq_some_iff, raw] at hl
  -- the number of parts
  have hamp : ∀ b ∈ es.map rawPart, amp ∉ b :=
    notMem_of_length_splitOn_intercalate (by rw [hl.length_eq, hperm.length_eq, List.length_map])
  rw [List.splitOn_intercalate amp hamp (by simpa using hne), List.forall₂_map_left_iff] at hl
  -- the number of octets
  have hpercent : ∀ e ∈ es, percent ∉ rawPart e := by
    refine forall_of_forall₂_of_perm (μ := fun e => (rawPart e).length) hl hperm ?_ ?_
    · intro e a ha
      have hlen := length_rawPart_of_readEntry ha
      omega
    · intro e a ha hle
      have hlen := length_rawPart_of_readEntry ha
      exact List.count_eq_zero.mp (by omega)
  have hl := (List.forall₂_and_left _ _).mpr ⟨hpercent, hl⟩
  -- the number of plus signs
  have hplus : ∀ e ∈ es, plus ∉ rawPart e := by
    refine forall_of_forall₂_of_perm (μ := fun e => (rawPart e).count plus) hl hperm ?_ ?_
    · rintro e a ⟨hpercent, ha⟩
      rw [List.count_eq_zero.mpr (plus_notMem_of_readEntry hpercent ha)]
      exact Nat.zero_le _
    · rintro e a ⟨hpercent, ha⟩ hle
      rw [List.count_eq_zero.mpr (plus_notMem_of_readEntry hpercent ha)] at hle
      exact List.count_eq_zero.mp (Nat.le_zero.mp hle)
  have hl := (List.forall₂_and_left _ _).mpr ⟨hplus, hl⟩
  -- the lengths of the names
  have hequals : ∀ e ∈ es, equals ∉ utf8 e.1 := by
    refine forall_of_forall₂_of_perm (μ := fun e => (utf8 e.1).length) hl hperm ?_ ?_
    · rintro e a ⟨hplus, hpercent, ha⟩
      rw [utf8_fst_of_readEntry hpercent hplus ha, rawPart]
      exact length_cut_fst_le _ _
    · rintro e a ⟨hplus, hpercent, ha⟩ hle hmem
      rw [utf8_fst_of_readEntry hpercent hplus ha, rawPart] at hle
      exact absurd (length_cut_fst_lt hmem _) (Nat.not_lt.mpr hle)
  intro e he
  exact plain_iff.mpr ⟨hequals e he, hamp _ (List.mem_map_of_mem he), hplus e he, hpercent e he⟩

/-- The entries as they are can be read back exactly if they are plain. -/
theorem parse_raw_perm_iff (hne : es ≠ []) :
    (∃ l, parse (raw es) = some l ∧ l.Perm es) ↔ ∀ e ∈ es, Plain e :=
  ⟨fun ⟨_, hl, hperm⟩ => plain_of_parse_raw hl hperm, fun h => ⟨es, parse_raw hne h, .refl es⟩⟩

end Raw

end Parse

end FormUrlEncoded
