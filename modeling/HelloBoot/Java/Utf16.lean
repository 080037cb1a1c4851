import Mathlib.Data.List.Basic

/-!
# Texts of UTF-16 code units

A character beyond the Basic Multilingual Plane takes two units, a high and a low surrogate.
A list of units is well formed if each surrogate in it belongs to such a pair; these are the
lists that encode characters (`wellFormed_iff`). A part of a well formed text is well formed
if and only if no pair is cut at its end (`wellFormed_left_iff`, `wellFormed_right_iff`).
-/

namespace Utf16

/-- The first unit of a pair. -/
def IsHigh (u : UInt16) : Prop := 0xD800 ≤ u.toNat ∧ u.toNat < 0xDC00

/-- The second unit of a pair. -/
def IsLow (u : UInt16) : Prop := 0xDC00 ≤ u.toNat ∧ u.toNat < 0xE000

instance : DecidablePred IsHigh := fun _ => inferInstanceAs (Decidable (_ ∧ _))

instance : DecidablePred IsLow := fun _ => inferInstanceAs (Decidable (_ ∧ _))

/-- Each surrogate belongs to a pair. -/
inductive WellFormed : List UInt16 → Prop
  | nil : WellFormed []
  | unit {u : UInt16} {us : List UInt16} (hhigh : ¬IsHigh u) (hlow : ¬IsLow u)
      (hus : WellFormed us) : WellFormed (u :: us)
  | pair {u v : UInt16} {us : List UInt16} (hhigh : IsHigh u) (hlow : IsLow v)
      (hus : WellFormed us) : WellFormed (u :: v :: us)

variable {u v : UInt16} {us vs : List UInt16}

theorem IsHigh.not_isLow (h : IsHigh u) : ¬IsLow u := fun hlow => by
  unfold IsHigh at h
  unfold IsLow at hlow
  omega

theorem wellFormed_cons_iff (hhigh : ¬IsHigh u) :
    WellFormed (u :: us) ↔ ¬IsLow u ∧ WellFormed us := by
  constructor
  · intro h
    cases h with
    | unit _ hlow hus => exact ⟨hlow, hus⟩
    | pair h => exact absurd h hhigh
  · exact fun h => .unit hhigh h.1 h.2

theorem wellFormed_cons_cons_iff (hhigh : IsHigh u) :
    WellFormed (u :: v :: us) ↔ IsLow v ∧ WellFormed us := by
  constructor
  · intro h
    cases h with
    | unit h => exact absurd hhigh h
    | pair _ hlow hus => exact ⟨hlow, hus⟩
  · exact fun h => .pair hhigh h.1 h.2

instance decidableWellFormed : (us : List UInt16) → Decidable (WellFormed us)
  | [] => isTrue .nil
  | [u] =>
      decidable_of_iff (¬IsHigh u ∧ ¬IsLow u)
        ⟨fun h => .unit h.1 h.2 .nil, fun h => by
          cases h with
          | unit hhigh hlow => exact ⟨hhigh, hlow⟩⟩
  | u :: v :: us =>
      if hhigh : IsHigh u then
        have := decidableWellFormed us
        decidable_of_iff _ (wellFormed_cons_cons_iff hhigh).symm
      else
        have := decidableWellFormed (v :: us)
        decidable_of_iff _ (wellFormed_cons_iff hhigh).symm

/-! ### Cuts -/

theorem WellFormed.append (hus : WellFormed us) (hvs : WellFormed vs) : WellFormed (us ++ vs) := by
  induction hus with
  | nil => exact hvs
  | unit hhigh hlow _ ih => exact .unit hhigh hlow ih
  | pair hhigh hlow _ ih => exact .pair hhigh hlow ih

theorem WellFormed.not_isHigh_getLast (h : WellFormed us) : ∀ u ∈ us.getLast?, ¬IsHigh u := by
  induction h with
  | nil =>
      intro u hu
      cases hu
  | @unit u us hhigh hlow hus ih =>
      cases us with
      | nil =>
          intro w hw
          cases hw
          exact hhigh
      | cons v us => exact ih
  | @pair u v us hhigh hlow hus ih =>
      cases us with
      | nil =>
          intro w hw
          cases hw
          exact fun h => h.not_isLow hlow
      | cons w us => exact ih

theorem WellFormed.not_isLow_head (h : WellFormed us) : ∀ u ∈ us.head?, ¬IsLow u := by
  intro u hu
  cases h with
  | nil => cases hu
  | unit hhigh hlow hus =>
      cases hu
      exact hlow
  | pair hhigh hlow hus =>
      cases hu
      exact hhigh.not_isLow

/-- A cut that is not inside a pair leaves well formed parts. -/
theorem WellFormed.of_append (h : WellFormed (us ++ vs))
    (hcut : (∀ u ∈ us.getLast?, ¬IsHigh u) ∨ ∀ v ∈ vs.head?, ¬IsLow v) :
    WellFormed us ∧ WellFormed vs := by
  generalize hws : us ++ vs = ws at h
  induction h generalizing us with
  | nil =>
      obtain ⟨rfl, rfl⟩ := List.append_eq_nil_iff.mp hws
      exact ⟨.nil, .nil⟩
  | @unit w ws hhigh hlow hus ih =>
      cases us with
      | nil =>
          cases hws
          exact ⟨.nil, .unit hhigh hlow hus⟩
      | cons u us =>
          obtain ⟨rfl, hws'⟩ := List.cons.inj hws
          have hcut' := hcut.imp_left fun h u hu => h u (List.mem_getLast?_cons hu)
          exact ⟨.unit hhigh hlow (ih hcut' hws').1, (ih hcut' hws').2⟩
  | @pair w w' ws hhigh hlow hus ih =>
      match us with
      | [] =>
          cases hws
          exact ⟨.nil, .pair hhigh hlow hus⟩
      | [u] =>
          -- the cut would be inside the pair
          cases hws
          rcases hcut with hcut | hcut
          · exact absurd hhigh (hcut w rfl)
          · exact absurd hlow (hcut w' rfl)
      | u :: u' :: us =>
          obtain ⟨rfl, hws'⟩ := List.cons.inj hws
          obtain ⟨rfl, hws''⟩ := List.cons.inj hws'
          have hcut' := hcut.imp_left fun h u hu =>
            h u (List.mem_getLast?_cons (List.mem_getLast?_cons hu))
          exact ⟨.pair hhigh hlow (ih hcut' hws'').1, (ih hcut' hws'').2⟩

theorem wellFormed_left_iff (h : WellFormed (us ++ vs)) :
    WellFormed us ↔ ∀ u ∈ us.getLast?, ¬IsHigh u :=
  ⟨WellFormed.not_isHigh_getLast, fun hcut => (h.of_append (Or.inl hcut)).1⟩

theorem wellFormed_right_iff (h : WellFormed (us ++ vs)) :
    WellFormed vs ↔ ∀ v ∈ vs.head?, ¬IsLow v :=
  ⟨WellFormed.not_isLow_head, fun hcut => (h.of_append (Or.inr hcut)).2⟩

/-- Around units that are no surrogates, both sides have to be well formed. -/
theorem wellFormed_around_iff (hhigh : ¬IsHigh u) (hlow : ¬IsLow u) {n : ℕ} (hn : 0 < n) :
    WellFormed (us ++ List.replicate n u ++ vs) ↔ WellFormed us ∧ WellFormed vs := by
  have hmiddle : ∀ n, WellFormed (List.replicate n u ++ vs) ↔ WellFormed vs := by
    intro n
    induction n with
    | zero => exact Iff.rfl
    | succ n ih => exact (wellFormed_cons_iff hhigh).trans ((and_iff_right hlow).trans ih)
  rw [List.append_assoc, ← hmiddle n]
  refine ⟨fun h => h.of_append (Or.inr ?_), fun h => h.1.append h.2⟩
  obtain ⟨n, rfl⟩ := Nat.exists_eq_add_of_lt hn
  intro v hv
  rw [Nat.zero_add, List.replicate_succ] at hv
  cases hv
  exact hlow

/-! ### Characters -/

def encode (c : Char) : List UInt16 :=
  if c.toNat < 0x10000 then [UInt16.ofNat c.toNat]
  else
    [UInt16.ofNat (0xD800 + (c.toNat - 0x10000) / 0x400),
      UInt16.ofNat (0xDC00 + (c.toNat - 0x10000) % 0x400)]

def utf16 (s : String) : List UInt16 := s.toList.flatMap encode

theorem wellFormed_encode_append (c : Char) (h : WellFormed us) :
    WellFormed (encode c ++ us) := by
  have hvalid := c.valid
  change c.toNat.isValidChar at hvalid
  rw [encode]
  split
  case isTrue hbmp =>
      have hnat : (UInt16.ofNat c.toNat).toNat = c.toNat := by
        simp
        omega
      refine .unit ?_ ?_ h
      · unfold IsHigh
        omega
      · unfold IsLow
        omega
  case isFalse hbmp =>
      have hmod := Nat.mod_lt (c.toNat - 0x10000) (show 0 < 0x400 by decide)
      refine .pair ?_ ?_ h
      · unfold IsHigh
        simp
        omega
      · unfold IsLow
        simp
        omega

theorem toNat_ofNat {n : ℕ} (h : n.isValidChar) : (Char.ofNat n).toNat = n := by
  rw [Char.ofNat, dif_pos h]
  rfl

theorem exists_encode_unit (hhigh : ¬IsHigh u) (hlow : ¬IsLow u) : ∃ c, encode c = [u] := by
  have hlt := u.toNat_lt
  have hvalid : u.toNat.isValidChar := by
    unfold IsHigh at hhigh
    unfold IsLow at hlow
    unfold Nat.isValidChar
    omega
  refine ⟨Char.ofNat u.toNat, ?_⟩
  rw [encode, toNat_ofNat hvalid, if_pos hlt, UInt16.ofNat_toNat]

theorem exists_encode_pair (hhigh : IsHigh u) (hlow : IsLow v) : ∃ c, encode c = [u, v] := by
  unfold IsHigh at hhigh
  unfold IsLow at hlow
  obtain ⟨n, hn⟩ : ∃ n, n = (u.toNat - 0xD800) * 0x400 + (v.toNat - 0xDC00) := ⟨_, rfl⟩
  have hvalid : (0x10000 + n).isValidChar := by
    unfold Nat.isValidChar
    omega
  have hfirst : 0xD800 + (0x10000 + n - 0x10000) / 0x400 = u.toNat := by omega
  have hsecond : 0xDC00 + (0x10000 + n - 0x10000) % 0x400 = v.toNat := by omega
  refine ⟨Char.ofNat (0x10000 + n), ?_⟩
  rw [encode, toNat_ofNat hvalid, if_neg (by omega), hfirst, hsecond, UInt16.ofNat_toNat,
    UInt16.ofNat_toNat]

/-- The well formed lists are those that encode characters. -/
theorem wellFormed_iff : WellFormed us ↔ ∃ cs : List Char, cs.flatMap encode = us := by
  constructor
  · intro h
    induction h with
    | nil => exact ⟨[], rfl⟩
    | unit hhigh hlow _ ih =>
        obtain ⟨cs, rfl⟩ := ih
        obtain ⟨c, hc⟩ := exists_encode_unit hhigh hlow
        exact ⟨c :: cs, by rw [List.flatMap_cons, hc, List.singleton_append]⟩
    | pair hhigh hlow _ ih =>
        obtain ⟨cs, rfl⟩ := ih
        obtain ⟨c, hc⟩ := exists_encode_pair hhigh hlow
        exact ⟨c :: cs, by rw [List.flatMap_cons, hc, List.cons_append, List.singleton_append]⟩
  · rintro ⟨cs, rfl⟩
    induction cs with
    | nil => exact .nil
    | cons c cs ih => exact wellFormed_encode_append c ih

theorem wellFormed_utf16 (s : String) : WellFormed (utf16 s) := wellFormed_iff.mpr ⟨_, rfl⟩

end Utf16
