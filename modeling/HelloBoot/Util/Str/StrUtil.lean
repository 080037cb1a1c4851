import HelloBoot.Java.Split
import HelloBoot.Java.Throwable

/-!
# `StrUtil`

`getUrlParam` cuts the address at `?`, each part of it at `&`, and each piece at `=`; it
returns the right half of the first piece that has two halves with `key` on the left.
`valueIn_eq_some_iff` says which pieces these are.
-/

namespace HelloBoot.StrUtil

/-- What the body of the inner loop returns for the piece `s`, if it returns. -/
def valueIn (key s : String) : Option String :=
  match split '=' s with
  | [name, value] => if key = name then some value else none
  | _ => none

/-- `getUrlParam(url, key)`; null is `none`. -/
def getUrlParam (url key : String) : Option String :=
  let parts := split '?' url
  if parts.length < 2 then none
  else parts.findSome? fun str => (split '&' str).findSome? (valueIn key)

def getUrlAddr (url : String) : Except Throwable String :=
  match split '?' url with
  | [] => .error .indexOutOfBounds
  | addr :: _ => .ok addr

variable {c : Char} {key s value w : String}

def separators (c : Char) (n : ℕ) : String := String.ofList (List.replicate n c)

theorem pieces_separators (h : c ∉ w.toList) (n : ℕ) :
    pieces c (w ++ separators c n) = w :: List.replicate n "" := by
  induction n generalizing w with
  | zero =>
      have hzero : w ++ separators c 0 = w := by simp [separators]
      rw [hzero, pieces_of_notMem h, List.replicate_zero]
  | succ n ih =>
      have hsucc : w ++ separators c (n + 1) =
          w ++ String.singleton c ++ ("" ++ separators c n) := by
        rw [← String.toList_inj]
        simp [separators, List.replicate_succ]
      rw [hsucc, pieces_cons h, ih (by simp), List.replicate_succ]

/-- Which texts have two parts: only separators stand behind the second, which is not
empty. -/
theorem split_eq_pair_iff : split c s = [key, value] ↔
    c ∉ key.toList ∧ c ∉ value.toList ∧ value ≠ "" ∧
      ∃ n, s = key ++ String.singleton c ++ (value ++ separators c n) := by
  constructor
  · intro h
    have hmem : c ∈ s.toList := by
      by_contra hnot
      rw [split, if_neg hnot] at h
      simp at h
    rw [split, if_pos hmem] at h
    have hlast := List.rdropWhile_last_not (· = "") (pieces c s) (by simp [h])
    obtain ⟨n, hends⟩ : ∃ n, (pieces c s).rtakeWhile (· = "") = List.replicate n "" := by
      refine ⟨_, List.eq_replicate_of_mem fun w hw => ?_⟩
      simpa using List.mem_rtakeWhile_imp hw
    have hall : (pieces c s).rdropWhile (· = "") ++ (pieces c s).rtakeWhile (· = "") =
        pieces c s := List.rdropWhile_append_rtakeWhile
    rw [h, hends] at hall
    have hpair : ∀ part ∈ [key, value], c ∉ part.toList := fun part hpart =>
      (of_mem_pieces (hall ▸ List.mem_append_left _ hpart : part ∈ pieces c s)).1
    have hkey : c ∉ key.toList := hpair key (by simp)
    have hvalue : c ∉ value.toList := hpair value (by simp)
    refine ⟨hkey, hvalue, by simpa [h] using hlast, n, pieces_injective c ?_⟩
    rw [pieces_cons hkey, pieces_separators hvalue, ← hall]
    rfl
  · rintro ⟨hkey, hvalue, hempty, n, rfl⟩
    have hmem : c ∈ (key ++ String.singleton c ++ (value ++ separators c n)).toList := by simp
    rw [split, if_pos hmem, pieces_cons hkey, pieces_separators hvalue]
    exact (rdropWhile_append_replicate [key, value] n).trans
      (List.rdropWhile_concat_neg _ [key] value (by simpa using hempty))

/-- A piece is read as the value `w` of `key` if it is `key=w`, with nothing but further
`=` behind it, and `w` is not empty. -/
theorem valueIn_eq_some_iff : valueIn key s = some w ↔
    '=' ∉ key.toList ∧ '=' ∉ w.toList ∧ w ≠ "" ∧
      ∃ n, s = key ++ "=" ++ (w ++ separators '=' n) := by
  change _ ↔ '=' ∉ key.toList ∧ '=' ∉ w.toList ∧ w ≠ "" ∧
    ∃ n, s = key ++ String.singleton '=' ++ (w ++ separators '=' n)
  rw [← split_eq_pair_iff, valueIn]
  split
  case h_1 name value heq =>
      rw [heq, Option.ite_none_right_eq_some]
      simp [eq_comm]
  case h_2 hother =>
      refine iff_of_false (fun h => by cases h) fun heq => hother _ _ heq

end HelloBoot.StrUtil
