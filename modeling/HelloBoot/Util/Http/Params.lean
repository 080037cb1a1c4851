import HelloBoot.FormUrlEncoded.Entries
import HelloBoot.Java.LinkedHashMap
import HelloBoot.Java.Loops
import HelloBoot.Java.Objects
import HelloBoot.Java.Throwable

/-!
# Parameters of a request

`HttpUtil` and `HttpClientUtil` take parameters and headers as maps whose values are
objects or null. Both have a method that joins the entries of a map into one text, without
any encoding: the octets of this text are the raw entries (`utf8_joined`).
-/

namespace HelloBoot.Http

open FormUrlEncoded

abbrev Params := LinkedHashMap String (Option Obj)

def fields (m : Params) : List (String × String) := m.entries.map fun e => (e.1, Obj.valueOf e.2)

def userId : Params := ⟨[("userId", some (.string "123"))], List.nodup_singleton _⟩

/-- The octets are read as the entries of the map. -/
def Carries (m : Params) (b : Octets) : Prop := ∃ l, parse b = some l ∧ l.Perm (fields m)

def isEmpty : Option Params → Bool
  | none => true
  | some m => m.entries.isEmpty

/-- The entry with `value.toString()`. -/
def textOf (e : String × Option Obj) : Except Throwable (String × String) :=
  match e.2 with
  | some value => .ok (e.1, value.toString)
  | none => .error .nullPointer

def texts : Option Params → Except Throwable (List (String × String))
  | none => .ok []
  | some m => m.entries.mapM textOf

theorem of_textOf {e : String × Option Obj} {b : String × String} (h : textOf e = .ok b) :
    e.2 ≠ none ∧ b = (e.1, Obj.valueOf e.2) := by
  rw [textOf] at h
  cases he : e.2 with
  | none =>
      rw [he] at h
      cases h
  | some value =>
      rw [he] at h
      cases h
      exact ⟨nofun, rfl⟩

theorem of_texts {m : Params} {pairs : List (String × String)} (h : texts (some m) = .ok pairs) :
    (∀ e ∈ m.entries, e.2 ≠ none) ∧ pairs = fields m := by
  have hrounds := Loops.forall₂_of_mapM_ok h
  clear h
  rw [fields]
  generalize m.entries = l at hrounds ⊢
  induction hrounds with
  | nil => simp
  | cons hround _ ih =>
      obtain ⟨hnull, rfl⟩ := of_textOf hround
      obtain ⟨hnulls, rfl⟩ := ih
      exact ⟨List.forall_mem_cons.mpr ⟨hnull, hnulls⟩, rfl⟩

def appendAll (entries : List (String × Option Obj)) : String :=
  entries.foldl (fun param entry => param ++ entry.1 ++ "=" ++ Obj.valueOf entry.2 ++ "&") ""

/-- The body that `assembleUrlParam` and `assembleFormData` share. -/
def assemble : Option Params → Option String
  | none => none
  | some formData =>
      if formData.entries.isEmpty then none
      else
        let str := appendAll formData.entries
        some (substring str 0 (str.length - 1))

def joined (es : List (String × String)) : String :=
  "&".intercalate (es.map fun e => e.1 ++ "=" ++ e.2)

section Joined

variable {e : String × String} {es : List (String × String)}

theorem joined_singleton : joined [e] = e.1 ++ "=" ++ e.2 := String.intercalate_singleton

theorem joined_concat (hne : es ≠ []) (e : String × String) :
    joined (es ++ [e]) = joined es ++ "&" ++ (e.1 ++ "=" ++ e.2) := by
  rw [joined, List.map_append, String.intercalate_append_of_ne_nil (by simpa using hne) (by simp),
    List.map_singleton, String.intercalate_singleton, joined]

theorem utf8_joined (es : List (String × String)) : utf8 (joined es) = raw es := by
  have hpart : ∀ e : String × String, utf8 (e.1 ++ "=" ++ e.2) = rawPart e := fun e => by
    rw [utf8_append, utf8_append, List.append_assoc, rawPart]
    rfl
  induction es with
  | nil => rfl
  | cons e es ih =>
      by_cases hne : es = []
      · subst hne
        rw [joined_singleton, hpart, raw, List.map_singleton, List.intercalate_singleton]
      · rw [joined, List.map_cons, String.intercalate_cons_of_ne_nil (by simpa using hne),
          utf8_append, utf8_append, hpart, raw, List.map_cons,
          List.intercalate_cons_of_ne_nil (by simpa using hne), ← raw, ← ih, ← joined]
        rfl

/-- The loop leaves a separator behind the last entry. -/
theorem appendAll_eq {entries : List (String × Option Obj)} (hne : entries ≠ []) :
    appendAll entries = joined (entries.map fun e => (e.1, Obj.valueOf e.2)) ++ "&" := by
  induction entries using List.reverseRecOn with
  | nil => exact absurd rfl hne
  | append_singleton entries e ih =>
      rw [appendAll, List.foldl_append, ← appendAll, List.foldl_cons, List.foldl_nil,
        List.map_append, List.map_singleton]
      by_cases hne : entries = []
      · subst hne
        simp [appendAll, joined_singleton]
      · rw [joined_concat (by simpa using hne), ih hne]
        simp only [String.append_assoc]

end Joined

theorem substring_append_singleton (s : String) (c : Char) :
    substring (s ++ String.singleton c) 0 ((s ++ String.singleton c).length - 1) = s := by
  rw [substring, ← String.length_toList, String.toList_append, String.toList_singleton]
  simp

theorem assemble_eq {m : Params} (hne : m.entries ≠ []) :
    assemble (some m) = some (joined (fields m)) := by
  rw [assemble, if_neg (by simpa using hne), appendAll_eq hne]
  exact congrArg some (substring_append_singleton _ '&')

end HelloBoot.Http
