import HelloBoot.Util.Http.Params
import HelloBoot.Util.Str.StrUtil

/-!
# Parameters of an address

A `Url` is a base without `?` and a list of parts `key=value`. `getUrlParam` reads more
than the parts: the pieces of the base between `&` as well, and what stands behind a `?`
in a value; and it reads no value that is empty or holds a `=`. Where none of this
matters, it follows the grammar (`followsGrammar_iff`).
-/

namespace HelloBoot.StrUtil

open Http (joined)

/-- A part `key=value` of a query. -/
structure Part where
  key : String
  value : String
  key_ne_empty : key ≠ ""
  key_plain : '=' ∉ key.toList ∧ '&' ∉ key.toList ∧ '?' ∉ key.toList
  value_plain : '&' ∉ value.toList

structure Url where
  base : String
  parts : List Part
  base_plain : '?' ∉ base.toList

def Part.text (p : Part) : String := p.key ++ "=" ++ p.value

namespace Url

variable (u : Url) (key : String)

def query : String := joined (u.parts.map fun p => (p.key, p.value))

def text : String := u.base ++ "?" ++ u.query

def param : Option String := (u.parts.find? fun p => p.key = key).map Part.value

/-- The pieces that stand before the first part with a key and are not parts: those of
the base, and those behind a `?` in a value. -/
def strays : List String :=
  pieces '&' u.base ++
    (u.parts.takeWhile fun p => p.key ≠ key).flatMap fun p => (pieces '?' p.value).tail

end Url

variable {u : Url} {key : String}

namespace Part

variable {p : Part}

theorem pieces_text (p : Part) :
    ∃ first, pieces '?' p.text = (p.key ++ "=" ++ first) :: (pieces '?' p.value).tail := by
  obtain ⟨first, rest, hvalue⟩ := List.exists_cons_of_ne_nil (pieces_ne_nil '?' p.value)
  have hfront : '?' ∉ (p.key ++ "=").toList := by simpa using p.key_plain.2.2
  exact ⟨first, by rw [text, pieces_append_of_notMem hfront, hvalue, List.modifyHead_cons,
    List.tail_cons]⟩

theorem plain_text (p : Part) : '&' ∉ p.text.toList := by
  simpa [text] using ⟨p.key_plain.2.1, p.value_plain⟩

theorem valueIn_of_ne (h : p.key ≠ key) (rest : String) :
    valueIn key (p.key ++ "=" ++ rest) = none := by
  refine Option.eq_none_iff_forall_ne_some.mpr fun w hw => h ?_
  obtain ⟨hkey, -, -, n, htext⟩ := valueIn_eq_some_iff.mp hw
  have hpieces : p.key :: pieces '=' rest = key :: pieces '=' (w ++ separators '=' n) :=
    (pieces_cons p.key_plain.1 rest).symm.trans
      ((congrArg (pieces '=') htext).trans (pieces_cons hkey _))
  exact (List.cons.inj hpieces).1

/-- A part with the key is read if nothing in its value is cut off. -/
theorem valueIn_text (hempty : p.value ≠ "") (hvalue : '=' ∉ p.value.toList) :
    valueIn p.key p.text = some p.value := by
  refine valueIn_eq_some_iff.mpr ⟨p.key_plain.1, hvalue, hempty, 0, ?_⟩
  simp [text, separators]

end Part

/-- What is read of a piece is not empty, and it is a part of the piece without `=`. -/
theorem of_valueIn {s w : String} (h : valueIn key s = some w) :
    w ≠ "" ∧ '=' ∉ w.toList ∧ ∀ c ∈ w.toList, c ∈ s.toList := by
  obtain ⟨-, hvalue, hempty, n, rfl⟩ := valueIn_eq_some_iff.mp h
  refine ⟨hempty, hvalue, fun c hc => ?_⟩
  simp [hc]

theorem findSome?_flatMap {α β γ : Type*} (f : β → Option γ) (g : α → List β) (l : List α) :
    (l.flatMap g).findSome? f = l.findSome? fun a => (g a).findSome? f := by
  induction l with
  | nil => rfl
  | cons a l ih =>
      rw [List.flatMap_cons, List.findSome?_append, ih, List.findSome?_cons]
      cases (g a).findSome? f <;> rfl

namespace Url

theorem exists_query_eq {p : Part} {parts : List Part} (h : u.parts = p :: parts) :
    ∃ rest, u.query = p.key ++ rest := by
  rw [query, h, joined, List.map_cons, List.map_cons]
  by_cases hparts : parts = []
  · subst hparts
    exact ⟨"=" ++ p.value, by rw [List.map_nil, List.map_nil, String.intercalate_singleton,
      String.append_assoc]⟩
  · rw [String.intercalate_cons_of_ne_nil (by simpa using hparts), String.append_assoc,
      String.append_assoc, String.append_assoc]
    exact ⟨_, rfl⟩

theorem pieces_query (hparts : u.parts ≠ []) : pieces '&' u.query = u.parts.map Part.text := by
  have hquery : u.query = (String.singleton '&').intercalate (u.parts.map Part.text) := by
    rw [query, joined, List.map_map]
    rfl
  rw [hquery, pieces_intercalate (by simpa using hparts)]
  exact List.forall_mem_map.mpr fun p _ => p.plain_text

/-- The address falls into the base, a piece that is not empty, and others. -/
theorem split_text (hparts : u.parts ≠ []) :
    ∃ first rest, split '?' u.text = u.base :: first :: rest := by
  obtain ⟨p, parts, hcons⟩ := List.exists_cons_of_ne_nil hparts
  obtain ⟨rest, hquery⟩ := exists_query_eq hcons
  obtain ⟨first, others, hrest⟩ := List.exists_cons_of_ne_nil (pieces_ne_nil '?' rest)
  have hpieces : pieces '?' u.text = u.base :: (p.key ++ first) :: others := by
    refine (pieces_cons u.base_plain u.query).trans (congrArg (u.base :: ·) ?_)
    rw [hquery, pieces_append_of_notMem p.key_plain.2.2, hrest, List.modifyHead_cons]
  have hfirst : p.key ++ first ≠ "" := by simp [p.key_ne_empty]
  obtain ⟨others', hothers⟩ := rdropWhile_cons_cons hfirst others
  have hmem : '?' ∈ u.text.toList := by simp [text]
  exact ⟨p.key ++ first, others', by rw [split, if_pos hmem, hpieces, hothers]⟩

/-- `getUrlParam` reads the pieces of the base and those of the parts, in their order. -/
theorem getUrlParam_text (hparts : u.parts ≠ []) (key : String) :
    getUrlParam u.text key =
      (pieces '&' u.base ++ u.parts.flatMap fun p => pieces '?' p.text).findSome?
        (valueIn key) := by
  obtain ⟨first, rest, hsplit⟩ := split_text hparts
  have hlength : ¬(split '?' u.text).length < 2 := by simp [hsplit]
  have hempty : valueIn key "" = none := by simp [valueIn, split]
  have hpieces : pieces '?' u.text = u.base :: pieces '?' u.query :=
    pieces_cons u.base_plain u.query
  calc getUrlParam u.text key
      = (split '?' u.text).findSome? fun str => (split '&' str).findSome? (valueIn key) := by
        rw [getUrlParam, if_neg hlength]
    _ = (pieces '?' u.text).findSome? fun str => (pieces '&' str).findSome? (valueIn key) := by
        simp only [findSome?_split hempty]
        refine findSome?_split ?_ '?' u.text
        rw [pieces_of_notMem (by simp), List.findSome?_singleton, hempty]
    _ = ((pieces '?' u.text).flatMap (pieces '&')).findSome? (valueIn key) :=
        (findSome?_flatMap _ _ _).symm
    _ = _ := by
        rw [hpieces, List.flatMap_cons, flatMap_pieces_comm, pieces_query hparts,
          List.flatMap_map]

theorem findSome?_of_forall_ne {parts : List Part} (h : ∀ p ∈ parts, p.key ≠ key) :
    (parts.flatMap fun p => pieces '?' p.text).findSome? (valueIn key) =
      (parts.flatMap fun p => (pieces '?' p.value).tail).findSome? (valueIn key) := by
  induction parts with
  | nil => rfl
  | cons p parts ih =>
      obtain ⟨hp, hparts⟩ := List.forall_mem_cons.mp h
      obtain ⟨first, htext⟩ := p.pieces_text
      rw [List.flatMap_cons, List.flatMap_cons, List.findSome?_append, List.findSome?_append,
        ih hparts, htext, List.findSome?_cons, Part.valueIn_of_ne hp]

/-- All that is read comes from the strays or, behind them, from the first part with the
key. -/
theorem findSome?_pieces (key : String) :
    (pieces '&' u.base ++ u.parts.flatMap fun p => pieces '?' p.text).findSome? (valueIn key) =
      ((u.strays key).findSome? (valueIn key)).or
        (((u.parts.dropWhile fun p => p.key ≠ key).flatMap fun p => pieces '?' p.text).findSome?
          (valueIn key)) := by
  have hbefore : ∀ p ∈ u.parts.takeWhile fun p => p.key ≠ key, p.key ≠ key := fun p hp => by
    simpa using List.mem_takeWhile_imp hp
  have hsplit : u.parts.flatMap (fun p => pieces '?' p.text) =
      (u.parts.takeWhile fun p => p.key ≠ key).flatMap (fun p => pieces '?' p.text) ++
        (u.parts.dropWhile fun p => p.key ≠ key).flatMap fun p => pieces '?' p.text := by
    rw [← List.flatMap_append, List.takeWhile_append_dropWhile]
  rw [hsplit, List.findSome?_append, List.findSome?_append, findSome?_of_forall_ne hbefore,
    strays, List.findSome?_append, Option.or_assoc]

end Url

def Plain (value : String) : Prop := value ≠ "" ∧ '=' ∉ value.toList ∧ '?' ∉ value.toList

namespace Url

theorem plain_of_getUrlParam (hparts : u.parts ≠ []) {w : String}
    (h : getUrlParam u.text key = some w) : Plain w := by
  rw [getUrlParam_text hparts] at h
  obtain ⟨piece, hpiece, hw⟩ := List.exists_of_findSome?_eq_some h
  obtain ⟨hempty, heq, hmem⟩ := of_valueIn hw
  refine ⟨hempty, heq, fun hw => ?_⟩
  rcases List.mem_append.mp hpiece with hpiece | hpiece
  · exact u.base_plain ((of_mem_pieces hpiece).2 _ (hmem _ hw))
  · obtain ⟨p, -, hpiece⟩ := List.mem_flatMap.mp hpiece
    exact (of_mem_pieces hpiece).1 (hmem _ hw)

/-- The first part with the key is read if its value is plain. -/
theorem findSome?_dropWhile {v : String} (hv : u.param key = some v) (hplain : Plain v) :
    ((u.parts.dropWhile fun p => p.key ≠ key).flatMap fun p => pieces '?' p.text).findSome?
      (valueIn key) = some v := by
  obtain ⟨p, hfind, rfl⟩ := Option.map_eq_some_iff.mp hv
  obtain ⟨hkey, before, after, hparts, hbefore⟩ := List.find?_eq_some_iff_append.mp hfind
  obtain rfl : p.key = key := of_decide_eq_true hkey
  have hdrop : (u.parts.dropWhile fun p' => p'.key ≠ p.key) = p :: after := by
    rw [hparts, List.dropWhile_append_of_pos (by simpa using hbefore), List.dropWhile_cons]
    simp
  have htext : '?' ∉ p.text.toList := by
    simpa [Part.text] using ⟨p.key_plain.2.2, hplain.2.2⟩
  rw [hdrop, List.flatMap_cons, pieces_of_notMem htext, List.singleton_append,
    List.findSome?_cons, Part.valueIn_text hplain.1 hplain.2.1]

theorem findSome?_dropWhile_of_none (hnone : u.param key = none) :
    ((u.parts.dropWhile fun p => p.key ≠ key).flatMap fun p => pieces '?' p.text).findSome?
      (valueIn key) = none := by
  have hne : ∀ p ∈ u.parts, p.key ≠ key := by
    simpa [param, List.find?_eq_none] using hnone
  rw [List.dropWhile_eq_nil_iff.mpr (by simpa using hne)]
  rfl

/-- `getUrlParam` returns the value of the first part with the key if and only if this
value is plain and no stray is read before it as another value. -/
theorem getUrlParam_eq_param_iff (hparts : u.parts ≠ []) :
    getUrlParam u.text key = u.param key ↔
      (∀ v ∈ u.param key, Plain v) ∧
        ∀ w ∈ (u.strays key).findSome? (valueIn key), u.param key = some w := by
  have hread := (getUrlParam_text hparts key).trans (findSome?_pieces key)
  constructor
  · intro h
    refine ⟨fun v hv => plain_of_getUrlParam hparts (h.trans hv), fun w hw => ?_⟩
    rw [hw, Option.some_or] at hread
    exact h.symm.trans hread
  · rintro ⟨hplain, hstrays⟩
    rw [hread]
    cases hstray : (u.strays key).findSome? (valueIn key) with
    | some w => rw [Option.some_or, hstrays w hstray]
    | none =>
        rw [Option.none_or]
        cases hparam : u.param key with
        | some v => exact findSome?_dropWhile hparam (hplain v hparam)
        | none => exact findSome?_dropWhile_of_none hparam

theorem getUrlAddr_text (hparts : u.parts ≠ []) : getUrlAddr u.text = .ok u.base := by
  obtain ⟨first, rest, hsplit⟩ := split_text hparts
  rw [getUrlAddr, hsplit]

/-- An address without parts: only a base that is not empty is found again. -/
theorem split_text_of_nil (hparts : u.parts = []) :
    split '?' u.text = if u.base = "" then [] else [u.base] := by
  have hmem : '?' ∈ u.text.toList := by simp [text]
  have hquery : u.query = "" := by
    rw [query, hparts]
    rfl
  have hpieces : pieces '?' u.text = [u.base] ++ [""] := by
    refine (pieces_cons u.base_plain u.query).trans ?_
    rw [hquery, pieces_of_notMem (by simp)]
    rfl
  rw [split, if_pos hmem, hpieces, List.rdropWhile_concat_pos _ _ _ (by simp),
    List.rdropWhile_singleton]
  simp only [decide_eq_true_eq]

end Url

/-- The parameter and the address that the grammar says. -/
def FollowsGrammar (u : Url) (key : String) : Prop :=
  getUrlParam u.text key = u.param key ∧ getUrlAddr u.text = .ok u.base

/-- The two methods follow the grammar if and only if the value that is asked for is
plain, no stray is read before it as another value, and the address is not just `?`. -/
theorem followsGrammar_iff (u : Url) (key : String) :
    FollowsGrammar u key ↔
      (∀ v ∈ u.param key, Plain v) ∧
        (u.parts ≠ [] → ∀ w ∈ (u.strays key).findSome? (valueIn key), u.param key = some w) ∧
        (u.base ≠ "" ∨ u.parts ≠ []) := by
  by_cases hparts : u.parts = []
  · have hparam : u.param key = none := by simp [Url.param, hparts]
    have hread : getUrlParam u.text key = none := by
      rw [getUrlParam, Url.split_text_of_nil hparts]
      split <;> simp
    rw [FollowsGrammar, getUrlAddr, Url.split_text_of_nil hparts, hread, hparam]
    by_cases hbase : u.base = ""
    · simp [hbase, hparts]
    · simp [hbase, hparts]
  · rw [FollowsGrammar, Url.getUrlParam_eq_param_iff hparts,
      and_iff_left (Url.getUrlAddr_text hparts)]
    simp [hparts]

/-- A token that ends with the padding of Base64, at an address with `&` in its base. -/
def tokenUrl : Url where
  base := "/a&id=7"
  parts :=
    [⟨"token", "YWI=", by decide, by decide, by decide⟩,
      ⟨"id", "5", by decide, by decide, by decide⟩]
  base_plain := by decide

/-- The token loses its padding, and the parameter `id` is taken from the base. -/
theorem not_followsGrammar_of_tokenUrl :
    tokenUrl.text = "/a&id=7?token=YWI=&id=5" ∧
      (getUrlParam tokenUrl.text "token" = some "YWI" ∧
        tokenUrl.param "token" = some "YWI=" ∧ ¬FollowsGrammar tokenUrl "token") ∧
      getUrlParam tokenUrl.text "id" = some "7" ∧
        tokenUrl.param "id" = some "5" ∧ ¬FollowsGrammar tokenUrl "id" := by
  have htoken : getUrlParam tokenUrl.text "token" = some "YWI" := by decide
  have hid : getUrlParam tokenUrl.text "id" = some "7" := by decide
  have hparamToken : tokenUrl.param "token" = some "YWI=" := by decide
  have hparamId : tokenUrl.param "id" = some "5" := by decide
  refine ⟨by decide, ⟨htoken, hparamToken, fun h => ?_⟩, hid, hparamId, fun h => ?_⟩
  · have heq := h.1
    rw [htoken, hparamToken] at heq
    exact absurd heq (by decide)
  · have heq := h.1
    rw [hid, hparamId] at heq
    exact absurd heq (by decide)

end HelloBoot.StrUtil
