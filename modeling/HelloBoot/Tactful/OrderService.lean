import HelloBoot.Java.LinkedHashMap
import HelloBoot.Java.ListToString
import HelloBoot.Java.Throwable

/-!
# `OrderService`

The handlers of orders are kept in a map under the text of the list of factors that their
annotation gives. Two different arrays of factors may have one text; so the handler that is
found for an array is the first one of the list with this array if and only if no handler
with another array of the same text stands before all of them (`findsFirst_iff`).
-/

namespace HelloBoot.OrderService

/-- `HandlerTypeImpl.getType` of an annotation with the given `factor()`. -/
def getType (factor : List String) : String := listToString factor

section OrderHandlerMap

variable {η : Type} (handlerType : η → Option (List String))

/-- One round of `Collectors.toMap` with the merge function `(v1, v2) -> v1`, for a handler
whose class carries the annotation that `handlerType` yields. -/
def accumulate (map : LinkedHashMap String η) (handler : η) :
    Except Throwable (LinkedHashMap String η) :=
  match handlerType handler with
  | none => .error .nullPointer
  | some factor =>
      match map.get (getType factor) with
      | none => .ok (map.put (getType factor) handler)
      | some v1 => .ok (map.put (getType factor) v1)

def orderHandlerMap (handlerList : List η) : Except Throwable (LinkedHashMap String η) :=
  handlerList.foldlM (accumulate handlerType) LinkedHashMap.empty

def lookUp (map : LinkedHashMap String η) (factor : List String) : Option η :=
  map.get (getType factor)

variable {handlerType} {handlerList : List η}

/-- Looking the factors up yields the first handler of the list that has them. -/
def FindsFirst (handlerType : η → Option (List String)) (handlerList : List η)
    (factor : List String) : Prop :=
  ∃ map, orderHandlerMap handlerType handlerList = .ok map ∧
    lookUp map factor = handlerList.find? fun handler => handlerType handler = some factor

/-- The handler has factors that are written like the given ones. -/
def writtenAs (handlerType : η → Option (List String)) (factor : List String) (handler : η) :
    Bool :=
  (handlerType handler).any fun factor' => fragments factor' = fragments factor

theorem writtenAs_iff {factor factor' : List String} {handler : η}
    (h : handlerType handler = some factor') :
    writtenAs handlerType factor handler = true ↔ getType factor' = getType factor := by
  rw [writtenAs, h, Option.any_some, decide_eq_true_eq, getType, getType, listToString_eq_iff]

theorem lookUp_accumulate {map map' : LinkedHashMap String η} {handler : η}
    (h : accumulate handlerType map handler = .ok map') (factor : List String) :
    lookUp map' factor = (lookUp map factor).or
      (if writtenAs handlerType factor handler then some handler else none) := by
  rw [accumulate] at h
  cases htype : handlerType handler with
  | none =>
      rw [htype] at h
      cases h
  | some factor' =>
      rw [htype] at h
      simp only [lookUp, writtenAs_iff htype]
      by_cases hkey : getType factor' = getType factor
      · rw [if_pos hkey, ← hkey]
        cases hget : map.get (getType factor') with
        | none =>
            simp only [hget] at h
            cases h
            exact LinkedHashMap.get_put_self
        | some v1 =>
            simp only [hget] at h
            cases h
            exact LinkedHashMap.get_put_self
      · rw [if_neg hkey, Option.or_none]
        cases hget : map.get (getType factor') with
        | none | some _ =>
            simp only [hget] at h
            cases h
            exact LinkedHashMap.get_put_of_ne (Ne.symm hkey)

theorem exists_foldlM (hannotated : ∀ handler ∈ handlerList, (handlerType handler).isSome = true)
    (map : LinkedHashMap String η) :
    ∃ map', handlerList.foldlM (accumulate handlerType) map = .ok map' ∧
      ∀ factor, lookUp map' factor =
        (lookUp map factor).or (handlerList.find? (writtenAs handlerType factor)) := by
  induction handlerList generalizing map with
  | nil => exact ⟨map, rfl, fun factor => (Option.or_none).symm⟩
  | cons handler handlerList ih =>
      obtain ⟨hhandler, hrest⟩ := List.forall_mem_cons.mp hannotated
      obtain ⟨map₁, hmap₁⟩ : ∃ map₁, accumulate handlerType map handler = .ok map₁ := by
        obtain ⟨factor', htype⟩ := Option.isSome_iff_exists.mp hhandler
        rw [accumulate, htype]
        cases hget : map.get (getType factor') with
        | none | some _ => simp [hget]
      obtain ⟨map', hfold, hlookUp⟩ := ih hrest map₁
      refine ⟨map', by rw [List.foldlM_cons, hmap₁]; exact hfold, fun factor => ?_⟩
      rw [hlookUp, lookUp_accumulate hmap₁, Option.or_assoc, List.find?_cons]
      cases writtenAs handlerType factor handler <;> rfl

theorem writtenAs_of_eq {factor : List String} {handler : η}
    (h : handlerType handler = some factor) : writtenAs handlerType factor handler = true :=
  (writtenAs_iff h).mpr rfl

/-- The look-up yields the first handler whose factors are written like the given ones. -/
theorem exists_orderHandlerMap
    (hannotated : ∀ handler ∈ handlerList, (handlerType handler).isSome = true) :
    ∃ map, orderHandlerMap handlerType handlerList = .ok map ∧
      ∀ factor, lookUp map factor = handlerList.find? (writtenAs handlerType factor) := by
  obtain ⟨map, hmap, hlookUp⟩ := exists_foldlM hannotated LinkedHashMap.empty
  refine ⟨map, hmap, fun factor => ?_⟩
  rw [hlookUp, lookUp, LinkedHashMap.get_empty, Option.none_or]

theorem findsFirst_of_exact {factor : List String}
    (hannotated : ∀ handler ∈ handlerList, (handlerType handler).isSome = true)
    (h : ∀ handler, handlerList.find? (writtenAs handlerType factor) = some handler →
      handlerType handler = some factor) : FindsFirst handlerType handlerList factor := by
  obtain ⟨map, hmap, hlookUp⟩ := exists_orderHandlerMap hannotated
  refine ⟨map, hmap, (hlookUp factor).trans ?_⟩
  cases hhandler : handlerList.find? (writtenAs handlerType factor) with
  | none =>
      refine (List.find?_eq_none.mpr fun handler hmem heq => ?_).symm
      exact List.find?_eq_none.mp hhandler handler hmem (writtenAs_of_eq (of_decide_eq_true heq))
  | some handler =>
      obtain ⟨-, before, behind, hlist, hbefore⟩ := List.find?_eq_some_iff_append.mp hhandler
      refine (List.find?_eq_some_iff_append.mpr ?_).symm
      refine ⟨decide_eq_true (h handler hhandler), before, behind, hlist, fun other hother => ?_⟩
      have hnot := hbefore other hother
      by_contra heq
      rw [writtenAs_of_eq (by simpa using heq)] at hnot
      cases hnot

/-- The look-up is exact if and only if the first handler of the list whose factors have
the same fragments, if there is one, has the factors themselves. -/
theorem findsFirst_iff
    (hannotated : ∀ handler ∈ handlerList, (handlerType handler).isSome = true)
    (factor : List String) :
    FindsFirst handlerType handlerList factor ↔
      ∀ handler, handlerList.find? (writtenAs handlerType factor) = some handler →
        handlerType handler = some factor := by
  refine ⟨?_, findsFirst_of_exact hannotated⟩
  obtain ⟨map, hmap, hlookUp⟩ := exists_orderHandlerMap hannotated
  rintro ⟨map', hmap', hfirst⟩ handler hhandler
  obtain rfl : map = map' := Except.ok.inj (hmap.symm.trans hmap')
  rw [hlookUp, hhandler] at hfirst
  have hexact := List.find?_some hfirst.symm
  exact of_decide_eq_true hexact

/-- Where no string holds `", "` or is the only one of an array and empty, every look-up is
exact. -/
theorem findsFirst_of_plain
    (hannotated : ∀ handler ∈ handlerList, (handlerType handler).isSome = true)
    {factor : List String} (hfactor : PlainList factor)
    (hplain : ∀ handler ∈ handlerList, ∀ factor' ∈ handlerType handler, PlainList factor') :
    FindsFirst handlerType handlerList factor := by
  refine findsFirst_of_exact hannotated fun handler hhandler => ?_
  have hmem := List.mem_of_find?_eq_some hhandler
  obtain ⟨factor', htype⟩ := Option.isSome_iff_exists.mp (hannotated handler hmem)
  have hwritten := List.find?_some hhandler
  rw [writtenAs, htype, Option.any_some, decide_eq_true_eq,
    fragments_inj_of_plain (hplain handler hmem factor' htype) hfactor] at hwritten
  rw [htype, hwritten]

end OrderHandlerMap

/-- A handler whose annotation has two factors, of which the first holds a comma and a
blank, and one with three. -/
def handlers : List (ℕ × List String) := [(0, ["ALI, ALI", "GX"]), (1, ["ALI", "ALI", "GX"])]

theorem findsFirst_iff_of_handlers :
    FindsFirst (fun handler => some handler.2) handlers ["SELF", "WX", "GX"] ↔
      ∀ handler, handlers.find? (writtenAs (fun handler => some handler.2) ["SELF", "WX", "GX"]) =
        some handler → some handler.2 = some ["SELF", "WX", "GX"] :=
  findsFirst_iff (by decide) _

/-- The handler of two factors is found for three. -/
theorem not_findsFirst_of_handlers :
    (∃ map, orderHandlerMap (fun handler => some handler.2) handlers = .ok map ∧
      lookUp map ["ALI", "ALI", "GX"] = some (0, ["ALI, ALI", "GX"])) ∧
      ¬FindsFirst (fun handler => some handler.2) handlers ["ALI", "ALI", "GX"] := by
  refine ⟨⟨_, rfl, by decide⟩, ?_⟩
  rintro ⟨map, hmap, hfirst⟩
  cases hmap
  exact absurd hfirst (by decide)

end HelloBoot.OrderService
