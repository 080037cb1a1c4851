import HelloBoot.Transition.System
import HelloBoot.Util.Yml.Flatten
import Mathlib.Logic.Function.Basic

/-!
# One static map for all calls

`getYmlByFileName` assigns a new map to the static field `result`, but from then on it
puts into, and at last returns, whatever map the field refers to. Here calls of it and of
`forEachYaml` run in steps, an assignment, a load, a `put` or a `return` at a time, in
any order. A call that runs by itself does what the method does (`leads_returned`).
A map that was returned for a file stays exact in every run in which each call meets
only the map it has assigned (`isolated_of_ownMap`).
-/

namespace HelloBoot.YmlUtil

open Transition

abbrev CallId := ℕ

/-- References to map objects: the map that a call assigned to `result`, and the one
that the field holds from the start. -/
abbrev MapRef := Option CallId

inductive Method where
  | getYmlByFileName (file : Option String)
  | forEachYaml (keyStr : Option String) (obj : YamlMap)

/-- A loop of a call with `keyStr` over the entries that are left. The loop of
`getYmlByFileName` is one without `keyStr` (`forEachTop_eq`). -/
structure Frame where
  keyStr : Option String
  rest : YamlMap

/-- Where a call stands, with its local variables: before the assignment, before the
load, in its loops, the innermost first, or at its end. -/
inductive Place where
  | assign (file : Option String)
  | load (file : String)
  | loop (frames : List Frame)
  | returned (map : MapRef)
  | threw (t : Throwable)

def Method.start : Method → Place
  | getYmlByFileName file => .assign file
  | forEachYaml keyStr obj => .loop [⟨keyStr, obj⟩]

structure Statics where
  result : MapRef
  maps : MapRef → Result

namespace Statics

variable (sh : Statics)

def assign (c : CallId) : Statics :=
  ⟨some c, Function.update sh.maps (some c) LinkedHashMap.empty⟩

def put (key : Option String) (value : String) : Statics :=
  { sh with maps := Function.update sh.maps sh.result ((sh.maps sh.result).put key value) }

theorem maps_put_self (key : Option String) (value : String) :
    (sh.put key value).maps sh.result = (sh.maps sh.result).put key value :=
  Function.update_self sh.result _ sh.maps

/-- The map in `result` after the entries of `l` have been put in turn. -/
def putAll (l : List (Option String × String)) : Statics := l.foldl (fun sh e => sh.put e.1 e.2) sh

theorem putAll_append (l l' : List (Option String × String)) :
    sh.putAll (l ++ l') = (sh.putAll l).putAll l' := List.foldl_append

@[simp] theorem result_putAll (l : List (Option String × String)) :
    (sh.putAll l).result = sh.result := by
  induction l generalizing sh with
  | nil => rfl
  | cons e l ih => exact ih (sh.put e.1 e.2)

theorem maps_putAll (l : List (Option String × String)) :
    (sh.putAll l).maps sh.result = (sh.maps sh.result).putAll l := by
  induction l generalizing sh with
  | nil => rfl
  | cons e l ih =>
      rw [LinkedHashMap.putAll_cons, ← maps_put_self]
      exact ih (sh.put e.1 e.2)

end Statics

section Calls

-- how the class path and the parser answer for a file; an empty document is null
variable (loadAs : String → Except Throwable (Option YamlMap))

def advance (c : CallId) (sh : Statics) : Place → Option (Statics × Place)
  | .assign file => some (sh.assign c, .load (file.getD bootstrapFile))
  | .load file =>
      match loadAs file with
      | .error t => some (sh, .threw t)
      | .ok none => some (sh, .threw .nullPointer)
      | .ok (some param) => some (sh, .loop [⟨none, param⟩])
  | .loop [] => some (sh, .returned sh.result)
  | .loop (⟨_, .nil⟩ :: frames) => some (sh, .loop frames)
  | .loop (⟨keyStr, .leaf key val rest⟩ :: frames) =>
      match Obj.castString key with
      | .error t => some (sh, .threw t)
      | .ok key => some (sh.put (strNew keyStr key) val.toString, .loop (⟨keyStr, rest⟩ :: frames))
  | .loop (⟨_, .null key _⟩ :: _) =>
      match Obj.castString key with
      | .error t => some (sh, .threw t)
      -- val.toString()
      | .ok _ => some (sh, .threw .nullPointer)
  | .loop (⟨keyStr, .map key val rest⟩ :: frames) =>
      match Obj.castString key with
      | .error t => some (sh, .threw t)
      | .ok key => some (sh, .loop (⟨strNew keyStr key, val⟩ :: ⟨keyStr, rest⟩ :: frames))
  | .returned _ | .threw _ => none

structure Thread where
  method : Method
  place : Place

structure State where
  statics : Statics
  calls : CallId → Option Thread

inductive Act where
  | invoke (c : CallId) (method : Method)
  | step (c : CallId)

def interleaved : System State Act where
  init := ⟨⟨none, fun _ => LinkedHashMap.empty⟩, fun _ => none⟩
  step s
    | .invoke c method =>
        match s.calls c with
        | none => some { s with calls := Function.update s.calls c (some ⟨method, method.start⟩) }
        | some _ => none
    | .step c =>
        match s.calls c with
        | none => none
        | some thread =>
            (advance loadAs c s.statics thread.place).map fun next =>
              ⟨next.1, Function.update s.calls c (some ⟨thread.method, next.2⟩)⟩

/-- The map holds the entries of the file and nothing else. -/
def Exact (file : Option String) (map : Result) : Prop :=
  ∃ content, loadAs (file.getD bootstrapFile) = .ok (some content) ∧ content.Plain ∧
    map = LinkedHashMap.empty.putAll (content.flat none)

/-- Every map that `getYmlByFileName` has returned for a file is exact. -/
def Isolated (s : State) : Prop :=
  ∀ c file map, s.calls c = some ⟨.getYmlByFileName file, .returned map⟩ →
    Exact loadAs file (s.statics.maps map)

def pending (frames : List Frame) : List (Option String × String) :=
  frames.flatMap fun f => f.rest.flat f.keyStr

/-- What loops have left to do of a file whose other entries are in the map `own`. -/
structure Remaining (content : YamlMap) (own : Result) (frames : List Frame) : Prop where
  plain : (∀ f ∈ frames, f.rest.Plain) → content.Plain
  putAll_eq : own.putAll (pending frames) = LinkedHashMap.empty.putAll (content.flat none)

/-- Where the call `c` of `getYmlByFileName` may stand whose own map is `own`: what is not
in the map yet is still to be put. -/
def Place.Ok (file : Option String) (c : CallId) (own : Result) : Place → Prop
  | .assign file' => file' = file
  | .load file' => file' = file.getD bootstrapFile ∧ own = LinkedHashMap.empty
  | .loop frames => ∃ content, loadAs (file.getD bootstrapFile) = .ok (some content) ∧
      Remaining content own frames
  | .returned map => map = some c ∧ Exact loadAs file own
  | .threw _ => True

end Calls

def Place.puts : Place → Bool
  | .loop (⟨_, .leaf key _ _⟩ :: _) => (Obj.castString key).isOk
  | _ => false

def Place.returns : Place → Bool
  | .loop [] => true
  | _ => false

def Place.hasThrown : Place → Bool
  | .threw _ => true
  | _ => false

/-- The map was assigned by a call that has not thrown, so it is or will be returned. -/
def State.isLive (s : State) : MapRef → Bool
  | none => false
  | some c => (s.calls c).any fun thread => !thread.place.hasThrown

/-- A call of `getYmlByFileName` puts into `result` and returns it only while the field
holds the map that this call has assigned, and another call of `forEachYaml` puts only
while the field does not hold a map that is or will be returned. -/
def meetsOwnMap (s : State) : Act → Bool
  | .invoke _ _ => true
  | .step c =>
      match s.calls c with
      | none => true
      | some ⟨.getYmlByFileName _, place⟩ =>
          !(place.puts || place.returns) || s.statics.result == some c
      | some ⟨.forEachYaml _ _, place⟩ => !place.puts || !s.isLive s.statics.result

variable {loadAs : String → Except Throwable (Option YamlMap)} {c : CallId}
  {file : Option String} {sh sh' : Statics} {place place' : Place} {s s' : State} {a : Act}

section Alone

variable {calls : CallId → Option Thread} {method : Method}

def standing (calls : CallId → Option Thread) (c : CallId) (method : Method) (sh : Statics)
    (place : Place) : State :=
  ⟨sh, Function.update calls c (some ⟨method, place⟩)⟩

theorem leads_advance (h : advance loadAs c sh place = some (sh', place')) :
    (interleaved loadAs).Leads (standing calls c method sh place)
      (standing calls c method sh' place') := by
  refine .single ⟨.step c, ?_⟩
  simp [interleaved, standing, h]

theorem leads_loop {m : YamlMap} (hm : m.Plain) (keyStr : Option String)
    (frames : List Frame) (sh : Statics) :
    (interleaved loadAs).Leads (standing calls c method sh (.loop (⟨keyStr, m⟩ :: frames)))
      (standing calls c method (sh.putAll (m.flat keyStr)) (.loop frames)) := by
  induction m generalizing keyStr frames sh with
  | nil => exact leads_advance rfl
  | leaf key val rest ih =>
      have hput : advance loadAs c sh (.loop (⟨keyStr, .leaf key val rest⟩ :: frames)) =
          some (sh.put (strNew keyStr key.text) val.toString,
            .loop (⟨keyStr, rest⟩ :: frames)) := by
        rw [advance, show Obj.castString key = .ok key.text from hm.1]
      exact (leads_advance hput).trans (ih hm.2 keyStr frames _)
  | null key rest => exact hm.elim
  | map key val rest ihval ihrest =>
      have hcall : advance loadAs c sh (.loop (⟨keyStr, .map key val rest⟩ :: frames)) =
          some (sh, .loop (⟨strNew keyStr key.text, val⟩ :: ⟨keyStr, rest⟩ :: frames)) := by
        rw [advance, show Obj.castString key = .ok key.text from hm.1]
      rw [YamlMap.flat, Statics.putAll_append]
      exact ((leads_advance hcall).trans (ihval hm.2.1 _ _ sh)).trans
        (ihrest hm.2.2 keyStr frames _)

/-- A call of `getYmlByFileName` that runs by itself returns what the method returns. -/
theorem leads_returned {content : YamlMap}
    (hload : loadAs (file.getD bootstrapFile) = .ok (some content)) (hplain : content.Plain)
    (hcall : s.calls c = none) (before : Result) :
    ∃ s', (interleaved loadAs).Leads s s' ∧
      s'.calls c = some ⟨.getYmlByFileName file, .returned (some c)⟩ ∧
      getYmlByFileName loadAs file before =
        .ok (s'.statics.maps (some c)) (s'.statics.maps (some c)) := by
  let sh := (s.statics.assign c).putAll (content.flat none)
  have hresult : sh.result = some c := Statics.result_putAll _ _
  have hmap : sh.maps (some c) = LinkedHashMap.empty.putAll (content.flat none) := by
    have hnew : (s.statics.assign c).maps (s.statics.assign c).result = LinkedHashMap.empty :=
      Function.update_self (some c) _ s.statics.maps
    exact hnew ▸ (s.statics.assign c).maps_putAll (content.flat none)
  have hinvoke : (interleaved loadAs).step s (.invoke c (.getYmlByFileName file)) =
      some (standing s.calls c (.getYmlByFileName file) s.statics (.assign file)) := by
    simp [interleaved, hcall, standing, Method.start]
  have hparam : advance loadAs c (s.statics.assign c) (.load (file.getD bootstrapFile)) =
      some (s.statics.assign c, .loop [⟨none, content⟩]) := by
    rw [advance, hload]
  refine ⟨standing s.calls c (.getYmlByFileName file) sh (.returned sh.result), ?_, ?_, ?_⟩
  · exact .head ⟨_, hinvoke⟩ ((leads_advance rfl).trans ((leads_advance hparam).trans
      ((leads_loop hplain none [] _).trans (leads_advance rfl))))
  · simp [standing, hresult]
  · rw [getYmlByFileName_of_load file hload, forEachYaml_eq_flat hplain]
    exact congrArg₂ _ hmap.symm hmap.symm

end Alone

/-- A step changes the map that it assigns or puts into, and no other. -/
theorem maps_advance (h : advance loadAs c sh place = some (sh', place')) {m : MapRef}
    (hassign : m ≠ some c) (hput : place.puts = true → m ≠ sh.result) :
    sh'.maps m = sh.maps m := by
  revert h
  fun_cases advance loadAs c sh place
  all_goals
    intro h
    cases h
  -- the assignment
  case case1 => exact Function.update_of_ne hassign _ _
  -- the `put`
  case case8 hkey => exact Function.update_of_ne (hput (by rw [Place.puts, hkey]; rfl)) _ _
  all_goals rfl

section Remaining

variable {content val rest : YamlMap} {own : Result} {frames : List Frame}
  {keyStr : Option String} {key : Key}

theorem Remaining.start (content : YamlMap) :
    Remaining content LinkedHashMap.empty [⟨none, content⟩] where
  plain hframes := hframes _ (.head _)
  putAll_eq := by rw [pending, List.flatMap_singleton]

theorem Remaining.pop (h : Remaining content own (⟨keyStr, .nil⟩ :: frames)) :
    Remaining content own frames where
  plain hframes := h.plain (List.forall_mem_cons.mpr ⟨trivial, hframes⟩)
  putAll_eq := h.putAll_eq

theorem Remaining.put {o : Obj} (hkey : YamlMap.Castable key)
    (h : Remaining content own (⟨keyStr, .leaf key o rest⟩ :: frames)) :
    Remaining content (own.put (strNew keyStr key.text) o.toString) (⟨keyStr, rest⟩ :: frames) where
  plain hframes := by
    obtain ⟨hrest, hframes⟩ := List.forall_mem_cons.mp hframes
    exact h.plain (List.forall_mem_cons.mpr ⟨⟨hkey, hrest⟩, hframes⟩)
  putAll_eq := h.putAll_eq

theorem Remaining.push (hkey : YamlMap.Castable key)
    (h : Remaining content own (⟨keyStr, .map key val rest⟩ :: frames)) :
    Remaining content own (⟨strNew keyStr key.text, val⟩ :: ⟨keyStr, rest⟩ :: frames) where
  plain hframes := by
    obtain ⟨hval, hframes⟩ := List.forall_mem_cons.mp hframes
    obtain ⟨hrest, hframes⟩ := List.forall_mem_cons.mp hframes
    exact h.plain (List.forall_mem_cons.mpr ⟨⟨hkey, hval, hrest⟩, hframes⟩)
  putAll_eq := by
    rw [← h.putAll_eq]
    simp only [pending, List.flatMap_cons, YamlMap.flat, List.append_assoc]

end Remaining

theorem Place.Ok.advance (hok : place.Ok loadAs file c (sh.maps (some c)))
    (hown : (place.puts || place.returns) = true → sh.result = some c)
    (h : advance loadAs c sh place = some (sh', place')) :
    place'.Ok loadAs file c (sh'.maps (some c)) := by
  cases place with
  | assign file' =>
      cases h
      exact ⟨congrArg (·.getD bootstrapFile) hok, Function.update_self (some c) _ _⟩
  | load file' =>
      obtain ⟨rfl, hempty⟩ := hok
      rw [YmlUtil.advance] at h
      split at h
      case h_1 => cases h; trivial
      case h_2 => cases h; trivial
      case h_3 content hload =>
          cases h
          exact ⟨content, hload, hempty ▸ Remaining.start content⟩
  | loop frames =>
      obtain ⟨content, hload, hleft⟩ := hok
      cases frames with
      | nil =>
          cases h
          exact ⟨hown rfl, content, hload, hleft.plain nofun, hleft.putAll_eq⟩
      | cons f frames =>
          obtain ⟨keyStr, rest⟩ := f
          cases rest with
          | nil =>
              cases h
              exact ⟨content, hload, hleft.pop⟩
          | leaf key val rest =>
              rw [YmlUtil.advance] at h
              split at h
              case h_1 => cases h; trivial
              case h_2 name hkey =>
                  cases h
                  obtain rfl := text_of_castString hkey
                  have hself := sh.maps_put_self (strNew keyStr key.text) val.toString
                  rw [hown (by simp [Place.puts, hkey, Except.isOk, Except.toBool])] at hself
                  exact ⟨content, hload, hself ▸ hleft.put hkey⟩
          | null key rest =>
              rw [YmlUtil.advance] at h
              split at h
              case h_1 => cases h; trivial
              case h_2 => cases h; trivial
          | map key val rest =>
              rw [YmlUtil.advance] at h
              split at h
              case h_1 => cases h; trivial
              case h_2 name hkey =>
                  cases h
                  obtain rfl := text_of_castString hkey
                  exact ⟨content, hload, hleft.push hkey⟩
  | returned map => cases h
  | threw t => cases h

theorem result_of_meetsOwnMap {thread : Thread} (h : meetsOwnMap s (.step c) = true)
    (hthread : s.calls c = some thread) (hmethod : thread.method = .getYmlByFileName file)
    (hown : (thread.place.puts || thread.place.returns) = true) :
    s.statics.result = some c := by
  obtain ⟨method, place⟩ := thread
  cases hmethod
  simpa [meetsOwnMap, hthread, hown] using h

/-- A `put` goes to the map of the call itself, or to one that nobody gets. -/
theorem isLive_of_meetsOwnMap {thread : Thread} (h : meetsOwnMap s (.step c) = true)
    (hthread : s.calls c = some thread) (hputs : thread.place.puts = true) :
    s.statics.result = some c ∨ s.isLive s.statics.result = false := by
  obtain ⟨method, place⟩ := thread
  cases method with
  | getYmlByFileName file =>
      exact .inl (result_of_meetsOwnMap h hthread rfl (Bool.or_eq_true_iff.mpr (.inl hputs)))
  | forEachYaml keyStr obj =>
      have hputs : place.puts = true := hputs
      exact .inr (by simpa [meetsOwnMap, hthread, hputs] using h)

def Inv (loadAs : String → Except Throwable (Option YamlMap)) (s : State) : Prop :=
  ∀ c file place, s.calls c = some ⟨.getYmlByFileName file, place⟩ →
    place.Ok loadAs file c (s.statics.maps (some c))

theorem Inv.isolated (h : Inv loadAs s) : Isolated loadAs s := by
  intro c file map hcall
  obtain ⟨rfl, hexact⟩ := h c file _ hcall
  exact hexact

theorem Inv.invoke (h : Inv loadAs s) (c : CallId) (method : Method) :
    Inv loadAs { s with calls := Function.update s.calls c (some ⟨method, method.start⟩) } := by
  intro c' file place hcall
  rcases eq_or_ne c' c with rfl | hne
  · cases (Function.update_self c' _ _).symm.trans hcall
    rfl
  · exact h c' file place ((Function.update_of_ne hne _ _).symm.trans hcall)

/-- A step of a call leaves the maps of the other calls alone, unless they have thrown. -/
theorem maps_of_meetsOwnMap {thread : Thread} (hmeets : meetsOwnMap s (.step c) = true)
    (hthread : s.calls c = some thread)
    (hadvance : advance loadAs c s.statics thread.place = some (sh', place')) {c' : CallId}
    (hne : c' ≠ c) (hlive : s.isLive (some c') = true) :
    sh'.maps (some c') = s.statics.maps (some c') := by
  refine maps_advance hadvance (fun heq => hne (Option.some.inj heq)) fun hputs hresult => ?_
  rcases isLive_of_meetsOwnMap hmeets hthread hputs with hown | hdead
  · exact hne (Option.some.inj (hresult.trans hown))
  · rw [← hresult, hlive] at hdead
    cases hdead

theorem Inv.advance {thread : Thread} (h : Inv loadAs s)
    (hmeets : meetsOwnMap s (.step c) = true) (hthread : s.calls c = some thread)
    (hadvance : advance loadAs c s.statics thread.place = some (sh', place')) :
    Inv loadAs ⟨sh', Function.update s.calls c (some ⟨thread.method, place'⟩)⟩ := by
  intro c' file place hcall
  rcases eq_or_ne c' c with rfl | hne
  · obtain ⟨method, before⟩ := thread
    cases (Function.update_self c' _ _).symm.trans hcall
    exact (h c' file before hthread).advance (result_of_meetsOwnMap hmeets hthread rfl) hadvance
  · have hcall := (Function.update_of_ne hne _ _).symm.trans hcall
    cases place with
    | threw t => trivial
    | _ =>
        rw [maps_of_meetsOwnMap hmeets hthread hadvance hne (by simp [State.isLive, hcall,
          Place.hasThrown])]
        exact h c' file _ hcall

theorem Inv.step (h : Inv loadAs s) (hmeets : meetsOwnMap s a = true)
    (hstep : (interleaved loadAs).step s a = some s') : Inv loadAs s' := by
  cases a with
  | invoke c method =>
      simp only [interleaved] at hstep
      split at hstep
      case h_1 => exact Option.some.inj hstep ▸ h.invoke c method
      case h_2 => cases hstep
  | step c =>
      simp only [interleaved] at hstep
      split at hstep
      case h_1 => cases hstep
      case h_2 thread hthread =>
          obtain ⟨⟨sh', place'⟩, hadvance, rfl⟩ := Option.map_eq_some_iff.mp hstep
          exact h.advance hmeets hthread hadvance

/-- In a run in which every call meets only its own map, the map that was returned for a
file holds exactly the entries of the file, from then on. -/
theorem isolated_of_ownMap (h : (interleaved loadAs).ReachedBy (fun s a => meetsOwnMap s a) s) :
    Isolated loadAs s :=
  (h.invariant (I := Inv loadAs) (fun _ _ _ hcall => by cases hcall)
    fun _ _ _ hs hmeets hstep => hs.step hmeets hstep).isolated

def single : YamlMap := .leaf (name "a") (.string "1") .nil

def loadThenFlatten : List Act :=
  .invoke 0 (.getYmlByFileName none) :: List.replicate 5 (.step 0) ++
    .invoke 1 (.forEachYaml (some "x") (.leaf (name "b") (.string "2") .nil)) ::
      List.replicate 3 (.step 1)

def flattenThenLoad : List Act :=
  .invoke 1 (.forEachYaml (some "x") (.leaf (name "b") (.string "2") .nil)) ::
    List.replicate 3 (.step 1) ++ .invoke 0 (.getYmlByFileName none) :: List.replicate 5 (.step 0)

theorem isolated_of_ownMap_flattenThenLoad :
    ∃ s, (interleaved fun _ => .ok (some single)).ReachedBy (fun s a => meetsOwnMap s a) s ∧
      s.calls 0 = some ⟨.getYmlByFileName none, .returned (some 0)⟩ ∧
      Isolated (fun _ => .ok (some single)) s := by
  have hrun : ∃ s, (interleaved fun _ => .ok (some single)).ReachedBy
      (fun s a => meetsOwnMap s a) s ∧
      s.calls 0 = some ⟨.getYmlByFileName none, .returned (some 0)⟩ :=
    System.ReachedBy.exists_of_execBy flattenThenLoad ⟨_, rfl, rfl⟩
  obtain ⟨s, hs, hcall⟩ := hrun
  exact ⟨s, hs, hcall, isolated_of_ownMap hs⟩

/-- The later call adds an entry to the map that was returned for the file. -/
theorem not_isolated_of_loadThenFlatten :
    ∃ s, (interleaved fun _ => .ok (some single)).Reached s ∧
      s.calls 0 = some ⟨.getYmlByFileName none, .returned (some 0)⟩ ∧
      (s.statics.maps (some 0)).entries = [(some "a", "1"), (some "x.b", "2")] ∧
      ¬ Isolated (fun _ => .ok (some single)) s := by
  have hrun : ∃ s, (interleaved fun _ => .ok (some single)).Reached s ∧
      s.calls 0 = some ⟨.getYmlByFileName none, .returned (some 0)⟩ ∧
      (s.statics.maps (some 0)).entries = [(some "a", "1"), (some "x.b", "2")] :=
    System.ReachedBy.exists_of_execBy loadThenFlatten ⟨_, rfl, rfl, rfl⟩
  obtain ⟨s, hs, hcall, hentries⟩ := hrun
  refine ⟨s, hs, hcall, hentries, fun hisolated => ?_⟩
  obtain ⟨content, hload, -, hmap⟩ := hisolated 0 none (some 0) hcall
  cases hload
  rw [hmap] at hentries
  exact absurd hentries (by decide)

end HelloBoot.YmlUtil
