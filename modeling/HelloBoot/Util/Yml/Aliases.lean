import HelloBoot.Util.Yml.Flatten

/-!
# Maps that refer to one another

An alias in a file stands for the map at its anchor. So the parser makes map objects that refer to
one another, and an alias below its anchor makes one that comes back to itself. A document without
such an alias, in which every value that is no map has a text, unfolds to a tree, for which the
methods do the same (`run_eq_of_unfolds`); for any other they do not return, whatever the depth of
the stack (`exists_unfolds_of_run`).
-/

namespace HelloBoot.YmlUtil

/-- The value of an entry, where `ρ` are the references to map objects. The `toString()` of a value
that is no map may throw: it overflows the stack for a list that an alias puts into a list of its
own. -/
inductive Value (ρ : Type) where
  | leaf (val : Obj)
  | noText (t : Throwable)
  | null
  | map (ref : ρ)

structure Document (ρ : Type) where
  entries : ρ → List (Key × Value ρ)
  root : ρ

variable {ρ : Type}

namespace Document

/-- The body of the loop of `forEachYaml`, with what it calls for a map. -/
def body (call : Option String → ρ → Yml Result) (keyStr : Option String)
    (entry : Key × Value ρ) : Yml Unit := do
  let key ← getKey entry.1
  match entry.2 with
  | .map val =>
      let _ ← call (strNew keyStr key) val
  | .null => throw .nullPointer
  | .noText t => throw t
  | .leaf val => modify fun result => result.put (strNew keyStr key) val.toString

/-- `forEachYaml(keyStr, obj)`, where `depth` calls fit on the stack. -/
def forEachYaml (doc : Document ρ) : (depth : ℕ) → (keyStr : Option String) → ρ → Yml Result
  | 0, _, _ => throw .stackOverflow
  | depth + 1, keyStr, obj => do
      (doc.entries obj).forM (body (doc.forEachYaml depth) keyStr)
      get

def forEachTop (doc : Document ρ) (depth : ℕ) : Yml Result := do
  (doc.entries doc.root).forM fun entry => do
    let key ← getKey entry.1
    match entry.2 with
    | .map val =>
        let _ ← doc.forEachYaml depth key val
    | .null => throw .nullPointer
    | .noText t => throw t
    | .leaf val => modify fun result => result.put key val.toString
  get

def getYmlByFileName (loadAs : String → Except Throwable (Option (Document ρ))) (depth : ℕ)
    (file : Option String) : Yml Result := do
  set (LinkedHashMap.empty : Result)
  match loadAs (file.getD bootstrapFile) with
  | .error t => throw t
  | .ok none => throw .nullPointer
  | .ok (some param) => param.forEachTop depth

/-- The tree `m` is what entries amount to when the references are followed, and every value that is
no map has a text. -/
inductive Unfolds (doc : Document ρ) : List (Key × Value ρ) → YamlMap → Prop
  | nil : Unfolds doc [] .nil
  | leaf {key val es rest} (hrest : Unfolds doc es rest) :
      Unfolds doc ((key, .leaf val) :: es) (.leaf key val rest)
  | null {key es rest} (hrest : Unfolds doc es rest) :
      Unfolds doc ((key, .null) :: es) (.null key rest)
  | map {key ref val es rest} (hval : Unfolds doc (doc.entries ref) val)
      (hrest : Unfolds doc es rest) : Unfolds doc ((key, .map ref) :: es) (.map key val rest)

/-- A leaf below entries, with the keys on the way to it. -/
inductive Leaf (doc : Document ρ) : List (Key × Value ρ) → List Key → Obj → Prop
  | here {es key val} (h : (key, .leaf val) ∈ es) : Leaf doc es [key] val
  | inside {es key ref path val} (h : (key, .map ref) ∈ es)
      (hleaf : Leaf doc (doc.entries ref) path val) : Leaf doc es (key :: path) val

end Document

/-- How many maps stand below one another. -/
def YamlMap.height : YamlMap → ℕ
  | nil => 0
  | leaf _ _ rest | null _ rest => rest.height
  | map _ val rest => max (val.height + 1) rest.height

namespace Document

def run (doc : Document ρ) (depth : ℕ) (keyStr : Option String) (es : List (Key × Value ρ)) :
    Yml Result := do
  es.forM (body (doc.forEachYaml depth) keyStr)
  get

variable {doc : Document ρ} {es : List (Key × Value ρ)} {m : YamlMap} {depth : ℕ}
  {keyStr name : Option String} {key : Key} {result : Result} {t : Throwable}

theorem run_cons (e : Key × Value ρ) (es : List (Key × Value ρ)) :
    doc.run depth keyStr (e :: es) result =
      (body (doc.forEachYaml depth) keyStr e >>= fun _ => doc.run depth keyStr es) result := by
  change ((body _ keyStr e >>= fun _ => es.forM _) >>= fun _ => get) result = _
  rw [bind_assoc]
  rfl

theorem getYmlByFileName_of_load {loadAs : String → Except Throwable (Option (Document ρ))}
    {file : Option String} (hload : loadAs (file.getD bootstrapFile) = .ok (some doc))
    (result : Result) :
    getYmlByFileName loadAs depth file result =
      doc.run depth none (doc.entries doc.root) LinkedHashMap.empty := by
  rw [getYmlByFileName, hload]
  rfl

theorem getKey_of_ok (h : Obj.castString key = .ok name) : getKey key result = .ok name result := by
  rw [getKey, h]
  rfl

theorem getKey_of_error (h : Obj.castString key = .error t) :
    getKey key result = .error t result := by
  rw [getKey, h]
  rfl

theorem body_of_error (call : Option String → ρ → Yml Result) (h : Obj.castString key = .error t)
    (v : Value ρ) (result : Result) : body call keyStr (key, v) result = .error t result :=
  Call.bind_of_error (getKey_of_error h)

theorem body_map (h : Obj.castString key = .ok name) (ref : ρ) (result : Result) :
    body (doc.forEachYaml (depth + 1)) keyStr (key, .map ref) result =
      (doc.run depth (strNew keyStr name) (doc.entries ref) >>= fun _ => pure ()) result :=
  Call.bind_of_ok (getKey_of_ok h)

/-- On a stack that is deep enough the methods do what they do for the tree. -/
theorem run_eq_of_unfolds (h : doc.Unfolds es m) (hdepth : m.height ≤ depth)
    (keyStr : Option String) (result : Result) :
    doc.run depth keyStr es result = YmlUtil.forEachYaml keyStr m result := by
  induction h generalizing depth keyStr result with
  | nil => rfl
  | @leaf key val es rest _ ih =>
      rw [run_cons, YmlUtil.forEachYaml]
      cases hkey : Obj.castString key with
      | error t => rw [Call.bind_of_error (body_of_error _ hkey _ _),
          Call.bind_of_error (getKey_of_error hkey)]
      | ok name =>
          have hbody : body (doc.forEachYaml depth) keyStr (key, .leaf val) result =
              .ok () (result.put (strNew keyStr name) val.toString) :=
            Call.bind_of_ok (getKey_of_ok hkey)
          rw [Call.bind_of_ok hbody, Call.bind_of_ok (getKey_of_ok hkey)]
          exact ih hdepth keyStr _
  | @null key es rest _ ih =>
      rw [run_cons, YmlUtil.forEachYaml]
      cases hkey : Obj.castString key with
      | error t => rw [Call.bind_of_error (body_of_error _ hkey _ _),
          Call.bind_of_error (getKey_of_error hkey)]
      | ok name =>
          have hbody : body (doc.forEachYaml depth) keyStr (key, .null) result =
              .error .nullPointer result := Call.bind_of_ok (getKey_of_ok hkey)
          rw [Call.bind_of_error hbody, Call.bind_of_ok (getKey_of_ok hkey)]
          rfl
  | @map key ref val es rest _ _ ihval ihrest =>
      rw [YamlMap.height, Nat.max_le] at hdepth
      obtain ⟨depth, rfl⟩ := Nat.exists_eq_add_of_le' (Nat.one_le_of_lt hdepth.1)
      have hval := fun keyStr => ihval (Nat.le_of_succ_le_succ hdepth.1) keyStr result
      rw [run_cons, YmlUtil.forEachYaml]
      cases hkey : Obj.castString key with
      | error t => rw [Call.bind_of_error (body_of_error _ hkey _ _),
          Call.bind_of_error (getKey_of_error hkey)]
      | ok name =>
          rw [Call.bind_of_ok (getKey_of_ok hkey)]
          have hbody : body (doc.forEachYaml (depth + 1)) keyStr (key, .map ref) result = _ :=
            body_map hkey ref result
          cases hrun : YmlUtil.forEachYaml (strNew keyStr name) val result with
          | error t result' =>
              rw [Call.bind_of_error ((hval _).trans hrun)] at hbody
              rw [Call.bind_of_error hbody, Call.bind_of_error hrun]
          | ok map result' =>
              rw [Call.bind_of_ok ((hval _).trans hrun)] at hbody
              rw [Call.bind_of_ok hbody, Call.bind_of_ok hrun]
              exact ihrest hdepth.2 keyStr result'

theorem exists_unfolds_of_forM {call : Option String → ρ → Yml Result}
    (hcall : ∀ keyStr ref result map result', call keyStr ref result = .ok map result' →
      ∃ m, doc.Unfolds (doc.entries ref) m) {u : Unit} {result' : Result}
    (h : es.forM (body call keyStr) result = .ok u result') : ∃ m, doc.Unfolds es m := by
  induction es generalizing result with
  | nil => exact ⟨.nil, .nil⟩
  | cons e es ih =>
      obtain ⟨key, v⟩ := e
      obtain ⟨_, _, hbody, hrest⟩ := Call.exists_of_bind_eq_ok h
      obtain ⟨rest, hrest⟩ := ih hrest
      cases v with
      | leaf val => exact ⟨_, .leaf hrest⟩
      | noText t =>
          obtain ⟨name, _, _, hvalue⟩ := Call.exists_of_bind_eq_ok hbody
          cases hvalue
      | null => exact ⟨_, .null hrest⟩
      | map ref =>
          obtain ⟨name, _, _, hvalue⟩ := Call.exists_of_bind_eq_ok hbody
          obtain ⟨map, _, hinner, _⟩ := Call.exists_of_bind_eq_ok hvalue
          obtain ⟨val, hval⟩ := hcall _ _ _ _ _ hinner
          exact ⟨_, .map hval hrest⟩

theorem exists_unfolds_of_forEachYaml {ref : ρ} {map result' : Result}
    (h : doc.forEachYaml depth keyStr ref result = .ok map result') :
    ∃ m, doc.Unfolds (doc.entries ref) m := by
  induction depth generalizing keyStr ref result map result' with
  | zero => cases h
  | succ depth ih =>
      obtain ⟨_, _, hloop, _⟩ := Call.exists_of_bind_eq_ok h
      exact exists_unfolds_of_forM (fun _ _ _ _ _ => ih) hloop

/-- A run that returns has followed all references to an end, and has made all texts. -/
theorem exists_unfolds_of_run {map result' : Result}
    (h : doc.run depth keyStr es result = .ok map result') : ∃ m, doc.Unfolds es m := by
  obtain ⟨_, _, hloop, _⟩ := Call.exists_of_bind_eq_ok h
  exact exists_unfolds_of_forM (fun _ _ _ _ _ => exists_unfolds_of_forEachYaml) hloop

theorem leaf_cons_iff {v : Value ρ} {path : List Key} {val : Obj} :
    doc.Leaf ((key, v) :: es) path val ↔ (v = .leaf val ∧ path = [key]) ∨
      (∃ ref path', v = .map ref ∧ path = key :: path' ∧ doc.Leaf (doc.entries ref) path' val) ∨
        doc.Leaf es path val := by
  constructor
  · intro h
    cases h with
    | here h =>
        rcases List.mem_cons.mp h with heq | h
        · cases heq
          exact .inl ⟨rfl, rfl⟩
        · exact .inr (.inr (.here h))
    | inside h hleaf =>
        rcases List.mem_cons.mp h with heq | h
        · cases heq
          exact .inr (.inl ⟨_, _, rfl, rfl, hleaf⟩)
        · exact .inr (.inr (.inside h hleaf))
  · rintro (⟨rfl, rfl⟩ | ⟨ref, path, rfl, rfl, hleaf⟩ | h)
    · exact .here List.mem_cons_self
    · exact .inside List.mem_cons_self hleaf
    · cases h with
      | here h => exact .here (List.mem_cons_of_mem _ h)
      | inside h hleaf => exact .inside (List.mem_cons_of_mem _ h) hleaf

/-- The leaves of a document are those of the tree. -/
theorem leaf_iff_of_unfolds (h : doc.Unfolds es m) {path : List Key} {val : Obj} :
    doc.Leaf es path val ↔ (path, val) ∈ m.leaves := by
  induction h generalizing path with
  | nil =>
      refine iff_of_false (fun h => ?_) List.not_mem_nil
      cases h with
      | here h | inside h _ => cases h
  | leaf _ ih => simp [leaf_cons_iff, ih, YamlMap.leaves, and_comm, eq_comm]
  | null _ ih => simp [leaf_cons_iff, ih, YamlMap.leaves]
  | map _ _ ihval ihrest =>
      simp [leaf_cons_iff, ihval, ihrest, YamlMap.leaves, eq_comm, and_comm]

end Document

end HelloBoot.YmlUtil
