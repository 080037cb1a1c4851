import HelloBoot.Util.Yml.Aliases

/-!
# Null values

Both loops call `toString()` on a value that is not a map, so the first null on the way
makes `getYmlByFileName` throw, and no leaf can be read any more; the cast of a key that is
no string does the same (`forEachYaml_of_not_plain`). Otherwise, and if no alias leads back to a
map or list above it, the result holds every leaf under its dotted path as long as no two leaves
with different texts share one (`keepsLeaves_iff`).
-/

namespace HelloBoot.YmlUtil

/-- The keys on the way to a leaf joined by dots, without the empty keys that it begins with. Where
all keys are empty it is the last of them. -/
def dottedPath (path : List Key) : Option String :=
  match path.dropWhile fun key => key.text.getD "" = "" with
  | [] => path.getLast?.bind Key.text
  | key :: path => some (join (key :: path))

/-- The dotted path is all keys joined by dots, if the first one is not empty. -/
theorem dottedPath_cons {key : Key} (h : key.text.getD "" ≠ "") (path : List Key) :
    dottedPath (key :: path) = some (join (key :: path)) := by
  rw [dottedPath, List.dropWhile_cons_of_neg (by simpa using h)]

/-- What `keyStr` becomes on the way along a path. -/
def extend (keyStr : Option String) (path : List Key) : Option String :=
  path.foldl (fun keyStr key => strNew keyStr key.text) keyStr

theorem text_getD_null (key : Key) : key.text.getD "null" = Obj.valueOf key := by
  cases key <;> rfl

/-- Below a prefix that is not empty the keys are joined by dots. -/
theorem extend_join {pre : List Key} (hne : pre ≠ []) (hpre : join pre ≠ "") (path : List Key) :
    extend (some (join pre)) path = some (join (pre ++ path)) := by
  induction path generalizing pre with
  | nil => rw [List.append_nil, extend, List.foldl_nil]
  | cons key path ih =>
      have hkey : strNew (some (join pre)) key.text = some (join (pre ++ [key])) := by
        rw [join_concat hne, strNew, if_pos hpre, text_getD_null]
      have hlonger : join (pre ++ [key]) ≠ "" := by
        rw [join_concat hne]
        intro hempty
        simp at hempty
      rw [extend, List.foldl_cons, hkey]
      exact (ih (by simp) hlonger).trans (by rw [List.append_assoc, List.singleton_append])

theorem strNew_of_empty {keyStr : Option String} (h : keyStr.getD "" = "") (key : Option String) :
    strNew keyStr key = key := by
  cases keyStr with
  | none => rfl
  | some s => exact if_neg (not_not.mpr h)

/-- Without a prefix, or below an empty one, the path of a leaf becomes its dotted path. -/
theorem extend_of_empty {keyStr : Option String} (h : keyStr.getD "" = "") {path : List Key}
    (hne : path ≠ []) : extend keyStr path = dottedPath path := by
  induction path generalizing keyStr with
  | nil => exact absurd rfl hne
  | cons key path ih =>
      rw [extend, List.foldl_cons, strNew_of_empty h]
      by_cases hkey : key.text.getD "" = ""
      · cases path with
        | nil => simp [dottedPath, hkey]
        | cons key' path =>
            refine (ih hkey (List.cons_ne_nil key' path)).trans ?_
            simp only [dottedPath, List.dropWhile_cons, hkey, List.getLast?_cons_cons]
            rfl
      · obtain ⟨o, rfl⟩ : ∃ o, key = some o :=
          Option.ne_none_iff_exists'.mp fun hnone => hkey (by rw [hnone]; rfl)
        have hjoin : join [some o] = o.toString := String.intercalate_singleton
        have hpath := extend_join (List.cons_ne_nil (some o) [])
          (hjoin.trans_ne (by simpa [Key.text] using hkey)) path
        rw [hjoin] at hpath
        exact hpath.trans (dottedPath_cons hkey path).symm

namespace YamlMap

/-- A call puts the leaves, each under what `keyStr` becomes on the way to it. -/
theorem flat_eq_map_leaves (keyStr : Option String) (m : YamlMap) :
    m.flat keyStr = m.leaves.map fun l => (extend keyStr l.1, l.2.toString) := by
  induction m generalizing keyStr with
  | nil => rfl
  | leaf key val rest ih =>
      rw [flat, ih, leaves]
      rfl
  | null key rest ih => exact ih keyStr
  | map key val rest ihval ihrest =>
      rw [flat, ihval, ihrest, leaves, List.map_append, List.map_map]
      rfl

theorem flat_none (m : YamlMap) :
    m.flat none = m.leaves.map fun l => (dottedPath l.1, l.2.toString) := by
  rw [flat_eq_map_leaves]
  refine List.map_congr_left fun l hl => ?_
  obtain ⟨key, -, path, hpath⟩ := mem_keys_of_mem_leaves hl
  rw [extend_of_empty rfl (hpath ▸ List.cons_ne_nil key path)]

end YamlMap

variable {m : YamlMap}

/-- Null, or a key that is no string, stops a call wherever it stands. -/
theorem forEachYaml_of_not_plain (hm : ¬m.Plain) (keyStr : Option String) (result : Result) :
    ∃ t result', forEachYaml keyStr m result = .error t result' := by
  have hcast {key : Key} (hkey : ¬YamlMap.Castable key) {β : Type} (f : Option String → Yml β)
      (result : Result) : ∃ t result', (getKey key >>= f) result = .error t result' := by
    cases h : Obj.castString key with
    | error t => exact ⟨t, result, Call.bind_of_error (Document.getKey_of_error h)⟩
    | ok name => exact absurd (h.trans (congrArg _ (text_of_castString h))) hkey
  induction m generalizing keyStr result with
  | nil => exact absurd trivial hm
  | leaf key val rest ih =>
      rw [forEachYaml]
      by_cases hkey : YamlMap.Castable key
      · rw [Call.bind_of_ok (getKey_of_castable hkey result)]
        exact ih (fun hrest => hm ⟨hkey, hrest⟩) keyStr _
      · exact hcast hkey _ result
  | null key rest =>
      rw [forEachYaml]
      by_cases hkey : YamlMap.Castable key
      · rw [Call.bind_of_ok (getKey_of_castable hkey result)]
        exact ⟨_, _, rfl⟩
      · exact hcast hkey _ result
  | map key val rest ihval ihrest =>
      rw [forEachYaml]
      by_cases hkey : YamlMap.Castable key
      · rw [Call.bind_of_ok (getKey_of_castable hkey result)]
        by_cases hval : val.Plain
        · rw [Call.bind_of_ok (forEachYaml_eq_flat hval _ result)]
          exact ihrest (fun hrest => hm ⟨hkey, hval, hrest⟩) keyStr _
        · obtain ⟨t, result', hrun⟩ := ihval hval (strNew keyStr key.text) result
          exact ⟨t, result', Call.bind_of_error hrun⟩
      · exact hcast hkey _ result

variable {ρ : Type}

/-- The call has returned a map with every leaf of the document under its dotted path. -/
def KeepsLeaves (doc : Document ρ) : EStateM.Result Throwable Result Result → Prop
  | .ok map _ => ∀ path val, doc.Leaf (doc.entries doc.root) path val →
      map.get (dottedPath path) = some val.toString
  | .error _ _ => False

/-- No two leaves with different texts share a dotted path. -/
def Unambiguous (content : YamlMap) : Prop :=
  ∀ l ∈ content.leaves, ∀ l' ∈ content.leaves,
    dottedPath l.1 = dottedPath l'.1 → l.2.toString = l'.2.toString

theorem keepsLeaves_iff_of_unfolds {doc : Document ρ} {content : YamlMap}
    (hunfolds : doc.Unfolds (doc.entries doc.root) content) {depth : ℕ}
    (hdepth : content.height ≤ depth) :
    KeepsLeaves doc (doc.run depth none (doc.entries doc.root) LinkedHashMap.empty) ↔
      content.Plain ∧ Unambiguous content := by
  rw [Document.run_eq_of_unfolds hunfolds hdepth]
  by_cases hplain : content.Plain
  · rw [forEachYaml_eq_flat hplain, KeepsLeaves, and_iff_right hplain, YamlMap.flat_none]
    simp only [Document.leaf_iff_of_unfolds hunfolds]
    have hget := LinkedHashMap.forall_get_putAll_iff (m := LinkedHashMap.empty)
      (l := content.leaves.map fun l => (dottedPath l.1, l.2.toString))
    simp only [List.forall_mem_map] at hget
    exact Prod.forall.symm.trans hget
  · obtain ⟨t, result', hrun⟩ := forEachYaml_of_not_plain hplain none LinkedHashMap.empty
    rw [hrun]
    exact iff_of_false id fun h => hplain h.1

variable {doc : Document ρ} {loadAs : String → Except Throwable (Option (Document ρ))}

/-- `getYmlByFileName` keeps every leaf, given enough stack, if and only if no alias leads back to a
map above it, every value that is no map has a text, none is null, every key is a string or null,
and no two leaves get in each other's way. -/
theorem keepsLeaves_iff {file : Option String}
    (hload : loadAs (file.getD bootstrapFile) = .ok (some doc)) (before : Result) :
    (∃ enough, ∀ depth, enough ≤ depth →
        KeepsLeaves doc (Document.getYmlByFileName loadAs depth file before)) ↔
      ∃ content, doc.Unfolds (doc.entries doc.root) content ∧ content.Plain ∧
        Unambiguous content := by
  simp only [Document.getYmlByFileName_of_load hload]
  constructor
  · rintro ⟨enough, hkeeps⟩
    have hunfolds : ∃ content, doc.Unfolds (doc.entries doc.root) content := by
      have hreturned := hkeeps enough (Nat.le_refl enough)
      cases hrun : doc.run enough none (doc.entries doc.root) LinkedHashMap.empty with
      | ok map result => exact Document.exists_unfolds_of_run hrun
      | error t result =>
          rw [hrun] at hreturned
          exact hreturned.elim
    obtain ⟨content, hunfolds⟩ := hunfolds
    have hdeep := hkeeps (max enough content.height) (Nat.le_max_left _ _)
    exact ⟨content, hunfolds,
      (keepsLeaves_iff_of_unfolds hunfolds (Nat.le_max_right _ _)).mp hdeep⟩
  · rintro ⟨content, hunfolds, hcontent⟩
    exact ⟨content.height, fun depth hdepth =>
      (keepsLeaves_iff_of_unfolds hunfolds hdepth).mpr hcontent⟩

/-- The settings of `spring.redis`, with an empty password. -/
def redis : Document ℕ where
  entries
    | 0 => [(name "spring", .map 1)]
    | 1 => [(name "redis", .map 2)]
    | _ => [(name "host", .leaf (.string "127.0.0.1")), (name "port", .leaf (.other "6379")),
        (name "password", .null)]
  root := 0

theorem keepsLeaves_iff_of_redis :
    (∃ enough, ∀ depth, enough ≤ depth → KeepsLeaves redis
        (Document.getYmlByFileName (fun _ => .ok (some redis)) depth none LinkedHashMap.empty)) ↔
      ∃ content, redis.Unfolds (redis.entries redis.root) content ∧ content.Plain ∧
        Unambiguous content :=
  keepsLeaves_iff rfl LinkedHashMap.empty

/-- The empty password hides the host and the port. -/
theorem not_keepsLeaves_of_redis :
    redis.Leaf (redis.entries redis.root) [name "spring", name "redis", name "host"]
        (.string "127.0.0.1") ∧
      (∀ depth, ∃ result, Document.getYmlByFileName (fun _ => .ok (some redis)) (depth + 2) none
        LinkedHashMap.empty = .error .nullPointer result) ∧
      ∀ depth, ¬KeepsLeaves redis
        (Document.getYmlByFileName (fun _ => .ok (some redis)) depth none LinkedHashMap.empty) := by
  refine ⟨?_, fun depth => ⟨_, rfl⟩, fun depth => ?_⟩
  · exact .inside (.head _) (.inside (.head _) (.here (.head _)))
  · match depth with
    | 0 => exact id
    | 1 => exact id
    | depth + 2 => exact id

end HelloBoot.YmlUtil
