import HelloBoot.Java.Call
import HelloBoot.Util.Yml.YmlUtil

/-!
# Flattening a tree of maps

The loops put the leaves in preorder (`forEachYaml_eq_flat`), each under its path joined
by dots (`YamlMap.WellFormed.flat_eq`). Keys that are not empty and hold no dot can be
read back from the joined path (`split_join`), so different leaves get different keys,
and looking a path up is walking along its keys (`get_eq_walk`).
-/

namespace HelloBoot.YmlUtil

section Join

theorem toList_join (path : List Key) :
    (join path).toList = ['.'].intercalate (path.map fun key => (Obj.valueOf key).toList) := by
  rw [join, String.toList_intercalate, List.map_map]
  rfl

theorem YamlMap.IsName.ne_empty {key : Key} (h : YamlMap.IsName key) : Obj.valueOf key ≠ "" := by
  obtain ⟨s, rfl, hempty, -⟩ := h
  exact hempty

theorem YamlMap.IsName.castable {key : Key} (h : YamlMap.IsName key) : YamlMap.Castable key := by
  obtain ⟨s, rfl, -⟩ := h
  rfl

/-- Names can be read back. -/
theorem split_join {path : List Key} (hne : path ≠ []) (hname : ∀ k ∈ path, YamlMap.IsName k) :
    split (join path) = path := by
  rw [split, toList_join, List.splitOn_intercalate '.' ?_ (by simpa using hne), List.map_map]
  · conv_rhs => rw [← List.map_id path]
    refine List.map_congr_left fun key hkey => ?_
    obtain ⟨s, rfl, -⟩ := hname key hkey
    exact congrArg (fun s => some (Obj.string s)) String.ofList_toList
  · intro part hpart
    obtain ⟨key, hkey, rfl⟩ := List.mem_map.mp hpart
    obtain ⟨s, rfl, -, hdot⟩ := hname key hkey
    exact hdot

theorem join_split (path : String) : join (split path) = path := by
  rw [← String.toList_inj, toList_join, split, List.map_map]
  simp [Function.comp_def, Obj.valueOf, Obj.toString]

theorem join_eq_iff {path : List Key} (hne : path ≠ []) (hname : ∀ k ∈ path, YamlMap.IsName k)
    {s : String} : join path = s ↔ path = split s :=
  ⟨fun h => h ▸ (split_join hne hname).symm, fun h => h ▸ join_split s⟩

theorem join_concat {path : List Key} (hne : path ≠ []) (key : Key) :
    join (path ++ [key]) = join path ++ "." ++ Obj.valueOf key := by
  rw [join, List.map_append, String.intercalate_append_of_ne_nil (by simpa using hne) (by simp),
    List.map_singleton, String.intercalate_singleton, join]

theorem join_ne_empty {path : List Key} (hne : path ≠ []) (hempty : ∀ k ∈ path, Obj.valueOf k ≠ "") :
    join path ≠ "" := by
  obtain ⟨k, ks, rfl⟩ := List.exists_cons_of_ne_nil hne
  have hk : (Obj.valueOf k).toList ≠ [] := by simpa using hempty k (.head ks)
  rw [← String.toList_inj.ne, toList_join]
  cases ks with
  | nil => simpa using hk
  | cons l ks => simp [hk]

end Join

/-- The argument `keyStr` with which a call for the maps below a path is made. -/
def keyStrOf (path : List Key) : Option String := if path = [] then none else some (join path)

theorem strNew_keyStrOf {path : List Key} (hempty : ∀ k ∈ path, Obj.valueOf k ≠ "") {key : Key}
    (hkey : YamlMap.IsName key) : strNew (keyStrOf path) key.text = some (join (path ++ [key])) := by
  obtain ⟨s, rfl, -⟩ := hkey
  by_cases hne : path = []
  · subst hne
    exact congrArg some String.intercalate_singleton.symm
  · rw [keyStrOf, if_neg hne, join_concat hne, strNew, if_pos (join_ne_empty hne hempty)]
    rfl

namespace YamlMap

variable {m : YamlMap}

theorem mem_keys_of_mem_leaves {l : List Key × Obj} (h : l ∈ m.leaves) :
    ∃ k ∈ m.keys, ∃ ks, l.1 = k :: ks := by
  induction m with
  | nil => cases h
  | leaf key val rest ih =>
      rcases List.mem_cons.mp h with rfl | h
      · exact ⟨key, .head _, [], rfl⟩
      · exact (ih h).imp fun k hk => ⟨.tail key hk.1, hk.2⟩
  | null key rest ih => exact (ih h).imp fun k hk => ⟨.tail key hk.1, hk.2⟩
  | map key val rest _ ih =>
      rcases List.mem_append.mp h with h | h
      · obtain ⟨l', -, rfl⟩ := List.mem_map.mp h
        exact ⟨key, .head _, l'.1, rfl⟩
      · exact (ih h).imp fun k hk => ⟨.tail key hk.1, hk.2⟩

theorem notMem_leaves {key : Key} (h : key ∉ m.keys) (ks : List Key) (val : Obj) :
    (key :: ks, val) ∉ m.leaves := by
  intro hmem
  obtain ⟨k, hk, ks', hks⟩ := mem_keys_of_mem_leaves hmem
  cases hks
  exact h hk

theorem walk_nil : m.walk [] = none := by
  cases m <;> rfl

theorem nil_notMem_leaves (val : Obj) : ([], val) ∉ m.leaves := by
  intro hmem
  obtain ⟨k, -, ks, hks⟩ := mem_keys_of_mem_leaves hmem
  cases hks

theorem WellFormed.of_mem_leaves (hm : m.WellFormed) {l : List Key × Obj} (h : l ∈ m.leaves) :
    l.1 ≠ [] ∧ ∀ k ∈ l.1, IsName k := by
  induction m generalizing l with
  | nil => cases h
  | leaf key val rest ih =>
      obtain ⟨hname, -, hrest⟩ := hm
      rcases List.mem_cons.mp h with rfl | h
      · simpa using hname
      · exact ih hrest h
  | null key rest => exact hm.elim
  | map key val rest ihval ihrest =>
      obtain ⟨hname, -, hval, hrest⟩ := hm
      rcases List.mem_append.mp h with h | h
      · obtain ⟨l', hl', rfl⟩ := List.mem_map.mp h
        exact ⟨by simp, List.forall_mem_cons.mpr ⟨hname, (ihval hval hl').2⟩⟩
      · exact ihrest hrest h

theorem WellFormed.nodup_leaves (hm : m.WellFormed) : (m.leaves.map Prod.fst).Nodup := by
  induction m with
  | nil => exact List.nodup_nil
  | leaf key val rest ih =>
      obtain ⟨-, hnew, hrest⟩ := hm
      refine List.nodup_cons.mpr ⟨fun hmem => ?_, ih hrest⟩
      obtain ⟨⟨path, v⟩, hl, rfl⟩ := List.mem_map.mp hmem
      exact notMem_leaves hnew [] v hl
  | null key rest => exact hm.elim
  | map key val rest ihval ihrest =>
      obtain ⟨-, hnew, hval, hrest⟩ := hm
      rw [leaves, List.map_append, List.map_map]
      refine List.nodup_append.mpr ⟨?_, ihrest hrest, ?_⟩
      · have hcons := (ihval hval).map (List.cons_injective (a := key))
        rwa [List.map_map] at hcons
      · rintro _ hleft _ hright rfl
        obtain ⟨l, -, rfl⟩ := List.mem_map.mp hleft
        obtain ⟨⟨path, v⟩, hl', rfl⟩ := List.mem_map.mp hright
        exact notMem_leaves hnew l.1 v hl'

/-- Walking along a path leads to the leaf at its end. -/
theorem WellFormed.walk_eq_some_iff (hm : m.WellFormed) {path : List Key} {val : Obj} :
    m.walk path = some val ↔ (path, val) ∈ m.leaves := by
  induction m generalizing path with
  | nil => simp [walk, leaves]
  | leaf key v rest ih =>
      obtain ⟨-, hnew, hrest⟩ := hm
      cases path with
      | nil => simp [walk_nil, nil_notMem_leaves]
      | cons k ks =>
          rw [walk, leaves, List.mem_cons]
          split
          case isTrue hk =>
              subst hk
              simp only [notMem_leaves hnew, or_false, Prod.mk.injEq, List.cons.injEq, true_and,
                Option.ite_none_right_eq_some, Option.some.injEq]
              rw [eq_comm (a := v)]
          case isFalse hk => simp [hk, ih hrest]
  | null key rest => exact hm.elim
  | map key v rest ihval ihrest =>
      obtain ⟨-, hnew, hval, hrest⟩ := hm
      cases path with
      | nil => simp [walk_nil, nil_notMem_leaves]
      | cons k ks =>
          rw [walk, leaves, List.mem_append]
          split
          case isTrue hk =>
              subst hk
              simp [notMem_leaves hnew, ihval hval]
          case isFalse hk => simp [ihrest hrest, Ne.symm hk]

def entries (m : YamlMap) : List (Option String × String) := m.leaves.map entry

theorem WellFormed.nodup_entries (hm : m.WellFormed) : (m.entries.map Prod.fst).Nodup := by
  have hmap : m.entries.map Prod.fst = (m.leaves.map Prod.fst).map (some ∘ join) := by
    simp [entries, entry, Function.comp_def]
  rw [hmap]
  refine hm.nodup_leaves.map_on fun path hpath path' hpath' heq => ?_
  obtain ⟨l, hl, rfl⟩ := List.mem_map.mp hpath
  obtain ⟨l', hl', rfl⟩ := List.mem_map.mp hpath'
  obtain ⟨hne, hname⟩ := hm.of_mem_leaves hl
  obtain ⟨hne', hname'⟩ := hm.of_mem_leaves hl'
  rw [(join_eq_iff hne hname).mp (Option.some.inj heq), split_join hne' hname']

end YamlMap

section Loops

variable {m : YamlMap} {result : Result}

theorem YamlMap.WellFormed.plain (hm : m.WellFormed) : m.Plain := by
  induction m with
  | nil => trivial
  | leaf key val rest ih => exact ⟨hm.1.castable, ih hm.2.2⟩
  | null key rest => exact hm.elim
  | map key val rest ihval ihrest => exact ⟨hm.1.castable, ihval hm.2.2.1, ihrest hm.2.2.2⟩

theorem text_of_castString {key : Key} {keyStr : Option String}
    (h : Obj.castString key = .ok keyStr) : keyStr = key.text := by
  cases key with
  | none => exact (Except.ok.inj h).symm
  | some o =>
      cases o with
      | string s => exact (Except.ok.inj h).symm
      | other text => cases h

theorem getKey_of_castable {key : Key} (h : YamlMap.Castable key) (result : Result) :
    getKey key result = .ok key.text result := by
  rw [getKey, show Obj.castString key = .ok key.text from h]
  rfl

/-- A call for a plain map returns after all its entries have been put. -/
theorem forEachYaml_eq_flat (hm : m.Plain) (keyStr : Option String) (result : Result) :
    forEachYaml keyStr m result =
      .ok (result.putAll (m.flat keyStr)) (result.putAll (m.flat keyStr)) := by
  induction m generalizing keyStr result with
  | nil => rfl
  | leaf key val rest ih =>
      rw [forEachYaml, Call.bind_of_ok (getKey_of_castable hm.1 result)]
      exact ih hm.2 keyStr _
  | null key rest => exact hm.elim
  | map key val rest ihval ihrest =>
      rw [forEachYaml, Call.bind_of_ok (getKey_of_castable hm.1 result),
        Call.bind_of_ok (ihval hm.2.1 _ result), ihrest hm.2.2, YamlMap.flat,
        LinkedHashMap.putAll_append]

/-- The entries of a call for the map at the end of `path` are the leaves below it. -/
theorem YamlMap.WellFormed.flat_eq (hm : m.WellFormed) (path : List Key)
    (hpath : ∀ k ∈ path, Obj.valueOf k ≠ "") :
    m.flat (keyStrOf path) = m.leaves.map fun l => entry (path ++ l.1, l.2) := by
  induction m generalizing path with
  | nil => rfl
  | leaf key val rest ih =>
      rw [flat, ih hm.2.2 path hpath, strNew_keyStrOf hpath hm.1]
      rfl
  | null key rest => exact hm.elim
  | map key val rest ihval ihrest =>
      obtain ⟨hname, -, hval, hrest⟩ := hm
      have hbelow := ihval hval (path ++ [key])
        (by simpa [or_imp, forall_and] using ⟨hpath, hname.ne_empty⟩)
      rw [keyStrOf, if_neg (by simp), ← strNew_keyStrOf hpath hname] at hbelow
      rw [flat, hbelow, ihrest hrest path hpath, leaves, List.map_append]
      simp [Function.comp_def]

theorem YamlMap.WellFormed.flat_none (hm : m.WellFormed) : m.flat none = m.entries :=
  hm.flat_eq [] nofun

/-- The loop of `getYmlByFileName` does what `forEachYaml` does without `keyStr`. -/
theorem forEachTop_eq (m : YamlMap) : forEachTop m = forEachYaml none m := by
  induction m with
  | nil | null key rest => rfl
  | leaf key val rest ih => rw [forEachTop, ih, forEachYaml]; rfl
  | map key val rest _ ih => rw [forEachTop, ih, forEachYaml]; rfl

/-- On an empty map the loop leaves one entry for every leaf. -/
theorem forEachYaml_empty (hm : m.WellFormed) :
    ∃ result : Result, forEachYaml none m LinkedHashMap.empty = .ok result result ∧
      result.entries = m.entries := by
  refine ⟨_, forEachYaml_eq_flat hm.plain none _, ?_⟩
  rw [hm.flat_none, LinkedHashMap.entries_putAll hm.nodup_entries fun _ _ => List.not_mem_nil]
  rfl

/-- Looking up a key is walking along its parts. -/
theorem get_eq_walk (hm : m.WellFormed) (hresult : result.entries = m.entries) (key : String) :
    result.get (some key) = (m.walk (split key)).map Obj.toString := by
  refine Option.ext fun text => ?_
  rw [LinkedHashMap.get_eq_some_iff, hresult, YamlMap.entries, List.mem_map, Option.map_eq_some_iff]
  constructor
  · rintro ⟨l, hl, heq⟩
    obtain ⟨hne, hname⟩ := hm.of_mem_leaves hl
    obtain ⟨hkey, htext⟩ := Prod.mk.inj heq
    refine ⟨l.2, hm.walk_eq_some_iff.mpr ?_, htext⟩
    rwa [← (join_eq_iff hne hname).mp (Option.some.inj hkey)]
  · rintro ⟨val, hwalk, rfl⟩
    exact ⟨(split key, val), hm.walk_eq_some_iff.mp hwalk, by rw [entry, join_split]⟩

end Loops

section Files

variable {loadAs : String → Except Throwable (Option YamlMap)} {content : YamlMap}

theorem getYmlByFileName_of_load (file : Option String)
    (hload : loadAs (file.getD bootstrapFile) = .ok (some content)) (result : Result) :
    getYmlByFileName loadAs file result = forEachYaml none content LinkedHashMap.empty := by
  rw [← forEachTop_eq, getYmlByFileName, hload]
  rfl

/-- The map for a file has exactly one entry for every leaf; `getValue` walks along the
trimmed path; and `forEachYaml` without `keyStr` makes the same map. -/
theorem getYmlByFileName_exact (hm : content.WellFormed) {file : Option String}
    (hload : loadAs (file.getD bootstrapFile) = .ok (some content)) (before : Result) :
    ∃ result, getYmlByFileName loadAs file before = .ok result result ∧
      result.entries.Perm (content.leaves.map fun l => (some (join l.1), l.2.toString)) ∧
      (file.getD bootstrapFile = bootstrapFile → ∀ path, getValue loadAs path before =
        .ok ((content.walk (split (trim path))).map Obj.toString) result) ∧
      forEachYaml none content LinkedHashMap.empty = .ok result result := by
  obtain ⟨result, hrun, hentries⟩ := forEachYaml_empty hm
  refine ⟨result, (getYmlByFileName_of_load file hload before).trans hrun, ?_, ?_, hrun⟩
  · exact List.Perm.of_eq hentries
  · intro hfile path
    rw [hfile] at hload
    have hget := (getYmlByFileName_of_load none hload before).trans hrun
    rw [getValue, Call.bind_of_ok hget, ← get_eq_walk hm hentries]
    rfl

def name (s : String) : Key := some (.string s)

def sample : YamlMap :=
  .map (name "spring") (.leaf (name "port") (.other "8080") .nil) (.leaf (name "a") (.string "b") .nil)

theorem getYmlByFileName_exact_sample :
    ∃ result, getYmlByFileName (fun _ => .ok (some sample)) none LinkedHashMap.empty =
        .ok result result ∧
      result.entries.Perm (sample.leaves.map fun l => (some (join l.1), l.2.toString)) ∧
      (Option.getD none bootstrapFile = bootstrapFile → ∀ path,
        getValue (fun _ => .ok (some sample)) path LinkedHashMap.empty =
          .ok ((sample.walk (split (trim path))).map Obj.toString) result) ∧
      forEachYaml none sample LinkedHashMap.empty = .ok result result :=
  getYmlByFileName_exact (by simp [sample, name, YamlMap.WellFormed, YamlMap.keys, YamlMap.IsName])
    rfl LinkedHashMap.empty

/-- A path that begins with a space, as the key does that it leads along. -/
theorem getValue_ne_walk_of_space :
    (YamlMap.leaf (name " a") (.string "1") .nil).WellFormed ∧
      (YamlMap.leaf (name " a") (.string "1") .nil).walk (split " a") = some (.string "1") ∧
      ∃ result, getValue (fun _ => .ok (some (.leaf (name " a") (.string "1") .nil))) " a"
        LinkedHashMap.empty = .ok none result :=
  ⟨by simp [name, YamlMap.WellFormed, YamlMap.keys, YamlMap.IsName], by decide, _, rfl⟩

end Files

end HelloBoot.YmlUtil
