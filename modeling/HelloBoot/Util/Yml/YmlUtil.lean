import HelloBoot.Java.Call
import HelloBoot.Java.LinkedHashMap
import HelloBoot.Java.Objects

/-!
# `YmlUtil`

A parsed file is a tree of maps. The methods walk it and put one entry for each leaf
into the static map `result`, under a key that grows by a dot and the next key at each
level. `getYmlByFileName` walks the top level with a loop of its own.
-/

namespace HelloBoot.YmlUtil

/-- A key as the parser makes it: a string, null, or another object, such as a number. -/
abbrev Key := Option Obj

/-- The entries of a map in their order. The value of an entry is a map, null, or any
other object. -/
inductive YamlMap where
  | nil
  | leaf (key : Key) (val : Obj) (rest : YamlMap)
  | null (key : Key) (rest : YamlMap)
  | map (key : Key) (val : YamlMap) (rest : YamlMap)

abbrev Result := LinkedHashMap (Option String) String

abbrev Yml := EStateM Throwable Result

def getKey (key : Key) : Yml (Option String) := Call.ofExcept (Obj.castString key)

/-- The key of an entry below `keyStr`. -/
def strNew (keyStr key : Option String) : Option String :=
  match keyStr with
  | some s => if s ≠ "" then some (s ++ "." ++ key.getD "null") else key
  | none => key

def forEachYaml (keyStr : Option String) : YamlMap → Yml Result
  | .nil => get
  | .leaf key val rest => do
      let key ← getKey key
      modify fun result => result.put (strNew keyStr key) val.toString
      forEachYaml keyStr rest
  | .null key _ => do
      let _ ← getKey key
      -- val.toString()
      throw .nullPointer
  | .map key val rest => do
      let key ← getKey key
      let _ ← forEachYaml (strNew keyStr key) val
      forEachYaml keyStr rest

/-- The loop of `getYmlByFileName` over the top level. -/
def forEachTop : YamlMap → Yml Result
  | .nil => get
  | .leaf key val rest => do
      let key ← getKey key
      modify fun result => result.put key val.toString
      forEachTop rest
  | .null key _ => do
      let _ ← getKey key
      throw .nullPointer
  | .map key val rest => do
      let key ← getKey key
      let _ ← forEachYaml key val
      forEachTop rest

def bootstrapFile : String := "application.yml"

section Files

-- how the class path and the parser answer for a file; an empty document is null
variable (loadAs : String → Except Throwable (Option YamlMap))

def getYmlByFileName (file : Option String) : Yml Result := do
  set (LinkedHashMap.empty : Result)
  match loadAs (file.getD bootstrapFile) with
  | .error t => throw t
  | .ok none => throw .nullPointer
  | .ok (some param) => forEachTop param

def getValue (key : String) : Yml (Option String) := do
  let map ← getYmlByFileName loadAs none
  return map.get (some (trim key))

end Files

def Key.text (key : Key) : Option String := key.map Obj.toString

namespace YamlMap

def keys : YamlMap → List Key
  | nil => []
  | leaf key _ rest | null key rest | map key _ rest => key :: rest.keys

/-- A string that is not empty and holds no dot. -/
def IsName (key : Key) : Prop := ∃ s, key = some (.string s) ∧ s ≠ "" ∧ '.' ∉ s.toList

/-- The keys of every map are distinct names, and nothing is null. -/
def WellFormed : YamlMap → Prop
  | nil => True
  | leaf key _ rest => IsName key ∧ key ∉ rest.keys ∧ rest.WellFormed
  | null _ _ => False
  | map key val rest => IsName key ∧ key ∉ rest.keys ∧ val.WellFormed ∧ rest.WellFormed

/-- The leaves below a map, with the keys on the way to them. -/
def leaves : YamlMap → List (List Key × Obj)
  | nil => []
  | leaf key val rest => ([key], val) :: rest.leaves
  | null _ rest => rest.leaves
  | map key val rest => val.leaves.map (fun l => (key :: l.1, l.2)) ++ rest.leaves

/-- The entries that a call of `forEachYaml` with `keyStr` puts, in their order. -/
def flat (keyStr : Option String) : YamlMap → List (Option String × String)
  | nil => []
  | leaf key val rest => (strNew keyStr key.text, val.toString) :: rest.flat keyStr
  | null _ rest => rest.flat keyStr
  | map key val rest => val.flat (strNew keyStr key.text) ++ rest.flat keyStr

def Castable (key : Key) : Prop := Obj.castString key = .ok key.text

/-- No value below a map is null, and every key is a string or null. -/
def Plain : YamlMap → Prop
  | nil => True
  | leaf key _ rest => Castable key ∧ rest.Plain
  | null _ _ => False
  | map key val rest => Castable key ∧ val.Plain ∧ rest.Plain

def walk : YamlMap → List Key → Option Obj
  | nil, _ | _, [] => none
  | leaf key val rest, k :: ks =>
      if k = key then (if ks = [] then some val else none) else rest.walk (k :: ks)
  | null key rest, k :: ks => if k = key then none else rest.walk (k :: ks)
  | map key val rest, k :: ks => if k = key then val.walk ks else rest.walk (k :: ks)

end YamlMap

def join (path : List Key) : String := ".".intercalate (path.map Obj.valueOf)

def split (path : String) : List Key :=
  (path.toList.splitOn '.').map fun part => some (.string (String.ofList part))

def entry (l : List Key × Obj) : Option String × String := (some (join l.1), l.2.toString)

end HelloBoot.YmlUtil
