import HelloBoot.Thrift.TBinaryProtocol
import HelloBoot.Thrift.UserInfo
import Mathlib.Tactic.SplitIfs

/-!
# What the schemes of `UserInfo` carry over

The standard scheme reads from any fields the last value of each field that has the field's id
and type, and passes over the others (`takes_read`). So a reader that is older or newer than its
peer, or that gets the fields in another order, loses nothing that it knows of. It marks every
number that it reads, and since the writer writes `id`, `age` and `workYear` in any case, they are
marked when they arrive (`received`).

The tuple scheme writes only what is marked, and the marks arrive as they are, but a number
without a mark arrives as the constructor leaves it (`receivedTuple`).
-/

namespace HelloBoot.Thrift

open Wire

namespace UserInfo

def Carried (Carries : String → Prop) (struct : UserInfo) : Prop :=
  (∀ s ∈ struct.username, Carries s) ∧ ∀ s ∈ struct.password, Carries s

/-! ### Any fields -/

section Merge

variable {β : Type}

def assign (struct : UserInfo) (f : SentField β) : UserInfo :=
  if f.id = 1 then (f.value.as? .i64).elim struct struct.setId
  else if f.id = 2 then (f.value.as? .string).elim struct fun s => struct.setUsername (some s)
  else if f.id = 3 then (f.value.as? .string).elim struct fun s => struct.setPassword (some s)
  else if f.id = 4 then (f.value.as? .byte).elim struct struct.setAge
  else if f.id = 5 then (f.value.as? .byte).elim struct struct.setSex
  else if f.id = 6 then (f.value.as? .byte).elim struct struct.setWorkYear
  else struct

/-- The value of the field `id`, where it is of the type `k`. -/
def sentIn (id : Int16) (k : Scalar) (f : SentField β) : Option k.Value :=
  if f.id = id then f.value.as? k else none

/-- The values that are sent for the field `id` with the type `k`. -/
def sent (id : Int16) (k : Scalar) (fields : List (SentField β)) : List k.Value :=
  fields.filterMap (sentIn id k)

/-- The struct with the last value that is sent for each field. -/
def merge (struct : UserInfo) (fields : List (SentField β)) : UserInfo where
  isset :=
    { id := struct.isset.id || !(sent 1 .i64 fields).isEmpty
      age := struct.isset.age || !(sent 4 .byte fields).isEmpty
      sex := struct.isset.sex || !(sent 5 .byte fields).isEmpty
      workYear := struct.isset.workYear || !(sent 6 .byte fields).isEmpty }
  id := (sent 1 .i64 fields).getLastD struct.id
  username := ((sent 2 .string fields).map some).getLastD struct.username
  password := ((sent 3 .string fields).map some).getLastD struct.password
  age := (sent 4 .byte fields).getLastD struct.age
  sex := (sent 5 .byte fields).getLastD struct.sex
  workYear := (sent 6 .byte fields).getLastD struct.workYear

theorem sent_cons_of_ne {id : Int16} {k : Scalar} {f : SentField β} (h : f.id ≠ id)
    (fields : List (SentField β)) : sent id k (f :: fields) = sent id k fields :=
  List.filterMap_cons_none (if_neg h)

theorem sent_cons_none {id : Int16} {k : Scalar} {f : SentField β} (h : f.value.as? k = none)
    (fields : List (SentField β)) : sent id k (f :: fields) = sent id k fields :=
  List.filterMap_cons_none (by rw [sentIn, h, ite_self])

theorem sent_cons_some {id : Int16} {k : Scalar} {f : SentField β} {v : k.Value} (hid : f.id = id)
    (h : f.value.as? k = some v) (fields : List (SentField β)) :
    sent id k (f :: fields) = v :: sent id k fields :=
  List.filterMap_cons_some (by rw [sentIn, if_pos hid, h])

theorem merge_assign (struct : UserInfo) (f : SentField β) (fields : List (SentField β)) :
    merge (assign struct f) fields = merge struct (f :: fields) := by
  unfold assign
  split_ifs with h1 h2 h3 h4 h5 h6
  · cases h : f.value.as? .i64 with
    | none => simp [merge, sent_cons_none h, sent_cons_of_ne, h1]
    | some v =>
        simp [merge, sent_cons_some h1 h, sent_cons_of_ne, h1, setId, List.getLast?_cons]
  · cases h : f.value.as? .string with
    | none => simp [merge, sent_cons_none h, sent_cons_of_ne, h2]
    | some s =>
        simp [merge, sent_cons_some h2 h, sent_cons_of_ne, h2, setUsername, List.getLast?_cons]
  · cases h : f.value.as? .string with
    | none => simp [merge, sent_cons_none h, sent_cons_of_ne, h3]
    | some s =>
        simp [merge, sent_cons_some h3 h, sent_cons_of_ne, h3, setPassword, List.getLast?_cons]
  · cases h : f.value.as? .byte with
    | none => simp [merge, sent_cons_none h, sent_cons_of_ne, h4]
    | some v => simp [merge, sent_cons_some h4 h, sent_cons_of_ne, h4, setAge, List.getLast?_cons]
  · cases h : f.value.as? .byte with
    | none => simp [merge, sent_cons_none h, sent_cons_of_ne, h5]
    | some v => simp [merge, sent_cons_some h5 h, sent_cons_of_ne, h5, setSex, List.getLast?_cons]
  · cases h : f.value.as? .byte with
    | none => simp [merge, sent_cons_none h, sent_cons_of_ne, h6]
    | some v =>
        simp [merge, sent_cons_some h6 h, sent_cons_of_ne, h6, setWorkYear, List.getLast?_cons]
  · simp [merge, sent_cons_of_ne, h1, h2, h3, h4, h5, h6]

theorem foldl_assign (struct : UserInfo) (fields : List (SentField β)) :
    fields.foldl assign struct = merge struct fields := by
  induction fields generalizing struct with
  | nil => simp [merge, sent]
  | cons f fields ih => rw [List.foldl_cons, ih, merge_assign]

end Merge

section Read

variable {β : Type} {P : TProtocol β} {Carries : String → Prop}
  {Encodes : Int8 → List β → Prop}

theorem takes_readField (hP : P.Lawful Carries Encodes) {f : SentField β}
    (hf : f.value.Sendable Carries Encodes) (name : String) (struct : UserInfo) :
    (readField P ⟨name, f.value.type, f.id⟩ struct).Takes (f.value.text P)
      (assign struct f) := by
  unfold readField assign
  split_ifs
  · exact hf.takes_readTyped hP _ struct
  · exact hf.takes_readTyped hP _ struct
  · exact hf.takes_readTyped hP _ struct
  · exact hf.takes_readTyped hP _ struct
  · exact hf.takes_readTyped hP _ struct
  · exact hf.takes_readTyped hP _ struct
  · exact (hf.skip hP).map

/-- Any fields that a peer sends are read, whatever their order, their ids and their types. -/
theorem takes_read (hP : P.Lawful Carries Encodes) {fields : List (SentField β)}
    (hsend : ∀ f ∈ fields, f.value.Sendable Carries Encodes) (name : String)
    (struct : UserInfo) :
    (read P struct).Takes (structText P name fields) (merge struct fields) := by
  rw [← foldl_assign]
  exact StandardScheme.takes_read hP (fun f hf => (hsend f hf).type_ne_stop)
    (fun f hf name struct => takes_readField hP (hsend f hf) name struct) name struct

def known (f : SentField β) : Bool :=
  (sentIn 1 .i64 f).isSome || (sentIn 2 .string f).isSome || (sentIn 3 .string f).isSome ||
    (sentIn 4 .byte f).isSome || (sentIn 5 .byte f).isSome || (sentIn 6 .byte f).isSome

/-- What a new struct is after reading what `write` has written. -/
def received (struct : UserInfo) : UserInfo where
  isset := ⟨true, true, struct.isset.sex, true⟩
  id := struct.id
  username := struct.username
  password := struct.password
  age := struct.age
  sex := struct.sex?.getD 0
  workYear := struct.workYear

def writtenFields (struct : UserInfo) : List (SentField β) :=
  [⟨"id", 1, .scalar .i64 struct.id⟩] ++
  struct.username.toList.map (fun s => ⟨"username", 2, .scalar .string s⟩) ++
  struct.password.toList.map (fun s => ⟨"password", 3, .scalar .string s⟩) ++
  [⟨"age", 4, .scalar .byte struct.age⟩] ++
  struct.sex?.toList.map (fun v => ⟨"sex", 5, .scalar .byte v⟩) ++
  [⟨"workYear", 6, .scalar .byte struct.workYear⟩]

theorem writeOptional_eq {α : Type} (field : TField) (text : α → List β) (value : Option α) :
    writeOptional P field text value =
      value.toList.flatMap fun v => P.writeField field (text v) := by
  cases value with
  | none => rfl
  | some v => exact (List.append_nil _).symm

theorem write_eq_structText (struct : UserInfo) :
    write P struct = structText P "UserInfo" struct.writtenFields := by
  simp [write, structText, writtenFields, writeOptional_eq, SentField.text, List.flatMap_map,
    TValue.type, TValue.text, Scalar.type, TProtocol.write]

theorem sendable_writtenFields {struct : UserInfo} (h : struct.Carried Carries) :
    ∀ f ∈ struct.writtenFields, f.value.Sendable Carries Encodes := by
  simp only [writtenFields, List.forall_mem_append, List.forall_mem_singleton, List.forall_mem_map]
  refine ⟨⟨⟨⟨⟨trivial, ?_⟩, ?_⟩, trivial⟩, ?_⟩, trivial⟩
  · exact fun s hs => h.1 s (Option.mem_toList.mp hs)
  · exact fun s hs => h.2 s (Option.mem_toList.mp hs)
  · exact fun v _ => trivial

theorem merge_writtenFields (struct : UserInfo) :
    merge {} (struct.writtenFields (β := β)) = struct.received := by
  obtain ⟨⟨hid, hage, hsex, hworkYear⟩, id, username, password, age, sex, workYear⟩ := struct
  cases username <;> cases password <;> cases hsex <;> rfl

theorem takes_write (hP : P.Lawful Carries Encodes) {struct : UserInfo}
    (h : struct.Carried Carries) :
    (read P {}).Takes (write P struct) struct.received := by
  rw [write_eq_structText, ← merge_writtenFields (β := β)]
  exact takes_read hP (sendable_writtenFields h) "UserInfo" {}

theorem write_received (struct : UserInfo) : write P struct.received = write P struct := by
  obtain ⟨⟨hid, hage, hsex, hworkYear⟩, id, username, password, age, sex, workYear⟩ := struct
  cases hsex <;> rfl

end Read

/-! ### The tuple scheme -/

section Tuple

variable {β : Type} {P : TTupleProtocol β} {Carries : String → Prop}

/-- What a new struct is after reading what `writeTuple` has written. -/
def receivedTuple (struct : UserInfo) : UserInfo where
  isset := struct.isset
  id := struct.id?.getD 0
  username := struct.username
  password := struct.password
  age := struct.age?.getD 0
  sex := struct.sex?.getD 0
  workYear := struct.workYear?.getD 18

theorem takes_readIfSet {α : Type} {r : Reader β TException α} {text : α → List β}
    {value : Option α} (h : ∀ v ∈ value, r.Takes (text v) v) (set : α → UserInfo)
    (struct : UserInfo) :
    (readIfSet value.isSome r set struct).Takes (writeIfSet text value)
      (value.elim struct set) := by
  cases value with
  | none => exact Reader.takes_pure struct
  | some v => exact (h v rfl).map

theorem elim_receivedTuple (struct : UserInfo) :
    (let s₁ := struct.id?.elim {} (setId {})
    let s₂ := struct.username.elim s₁ fun s => s₁.setUsername (some s)
    let s₃ := struct.password.elim s₂ fun s => s₂.setPassword (some s)
    let s₄ := struct.age?.elim s₃ s₃.setAge
    let s₅ := struct.sex?.elim s₄ s₄.setSex
    struct.workYear?.elim s₅ s₅.setWorkYear) = struct.receivedTuple := by
  obtain ⟨⟨hid, hage, hsex, hworkYear⟩, id, username, password, age, sex, workYear⟩ := struct
  cases hid <;> cases username <;> cases password <;> cases hage <;> cases hsex <;>
    cases hworkYear <;> rfl

theorem takes_writeTuple (hP : P.Lawful Carries) {struct : UserInfo} (h : struct.Carried Carries) :
    (readTuple P {}).Takes (writeTuple P struct) struct.receivedTuple := by
  rw [← elim_receivedTuple]
  simp only [writeTuple, List.append_assoc]
  refine Reader.Takes.bind (r := P.readBitSet 6) (hP.readBitSet [struct.id?.isSome,
    struct.username.isSome, struct.password.isSome, struct.age?.isSome, struct.sex?.isSome,
    struct.workYear?.isSome]) ?_
  refine (takes_readIfSet (fun v _ => hP.readI64 v) _ _).bind ?_
  refine (takes_readIfSet (fun s hs => hP.readString s (h.1 s hs)) _ _).bind ?_
  refine (takes_readIfSet (fun s hs => hP.readString s (h.2 s hs)) _ _).bind ?_
  refine (takes_readIfSet (fun v _ => hP.readByte v) _ _).bind ?_
  refine (takes_readIfSet (fun v _ => hP.readByte v) _ _).bind ?_
  exact takes_readIfSet (fun v _ => hP.readByte v) _ _

/-- What has been read is written as the text that it was read from. -/
theorem writeTuple_receivedTuple (struct : UserInfo) :
    writeTuple P struct.receivedTuple = writeTuple P struct := by
  obtain ⟨⟨hid, hage, hsex, hworkYear⟩, id, username, password, age, sex, workYear⟩ := struct
  cases hid <;> cases hage <;> cases hsex <;> cases hworkYear <;> rfl

end Tuple

end UserInfo

end HelloBoot.Thrift
