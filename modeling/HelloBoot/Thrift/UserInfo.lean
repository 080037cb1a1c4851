import HelloBoot.Thrift.TProtocol

/-!
# The struct `UserInfo`

The struct that `HelloService` returns, as the Thrift compiler has generated it: a field has a
value, and a mark that says whether it has been set. For the strings the mark is that they are
not null; for the numbers it is a bit of `__isset_bitfield`, so a number has a value also where
it is not set.

`equals` and `hashCode` ask for the mark of `sex` only, `compareTo` and the tuple scheme for all
the marks. What the protocol and `TBaseHelper` do is a parameter.
-/

namespace HelloBoot.Thrift

open Wire

@[ext] structure IsSetBits where
  id : Bool := false
  age : Bool := false
  sex : Bool := false
  workYear : Bool := false
  deriving DecidableEq

/-- `UserInfo`, with `none` for null. The defaults are what the constructor leaves. -/
structure UserInfo where
  isset : IsSetBits := {}
  id : Int64 := 0
  username : Option String := none
  password : Option String := none
  age : Int8 := 0
  sex : Int8 := 0
  workYear : Int8 := 18
  deriving DecidableEq

namespace UserInfo

/-! ### The fields -/

section Fields

variable (struct : UserInfo)

def setId (id : Int64) : UserInfo :=
  { struct with id := id, isset.id := true }

def setUsername (username : Option String) : UserInfo := { struct with username := username }

def setPassword (password : Option String) : UserInfo := { struct with password := password }

def setAge (age : Int8) : UserInfo :=
  { struct with age := age, isset.age := true }

def setSex (sex : Int8) : UserInfo :=
  { struct with sex := sex, isset.sex := true }

def setWorkYear (workYear : Int8) : UserInfo :=
  { struct with workYear := workYear, isset.workYear := true }

/-- The number, where it is set. -/
def id? : Option Int64 := if struct.isset.id then some struct.id else none

def age? : Option Int8 := if struct.isset.age then some struct.age else none

def sex? : Option Int8 := if struct.isset.sex then some struct.sex else none

def workYear? : Option Int8 := if struct.isset.workYear then some struct.workYear else none

end Fields

/-! ### The standard scheme -/

section StandardScheme

variable {β : Type} (P : TProtocol β)

/-- The switch of `UserInfoStandardScheme.read`. -/
def readField (schemeField : TField) (struct : UserInfo) : Reader β TException UserInfo :=
  if schemeField.id = 1 then P.readTyped .i64 struct.setId schemeField.type struct
  else if schemeField.id = 2 then
    P.readTyped .string (fun s => struct.setUsername (some s)) schemeField.type struct
  else if schemeField.id = 3 then
    P.readTyped .string (fun s => struct.setPassword (some s)) schemeField.type struct
  else if schemeField.id = 4 then P.readTyped .byte struct.setAge schemeField.type struct
  else if schemeField.id = 5 then P.readTyped .byte struct.setSex schemeField.type struct
  else if schemeField.id = 6 then P.readTyped .byte struct.setWorkYear schemeField.type struct
  else P.skip schemeField.type >>= fun _ => pure struct

def read (struct : UserInfo) : Reader β TException UserInfo :=
  StandardScheme.read P (readField P) struct

/-- A field that is written only if it has a value. -/
def writeOptional {α : Type} (field : TField) (text : α → List β) : Option α → List β
  | some value => P.writeField field (text value)
  | none => []

def write (struct : UserInfo) : List β :=
  P.writeStructBegin "UserInfo" ++
  P.writeField ⟨"id", TType.i64, 1⟩ (P.writeI64 struct.id) ++
  writeOptional P ⟨"username", TType.string, 2⟩ P.writeString struct.username ++
  writeOptional P ⟨"password", TType.string, 3⟩ P.writeString struct.password ++
  P.writeField ⟨"age", TType.byte, 4⟩ (P.writeByte struct.age) ++
  writeOptional P ⟨"sex", TType.byte, 5⟩ P.writeByte struct.sex? ++
  P.writeField ⟨"workYear", TType.byte, 6⟩ (P.writeByte struct.workYear) ++
  P.writeFieldStop ++
  P.writeStructEnd

end StandardScheme

/-! ### The tuple scheme -/

section TupleScheme

variable {β : Type} (P : TTupleProtocol β)

/-- A value that is written only if it is set. -/
def writeIfSet {α : Type} (text : α → List β) : Option α → List β
  | some value => text value
  | none => []

def writeTuple (struct : UserInfo) : List β :=
  P.writeBitSet [struct.id?.isSome, struct.username.isSome, struct.password.isSome,
    struct.age?.isSome, struct.sex?.isSome, struct.workYear?.isSome] ++
  writeIfSet P.writeI64 struct.id? ++
  writeIfSet P.writeString struct.username ++
  writeIfSet P.writeString struct.password ++
  writeIfSet P.writeByte struct.age? ++
  writeIfSet P.writeByte struct.sex? ++
  writeIfSet P.writeByte struct.workYear?

/-- `if (incoming.get(i)) { .. }`. -/
def readIfSet {α : Type} (bit : Bool) (r : Reader β TException α) (set : α → UserInfo)
    (struct : UserInfo) : Reader β TException UserInfo :=
  if bit then r >>= fun value => pure (set value) else pure struct

def readTuple (struct : UserInfo) : Reader β TException UserInfo := do
  let incoming ← P.readBitSet 6
  let get (i : ℕ) : Bool := incoming.getD i false
  let struct ← readIfSet (get 0) P.readI64 struct.setId struct
  let struct ← readIfSet (get 1) P.readString (fun s => struct.setUsername (some s)) struct
  let struct ← readIfSet (get 2) P.readString (fun s => struct.setPassword (some s)) struct
  let struct ← readIfSet (get 3) P.readByte struct.setAge struct
  let struct ← readIfSet (get 4) P.readByte struct.setSex struct
  readIfSet (get 5) P.readByte struct.setWorkYear struct

end TupleScheme

/-! ### `equals`, `hashCode` and `compareTo` -/

section Equals

/-- `equals` for a field: the values are compared if one of them is present. -/
def equalsField {α : Type} [DecidableEq α] (thisValue thatValue : Option α) : Bool :=
  if thisValue.isSome || thatValue.isSome then
    match thisValue, thatValue with
    | some a, some b => a == b
    | _, _ => false
  else true

/-- `this.equals(that)`, for a `that` that is not null. -/
def equals (this that : UserInfo) : Bool :=
  equalsField (some this.id) (some that.id) &&
  equalsField this.username that.username &&
  equalsField this.password that.password &&
  equalsField (some this.age) (some that.age) &&
  equalsField this.sex? that.sex? &&
  equalsField (some this.workYear) (some that.workYear)

structure Hashes where
  long : Int64 → Int32
  string : String → Int32

/-- `hashCode = hashCode * 8191 + ..;` -/
def mix (hashCode x : Int32) : Int32 := hashCode * 8191 + x

/-- A field that is hashed with its mark. -/
def mixOptional {α : Type} (hash : α → Int32) (value : Option α) (hashCode : Int32) : Int32 :=
  match value with
  | some value => mix (mix hashCode 131071) (hash value)
  | none => mix hashCode 524287

def hashCode (hash : Hashes) (this : UserInfo) : Int32 :=
  let h := mix 1 (hash.long this.id)
  let h := mixOptional hash.string this.username h
  let h := mixOptional hash.string this.password h
  let h := mix h this.age.toInt32
  let h := mixOptional Int8.toInt32 this.sex? h
  mix h this.workYear.toInt32

structure TBaseHelper where
  compareLong : Int64 → Int64 → Int32
  compareByte : Int8 → Int8 → Int32
  compareString : String → String → Int32

def compareBoolean (x y : Bool) : Int32 := if x = y then 0 else if x then 1 else -1

/-- The comparison of a field, first by its mark and then by its value; `rest` is that of the
fields after it. -/
def compareField {α : Type} (compareTo : α → α → Int32) (value other : Option α)
    (rest : Int32) : Int32 :=
  let lastComparison := compareBoolean value.isSome other.isSome
  if lastComparison ≠ 0 then lastComparison
  else
    match value, other with
    | some a, some b =>
        let lastComparison := compareTo a b
        if lastComparison ≠ 0 then lastComparison else rest
    | _, _ => rest

def compareTo (helper : TBaseHelper) (this other : UserInfo) : Int32 :=
  compareField helper.compareLong this.id? other.id? <|
  compareField helper.compareString this.username other.username <|
  compareField helper.compareString this.password other.password <|
  compareField helper.compareByte this.age? other.age? <|
  compareField helper.compareByte this.sex? other.sex? <|
  compareField helper.compareByte this.workYear? other.workYear? 0

end Equals

end UserInfo

end HelloBoot.Thrift
