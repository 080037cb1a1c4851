import HelloBoot.FormUrlEncoded.Percent
import HelloBoot.Thrift.TProtocol
import HelloBoot.Wire.BigEndian
import HelloBoot.Wire.WorkList

/-!
# The binary protocol

Both servers and both clients speak `TBinaryProtocol`. Its wire format, as it is documented, is an
instance of `TProtocol`: numbers in big-endian octets, a string after the number of its octets, a
field after its type and its id, and nothing for the rest of the frame but an octet that closes a
struct. It is lawful (`tBinaryProtocol_lawful`) for the strings that fit into an array.
-/

namespace HelloBoot.Thrift

open Wire FormUrlEncoded

namespace TBinaryProtocol

abbrev In (α : Type) := Reader UInt8 TException α

def readByte : In Int8 := .number .transport 1 fun x => (UInt8.ofNat x).toInt8
def readI16 : In Int16 := .number .transport 2 fun x => (UInt16.ofNat x).toInt16
def readI32 : In Int32 := .number .transport 4 fun x => (UInt32.ofNat x).toInt32
def readI64 : In Int64 := .number .transport 8 fun x => (UInt64.ofNat x).toInt64

def writeByte (v : Int8) : Octets := bigEndian 1 v.toUInt8.toNat
def writeI16 (v : Int16) : Octets := bigEndian 2 v.toUInt16.toNat
def writeI32 (v : Int32) : Octets := bigEndian 4 v.toUInt32.toNat
def writeI64 (v : Int64) : Octets := bigEndian 8 v.toUInt64.toNat

theorem takes_readByte (v : Int8) : readByte.Takes (writeByte v) v :=
  Reader.takes_number (n := 1) (x := v.toUInt8.toNat) _ v.toUInt8.toNat_lt
    (f := fun x => (UInt8.ofNat x).toInt8) (by simp)

theorem takes_readI16 (v : Int16) : readI16.Takes (writeI16 v) v :=
  Reader.takes_number (n := 2) (x := v.toUInt16.toNat) _ v.toUInt16.toNat_lt
    (f := fun x => (UInt16.ofNat x).toInt16) (by simp)

theorem takes_readI32 (v : Int32) : readI32.Takes (writeI32 v) v :=
  Reader.takes_number (n := 4) (x := v.toUInt32.toNat) _ v.toUInt32.toNat_lt
    (f := fun x => (UInt32.ofNat x).toInt32) (by simp)

theorem takes_readI64 (v : Int64) : readI64.Takes (writeI64 v) v :=
  Reader.takes_number (n := 8) (x := v.toUInt64.toNat) _ v.toUInt64.toNat_lt
    (f := fun x => (UInt64.ofNat x).toInt64) (by simp)

def readSize : In ℕ :=
  .mapOption .protocol (fun size : Int32 => if size < 0 then none else some size.toNatClampNeg)
    readI32

def writeSize (n : ℕ) : Octets := bigEndian 4 n

theorem takes_readSize {n : ℕ} (h : n < 2 ^ 31) : readSize.Takes (writeSize n) n := by
  refine Reader.Takes.mapOption (a := Int32.ofNat n)
    (Reader.takes_number _ (by omega) rfl) ?_
  have hnonneg : ¬Int32.ofNat n < 0 := by
    rw [Int32.lt_iff_toInt_lt, Int32.toInt_ofNat_of_lt h]
    simp
  rw [if_neg hnonneg, Int32.toNatClampNeg_ofNat_of_lt h]

def readString : In String := do
  let size ← readSize
  .mapOption .protocol ofUtf8? (.take .transport size)

def writeString (s : String) : Octets := writeSize (utf8 s).length ++ utf8 s

theorem takes_readString {s : String} (h : (utf8 s).length < 2 ^ 31) :
    readString.Takes (writeString s) s := 
  (takes_readSize h).bind ((Reader.takes_take _ _).mapOption (ofUtf8?_utf8 s))

/-- A field stop is a type alone. -/
def readFieldBegin : In TField := do
  let type ← readByte
  if type = TType.stop then pure ⟨"", type, 0⟩
  else do
    let id ← readI16
    pure ⟨"", type, id⟩

def writeFieldBegin (field : TField) : Octets := writeByte field.type ++ writeI16 field.id

theorem takes_readFieldBegin {field : TField} (h : field.type ≠ TType.stop) :
    readFieldBegin.Takes (writeFieldBegin field) { field with name := "" } := by
  refine (takes_readByte field.type).bind ?_
  rw [if_neg h]
  exact (takes_readI16 field.id).map

theorem takes_readFieldStop : readFieldBegin.Takes (writeByte TType.stop) ⟨"", TType.stop, 0⟩ := by
  have h := (takes_readByte TType.stop).bind (f := fun type =>
    if type = TType.stop then (pure ⟨"", type, 0⟩ : In TField) else readI16 >>= fun id =>
      pure ⟨"", type, id⟩) (Reader.takes_pure _)
  rwa [List.append_nil] at h

/-! ### What `skip` passes over -/

/-- What is still to be skipped: a value, the rest of the fields of a struct, or `n` items of a
container that have a value of each of the types. -/
inductive Pending where
  | value (type : Int8)
  | fields
  | items (types : List Int8) (n : ℕ)

namespace Pending

def weight : Pending → ℕ
  | value _ => 2
  | fields => 1
  | items types n => n * (2 * types.length + 1) + 1

end Pending

/-- The octets of the types of a fixed width. -/
def width? (type : Int8) : Option ℕ :=
  -- bool, byte, i16, i32, i64, double
  if type = 2 ∨ type = 3 then some 1
  else if type = 6 then some 2
  else if type = 8 then some 4
  else if type = 10 ∨ type = 4 then some 8
  else none

/-- The part of a value before those that it holds, and these. -/
def skipHead (type : Int8) : In (List Pending) :=
  match width? type with
  | some n => Reader.take .transport n >>= fun _ => pure []
  | none =>
      if type = TType.string then do
        let size ← readSize
        let _ ← Reader.take .transport size
        pure []
      else if type = TType.struct then pure [.fields]
      -- a map, and then a set or a list
      else if type = 13 then do
        let keyType ← readByte
        let valueType ← readByte
        let size ← readSize
        pure [.items [keyType, valueType] size]
      else if type = 14 ∨ type = 15 then do
        let elemType ← readByte
        let size ← readSize
        pure [.items [elemType] size]
      else .fail .protocol

/-- A round of `TProtocolUtil.skip`, with the calls that are still to come as a list. -/
def skipRound : Pending → In (List Pending)
  | .value type => skipHead type
  | .fields => do
      let field ← readFieldBegin
      pure (if field.type = TType.stop then [] else [.value field.type, .fields])
  | .items _ 0 => pure []
  | .items types (n + 1) => pure (types.map .value ++ [.items types n])

theorem strict_readFieldBegin : readFieldBegin.Strict :=
  (Reader.strict_number _ (by decide) _).bind _

theorem strict_readSize : readSize.Strict := (Reader.strict_number _ (by decide) _).mapOption _ _

theorem pos_of_width? {type : Int8} {n : ℕ} (h : width? type = some n) : 0 < n := by
  unfold width? at h
  split at h
  · cases h
    decide
  · split at h
    · cases h
      decide
    · split at h
      · cases h
        decide
      · split at h <;> cases h
        decide

theorem total_map_value (types : List Int8) :
    Reader.total Pending.weight (types.map .value) = 2 * types.length := by
  induction types with
  | nil => rfl
  | cons type types ih =>
      rw [List.map_cons, Reader.total, ih, Pending.weight, List.length_cons]
      omega

theorem descends_skipRound : Reader.Descends skipRound Pending.weight := by
  intro k ws rest ks h
  cases k with
  | value type =>
      simp only [skipRound, skipHead] at h
      split at h
      · rename_i n hwidth
        exact .inl ((Reader.strict_take _ (pos_of_width? hwidth)).bind _ h)
      · split at h
        · exact .inl (strict_readSize.bind _ h)
        · split at h
          · cases h
            exact .inr (Nat.lt_succ_self 1)
          · split at h
            · exact .inl ((Reader.strict_number _ (by decide) _).bind _ h)
            · split at h
              · exact .inl ((Reader.strict_number _ (by decide) _).bind _ h)
              · cases h
  | fields => exact .inl (strict_readFieldBegin.bind _ h)
  | items types n =>
      right
      cases n with
      | zero =>
          cases h
          simp [Reader.total, Pending.weight]
      | succ n =>
          cases h
          simp only [Reader.total_append, total_map_value, Reader.total, Pending.weight,
            Nat.add_mul]
          omega

end TBinaryProtocol

open TBinaryProtocol

def tBinaryProtocol : TProtocol UInt8 where
  writeStructBegin _ := []
  writeStructEnd := []
  writeFieldBegin := writeFieldBegin
  writeFieldEnd := []
  writeFieldStop := writeByte TType.stop
  writeByte := writeByte
  writeI32 := writeI32
  writeI64 := writeI64
  writeString := writeString
  readStructBegin := pure ()
  readStructEnd := pure ()
  readFieldBegin := readFieldBegin
  readFieldBegin_strict := strict_readFieldBegin
  readFieldEnd := pure ()
  readByte := readByte
  readI32 := readI32
  readI64 := readI64
  readString := readString
  skip type := Reader.workList skipRound Pending.weight descends_skipRound [.value type]

namespace TBinaryProtocol

/-- The strings whose octets an array can hold. -/
def Carries (s : String) : Prop := (utf8 s).length < 2 ^ 31

instance : DecidablePred Carries := fun _ => inferInstanceAs (Decidable (_ < _))

def Encodes (type : Int8) (text : Octets) : Prop := Reader.Spells skipRound [.value type] text

theorem encodes_of_takes {type : Int8} {text : Octets} (h : (skipHead type).Takes text []) :
    Encodes type text := by
  have hspells : Reader.Spells skipRound [.value type] (text ++ []) := .cons h .nil
  rwa [List.append_nil] at hspells

theorem takes_skipHead_of_width? {type : Int8} {text : Octets}
    (h : width? type = some text.length) : (skipHead type).Takes text [] := by
  rw [skipHead, h]
  exact (Reader.takes_take _ text).map

end TBinaryProtocol

theorem tBinaryProtocol_lawful : tBinaryProtocol.Lawful Carries Encodes where
  readStructBegin _ := Reader.takes_pure ()
  readStructEnd := Reader.takes_pure ()
  readFieldBegin _ h := ⟨"", takes_readFieldBegin h⟩
  readFieldStop := ⟨_, rfl, takes_readFieldStop⟩
  readFieldEnd := Reader.takes_pure ()
  readByte := takes_readByte
  readI32 := takes_readI32
  readI64 := takes_readI64
  readString _ := takes_readString
  skip _ _ h := h.takes
  encodes_byte _ := encodes_of_takes (takes_skipHead_of_width? rfl)
  encodes_i32 _ := encodes_of_takes (takes_skipHead_of_width? rfl)
  encodes_i64 _ := encodes_of_takes (takes_skipHead_of_width? rfl)
  encodes_string s hs := encodes_of_takes
    ((takes_readSize hs).bind (Reader.takes_take _ (utf8 s)).map)

end HelloBoot.Thrift
