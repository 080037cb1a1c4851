import HelloBoot.Wire.Reader

/-!
# The protocol under the generated code

The schemes of the generated structs write and read through a `TProtocol`, which is not part of
the sources: a parameter, of which `TProtocol.Lawful` states that what was written is read back
and that `skip` passes over a value. `StandardScheme.read` is the loop that the generated structs
share, with the switch over the fields as an argument; what it makes of any fields that a peer
sends is computed once, in `StandardScheme.takes_read`.
-/

namespace HelloBoot.Thrift

open Wire

/-! ### Types, fields and exceptions -/

namespace TType

def stop : Int8 := 0
def byte : Int8 := 3
def i32 : Int8 := 8
def i64 : Int8 := 10
def string : Int8 := 11
def struct : Int8 := 12

end TType

structure TField where
  name : String
  type : Int8
  id : Int16
  deriving DecidableEq

inductive TException where
  | transport
  | protocol
  | application (type : Int32) (message : String)
  deriving DecidableEq

namespace TApplicationException

def missingResult : Int32 := 5

end TApplicationException

/-! ### The protocol -/

/-- The operations of a `TProtocol` that the schemes call: a `write` appends a text to the
transport, and a `read` takes one off. -/
structure TProtocol (β : Type) where
  writeStructBegin : String → List β
  writeStructEnd : List β
  writeFieldBegin : TField → List β
  writeFieldEnd : List β
  writeFieldStop : List β
  writeByte : Int8 → List β
  writeI32 : Int32 → List β
  writeI64 : Int64 → List β
  writeString : String → List β
  readStructBegin : Reader β TException Unit
  readStructEnd : Reader β TException Unit
  readFieldBegin : Reader β TException TField
  readFieldBegin_strict : readFieldBegin.Strict
  readFieldEnd : Reader β TException Unit
  readByte : Reader β TException Int8
  readI32 : Reader β TException Int32
  readI64 : Reader β TException Int64
  readString : Reader β TException String
  skip : Int8 → Reader β TException Unit

namespace TProtocol

variable {β : Type} (P : TProtocol β)

/-- What the code relies on. `Carries` are the strings that the protocol can carry, and
`Encodes type text` says that `text` is what a peer writes for a value of the type. -/
structure Lawful (Carries : String → Prop) (Encodes : Int8 → List β → Prop) : Prop where
  readStructBegin : ∀ name, P.readStructBegin.Takes (P.writeStructBegin name) ()
  readStructEnd : P.readStructEnd.Takes P.writeStructEnd ()
  readFieldBegin : ∀ field, field.type ≠ TType.stop →
    ∃ name, P.readFieldBegin.Takes (P.writeFieldBegin field) { field with name := name }
  readFieldStop : ∃ field, field.type = TType.stop ∧
    P.readFieldBegin.Takes P.writeFieldStop field
  readFieldEnd : P.readFieldEnd.Takes P.writeFieldEnd ()
  readByte : ∀ v, P.readByte.Takes (P.writeByte v) v
  readI32 : ∀ v, P.readI32.Takes (P.writeI32 v) v
  readI64 : ∀ v, P.readI64.Takes (P.writeI64 v) v
  readString : ∀ s, Carries s → P.readString.Takes (P.writeString s) s
  skip : ∀ type text, Encodes type text → (P.skip type).Takes text ()
  encodes_byte : ∀ v, Encodes TType.byte (P.writeByte v)
  encodes_i32 : ∀ v, Encodes TType.i32 (P.writeI32 v)
  encodes_i64 : ∀ v, Encodes TType.i64 (P.writeI64 v)
  encodes_string : ∀ s, Carries s → Encodes TType.string (P.writeString s)

def writeField (field : TField) (text : List β) : List β :=
  P.writeFieldBegin field ++ text ++ P.writeFieldEnd

end TProtocol

/-- A `TTupleProtocol` writes sets of bits too, the bits below a width. -/
structure TTupleProtocol (β : Type) extends TProtocol β where
  writeBitSet : List Bool → List β
  readBitSet : ℕ → Reader β TException (List Bool)

structure TTupleProtocol.Lawful {β : Type} (P : TTupleProtocol β) (Carries : String → Prop) :
    Prop where
  readBitSet : ∀ bits, (P.readBitSet bits.length).Takes (P.writeBitSet bits) bits
  readByte : ∀ v, P.readByte.Takes (P.writeByte v) v
  readI64 : ∀ v, P.readI64.Takes (P.writeI64 v) v
  readString : ∀ s, Carries s → P.readString.Takes (P.writeString s) s

/-! ### The fields that a peer sends -/

inductive Scalar where
  | byte
  | i32
  | i64
  | string
  deriving DecidableEq

namespace Scalar

def type : Scalar → Int8
  | byte => TType.byte
  | i32 => TType.i32
  | i64 => TType.i64
  | string => TType.string

abbrev Value : Scalar → Type
  | byte => Int8
  | i32 => Int32
  | i64 => Int64
  | string => String

theorem type_injective {k k' : Scalar} (h : k.type = k'.type) : k = k' := by
  cases k <;> cases k' <;> first | rfl | exact absurd h (by decide)

theorem type_ne_stop (k : Scalar) : k.type ≠ TType.stop := by
  cases k <;> decide

def Carried (Carries : String → Prop) : (k : Scalar) → k.Value → Prop
  | string, s => Carries s
  | _, _ => True

end Scalar

namespace TProtocol

variable {β σ : Type} (P : TProtocol β)

def write : (k : Scalar) → k.Value → List β
  | .byte => P.writeByte
  | .i32 => P.writeI32
  | .i64 => P.writeI64
  | .string => P.writeString

def read : (k : Scalar) → Reader β TException k.Value
  | .byte => P.readByte
  | .i32 => P.readI32
  | .i64 => P.readI64
  | .string => P.readString

/-- `if (schemeField.type == ..) { .. } else { TProtocolUtil.skip(iprot, schemeField.type); }`:
a case of the switch, for a field of the type `k` that `set` assigns. -/
def readTyped (k : Scalar) (set : k.Value → σ) (type : Int8) (struct : σ) :
    Reader β TException σ :=
  if type = k.type then P.read k >>= fun value => pure (set value)
  else P.skip type >>= fun _ => pure struct

variable {P} {Carries : String → Prop} {Encodes : Int8 → List β → Prop}

theorem Lawful.read (hP : P.Lawful Carries Encodes) {k : Scalar} {v : k.Value}
    (hv : k.Carried Carries v) : (P.read k).Takes (P.write k v) v := by
  cases k with
  | byte => exact hP.readByte v
  | i32 => exact hP.readI32 v
  | i64 => exact hP.readI64 v
  | string => exact hP.readString v hv

theorem Lawful.encodes (hP : P.Lawful Carries Encodes) {k : Scalar} {v : k.Value}
    (hv : k.Carried Carries v) : Encodes k.type (P.write k v) := by
  cases k with
  | byte => exact hP.encodes_byte v
  | i32 => exact hP.encodes_i32 v
  | i64 => exact hP.encodes_i64 v
  | string => exact hP.encodes_string v hv

end TProtocol

/-- A value on the wire; `other` is one of a type that no scalar field has. -/
inductive TValue (β : Type) where
  | scalar (k : Scalar) (v : k.Value)
  | other (type : Int8) (text : List β)

namespace TValue

variable {β σ : Type}

def type : TValue β → Int8
  | scalar k _ => k.type
  | other type _ => type

def text (P : TProtocol β) : TValue β → List β
  | scalar k v => P.write k v
  | other _ text => text

def as? (k : Scalar) : TValue β → Option k.Value
  | scalar k' v => if h : k' = k then some (h ▸ v) else none
  | other _ _ => none

def Sendable (Carries : String → Prop) (Encodes : Int8 → List β → Prop) : TValue β → Prop
  | scalar k v => k.Carried Carries v
  | other type text => type ≠ TType.stop ∧ (∀ k : Scalar, type ≠ k.type) ∧ Encodes type text

variable {P : TProtocol β} {Carries : String → Prop} {Encodes : Int8 → List β → Prop}
  {v : TValue β}

theorem Sendable.type_ne_stop (hv : v.Sendable Carries Encodes) : v.type ≠ TType.stop := by
  cases v with
  | scalar k v => exact k.type_ne_stop
  | other type text => exact hv.1

theorem Sendable.skip (hP : P.Lawful Carries Encodes) (hv : v.Sendable Carries Encodes) :
    (P.skip v.type).Takes (v.text P) () := by
  cases v with
  | scalar k v => exact hP.skip _ _ (hP.encodes hv)
  | other type text => exact hP.skip _ _ hv.2.2

/-- A case of the switch assigns the value if it is of the type, and skips it else. -/
theorem Sendable.takes_readTyped (hP : P.Lawful Carries Encodes)
    (hv : v.Sendable Carries Encodes) {k : Scalar} (set : k.Value → σ) (struct : σ) :
    (P.readTyped k set v.type struct).Takes (v.text P) ((v.as? k).elim struct set) := by
  have hskip : v.type ≠ k.type → (P.readTyped k set v.type struct).Takes (v.text P) struct := by
    intro htype
    rw [TProtocol.readTyped, if_neg htype]
    exact (hv.skip hP).map
  cases v with
  | scalar k' v =>
      by_cases h : k' = k
      · subst h
        rw [as?, dif_pos rfl, TProtocol.readTyped, type, if_pos rfl]
        exact (hP.read hv).map
      · rw [as?, dif_neg h]
        exact hskip fun htype => h (Scalar.type_injective htype)
  | other type text => exact hskip (hv.2.1 k)

end TValue

structure SentField (β : Type) where
  name : String
  id : Int16
  value : TValue β

namespace SentField

variable {β : Type}

def text (P : TProtocol β) (field : SentField β) : List β :=
  P.writeField ⟨field.name, field.value.type, field.id⟩ (field.value.text P)

end SentField

def structText {β : Type} (P : TProtocol β) (name : String) (fields : List (SentField β)) :
    List β :=
  P.writeStructBegin name ++ fields.flatMap (SentField.text P) ++
    (P.writeFieldStop ++ P.writeStructEnd)

/-! ### The standard scheme -/

namespace StandardScheme

variable {β σ : Type} (P : TProtocol β) (readField : TField → σ → Reader β TException σ)

def round (schemeField : TField) (struct : σ) : Option (Reader β TException σ) :=
  if schemeField.type = TType.stop then none
  else some (readField schemeField struct >>= fun struct =>
    P.readFieldEnd >>= fun _ => pure struct)

/-- `read(iprot, struct)`, for the struct whose switch is `readField`. -/
def read (struct : σ) : Reader β TException σ :=
  P.readStructBegin >>= fun _ =>
    Reader.whileSome P.readFieldBegin P.readFieldBegin_strict (round P readField) struct >>=
      fun struct => P.readStructEnd >>= fun _ => pure struct

variable {P readField} {Carries : String → Prop} {Encodes : Int8 → List β → Prop}
  {assign : σ → SentField β → σ} {fields : List (SentField β)}

/-- A struct is read by what the switch does for its fields, one after the other. -/
theorem takes_read (hP : P.Lawful Carries Encodes)
    (htype : ∀ f ∈ fields, f.value.type ≠ TType.stop)
    (hfield : ∀ f ∈ fields, ∀ name struct,
      (readField ⟨name, f.value.type, f.id⟩ struct).Takes (f.value.text P) (assign struct f))
    (name : String) (struct : σ) :
    (read P readField struct).Takes (structText P name fields) (fields.foldl assign struct) := by
  obtain ⟨stop, hstop, hreadStop⟩ := hP.readFieldStop
  have hloop : (Reader.whileSome P.readFieldBegin P.readFieldBegin_strict (round P readField)
      struct).Takes (fields.flatMap (SentField.text P) ++ P.writeFieldStop)
        (fields.foldl assign struct) := by
    refine Reader.takes_whileSome ?_ hreadStop (fun s => if_pos hstop) struct
    intro f hf s
    obtain ⟨name, hbegin⟩ := hP.readFieldBegin ⟨f.name, f.value.type, f.id⟩ (htype f hf)
    refine ⟨_, f.value.text P ++ P.writeFieldEnd, _, _, ?_, hbegin, if_neg (htype f hf),
      (hfield f hf name s).bind hP.readFieldEnd.map⟩
    rw [SentField.text, TProtocol.writeField, List.append_assoc]
  have hrest : (Reader.whileSome P.readFieldBegin P.readFieldBegin_strict (round P readField)
      struct >>= fun struct => P.readStructEnd >>= fun _ => pure struct).Takes
        (fields.flatMap (SentField.text P) ++ P.writeFieldStop ++ P.writeStructEnd)
        (fields.foldl assign struct) := hloop.bind hP.readStructEnd.map
  rw [structText, List.append_assoc, ← List.append_assoc (fields.flatMap _)]
  exact (hP.readStructBegin name).bind (f := fun _ => Reader.whileSome P.readFieldBegin
    P.readFieldBegin_strict (round P readField) struct >>= fun struct =>
      P.readStructEnd >>= fun _ => pure struct) hrest

end StandardScheme

end HelloBoot.Thrift
