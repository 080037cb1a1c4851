import HelloBoot.Thrift.TBinaryProtocol
import HelloBoot.Wire.Varint

/-!
# The tuple protocol

A `TTupleProtocol` is a `TCompactProtocol` that writes sets of bits too. The wire format of its
values, as it is documented: a byte as it is, numbers in zigzag order and of varying width, a
string after the number of its octets, and a set of bits in as few octets as its width needs.
-/

namespace HelloBoot.Thrift

open Wire FormUrlEncoded

namespace TCompactProtocol

open TBinaryProtocol

def readI32 : In Int32 :=
  .mapOption .protocol (fun x => some (Int32.ofInt (unzigzag x))) (.varint .transport)

def readI64 : In Int64 :=
  .mapOption .protocol (fun x => some (Int64.ofInt (unzigzag x))) (.varint .transport)

def writeI32 (v : Int32) : Octets := varint (zigzag v.toInt)

def writeI64 (v : Int64) : Octets := varint (zigzag v.toInt)

theorem takes_readI64 (v : Int64) : readI64.Takes (writeI64 v) v :=
  (Reader.takes_varint _ _).mapOption (by rw [unzigzag_zigzag, Int64.ofInt_toInt])

def readString : In String := do
  let size ← .varint .transport
  .mapOption .protocol ofUtf8? (.take .transport size)

def writeString (s : String) : Octets := varint (utf8 s).length ++ utf8 s

theorem takes_readString (s : String) : readString.Takes (writeString s) s :=
  (Reader.takes_varint _ _).bind ((Reader.takes_take _ _).mapOption (ofUtf8?_utf8 s))

def width (n : ℕ) : ℕ := (n + 7) / 8

def readBitSet (n : ℕ) : In (List Bool) := .number .transport (width n) (toBits n)

def writeBitSet (bits : List Bool) : Octets := bigEndian (width bits.length) (ofBits bits)

theorem takes_readBitSet (bits : List Bool) :
    (readBitSet bits.length).Takes (writeBitSet bits) bits := by
  refine Reader.takes_number _ ?_ (toBits_ofBits bits)
  calc ofBits bits < 2 ^ bits.length := ofBits_lt bits
    _ ≤ 2 ^ (8 * width bits.length) := Nat.pow_le_pow_right (by decide) (by unfold width; omega)
    _ = 256 ^ width bits.length := by rw [Nat.pow_mul]

end TCompactProtocol

/-- The values of a `TTupleProtocol`; its structs are framed by the schemes themselves. -/
def tTupleProtocol : TTupleProtocol UInt8 where
  toTProtocol :=
    { tBinaryProtocol with
      writeI32 := TCompactProtocol.writeI32
      writeI64 := TCompactProtocol.writeI64
      writeString := TCompactProtocol.writeString
      readI32 := TCompactProtocol.readI32
      readI64 := TCompactProtocol.readI64
      readString := TCompactProtocol.readString }
  writeBitSet := TCompactProtocol.writeBitSet
  readBitSet := TCompactProtocol.readBitSet

theorem tTupleProtocol_lawful : tTupleProtocol.Lawful TBinaryProtocol.Carries where
  readBitSet := TCompactProtocol.takes_readBitSet
  readByte := TBinaryProtocol.takes_readByte
  readI64 := TCompactProtocol.takes_readI64
  readString s _ := TCompactProtocol.takes_readString s

end HelloBoot.Thrift
