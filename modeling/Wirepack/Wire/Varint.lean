import Wirepack.Bytes

/-!
# Varints

An unsigned integer is written in groups of seven bits, least significant first, one
byte each; the high bit of a byte says that another follows. Ten groups hold 64 bits.
-/

namespace Wirepack.Varint
set_option autoImplicit false

/-- The largest number of bytes of a varint. -/
def maxSize : Nat := 10

/-- The low seven bits of `value`, marked as having a successor. -/
def marked (value : UInt64) : UInt8 := (value.toUInt8 &&& 0x7F) ||| 0x80

/-- The groups of `value`, at most `more` of them before the last. -/
def groups : Nat → UInt64 → Bytes
  | 0, value => [value.toUInt8]
  | more + 1, value =>
    if value < 0x80 then [value.toUInt8] else marked value :: groups more (value >>> 7)

/-- The bytes of `value`. -/
def encode (value : UInt64) : Bytes := groups (maxSize - 1) value

/-- The number of significant bits, at least one. -/
def bitWidth (value : UInt64) : Nat := (value ||| 1).toNat.log2 + 1

/-- The number of bytes of `value`. -/
def size (value : UInt64) : Nat := (bitWidth value + 6) / 7

end Wirepack.Varint
