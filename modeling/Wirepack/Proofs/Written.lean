import Wirepack.Wire.Buffer

/-!
# What a write appends

Every write to a buffer adds bytes at the end and keeps those before it, whatever the region
held there and however it grows. `Written` names the bytes of each kind of write, so that what
a buffer holds can be told without its region.
-/

namespace Wirepack
set_option autoImplicit false

namespace Varint

theorem toNat_shiftRight_seven (value : UInt64) : (value >>> 7).toNat = value.toNat / 128 := by
  rw [UInt64.toNat_shiftRight]
  simp [Nat.shiftRight_eq_div_pow]

theorem encode_of_lt {value : UInt64} (small : value < 0x80) : encode value = [value.toUInt8] := by
  simp [encode, maxSize, groups, small]

theorem encode_of_two_groups {value : UInt64} (large : ¬ value < 0x80) (small : value < 0x4000) :
    encode value = [marked value, (value >>> 7).toUInt8] := by
  have last : value >>> 7 < 0x80 := by
    rw [UInt64.lt_iff_toNat_lt] at small ⊢
    rw [toNat_shiftRight_seven]
    simp at small ⊢
    omega
  simp [encode, maxSize, groups, large, last]

end Varint

namespace Written

/-- The bytes of a 32-bit integer. -/
def int (value : Int32) : Bytes := Varint.encode (Zigzag.encode32 value).toUInt64

/-- The bytes of a 64-bit integer. -/
def long (value : Int64) : Bytes := Varint.encode (Zigzag.encode64 value)

/-- Lengths are written as 64-bit signed integers: those below 2^63 can be read back. -/
def lengthBound : Nat := 0x8000000000000000

/-- The bytes of a string length or an element count. -/
def length (count : Nat) : Bytes := long (Int64.ofNat count)

/-- The bytes of a string: the length of its UTF-8 form, then that form. -/
def string (text : String) : Bytes := length (Utf8.encode text).length ++ Utf8.encode text

end Written

namespace Buffer

theorem toList_store (region : Array UInt8) (offset : Nat) (data : Bytes)
    (room : offset + data.length ≤ region.size) :
    (store region offset data room).toList =
      region.toList.take offset ++ data ++ region.toList.drop (offset + data.length) := by
  induction data generalizing region offset with
  | nil => simp [store]
  | cons byte rest ih =>
    have inside : offset < region.toList.length := by simp at room ⊢; omega
    have before : (region.toList.take offset ++ [byte]).length = offset + 1 := by simp; omega
    rw [store, ih, Array.toList_set, List.drop_set_of_lt (by omega),
      List.set_eq_take_append_cons_drop, if_pos inside, List.append_cons, List.take_left' before]
    simp [Nat.add_right_comm, Nat.add_assoc]

@[simp] theorem length_bytes (b : Buffer) : b.bytes.length = b.length := by
  simp [bytes, b.fits]

@[simp] theorem bytes_withCapacity (capacity : Nat) : (withCapacity capacity).bytes = [] := by
  simp [withCapacity, bytes]

@[simp] theorem bytes_reserve (b : Buffer) (count : Nat) : (b.reserve count).bytes = b.bytes := by
  unfold reserve
  split
  · rfl
  · have inside : b.length ≤ b.region.toList.length := b.fits
    simp [bytes, enlarge, List.take_append_of_le_length inside]

@[simp] theorem bytes_put (b : Buffer) (data : Bytes) : (b.put data).bytes = b.bytes ++ data := by
  rw [← bytes_reserve b data.length]
  have before : ((b.reserve data.length).bytes ++ data).length =
      (b.reserve data.length).length + data.length := by
    rw [List.length_append, length_bytes]
  -- The stored region is the old bytes, the data and what the region held further on.
  simp only [put, bytes, toList_store] at before ⊢
  exact List.take_left' before

@[simp] theorem bytes_putVarint (b : Buffer) (value : UInt64) :
    (b.putVarint value).bytes = b.bytes ++ Varint.encode value := by
  unfold putVarint
  split
  · next small => rw [bytes_put, Varint.encode_of_lt small]
  · next large =>
    split
    · next small => rw [bytes_put, Varint.encode_of_two_groups large small]
    · rw [bytes_put, bytes_reserve]

@[simp] theorem bytes_putInt (b : Buffer) (value : Int32) :
    (b.putInt value).bytes = b.bytes ++ Written.int value :=
  bytes_putVarint b _

@[simp] theorem bytes_putLong (b : Buffer) (value : Int64) :
    (b.putLong value).bytes = b.bytes ++ Written.long value :=
  bytes_putVarint b _

@[simp] theorem bytes_putFloat (b : Buffer) (value : Float32) :
    (b.putFloat value).bytes = b.bytes ++ Written.long (FixedPoint.quantize32 value) :=
  bytes_putLong b _

@[simp] theorem bytes_putDouble (b : Buffer) (value : Float) :
    (b.putDouble value).bytes = b.bytes ++ Written.long (FixedPoint.quantize64 value) :=
  bytes_putLong b _

@[simp] theorem bytes_putBool (b : Buffer) (value : Bool) :
    (b.putBool value).bytes = b.bytes ++ [value.toUInt8] :=
  bytes_put b _

@[simp] theorem bytes_putLength (b : Buffer) (count : Nat) :
    (b.putLength count).bytes = b.bytes ++ Written.length count :=
  bytes_putLong b _

@[simp] theorem bytes_putString (b : Buffer) (text : String) :
    (b.putString text).bytes = b.bytes ++ Written.string text := by
  rw [putString, bytes_put, bytes_putLength, Written.string, List.append_assoc]

@[simp] theorem bytes_truncate (b : Buffer) (count : Nat) : (b.truncate count).bytes = b.bytes.take count := by
  simp [truncate, bytes, List.take_take, Nat.min_comm]

@[simp] theorem bytes_clear (b : Buffer) : b.clear.bytes = [] := by
  simp [clear, bytes]

end Buffer

end Wirepack
