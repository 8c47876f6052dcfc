import Wirepack.Text.Utf8
import Wirepack.Wire.FixedPoint
import Wirepack.Wire.Varint
import Wirepack.Wire.Zigzag

/-!
# Write buffers

A buffer is a region of memory of which the first `length` bytes are written. A write
that does not fit grows the region to twice its size, or to just what is needed if that
is more. The region never shrinks: truncating gives up written bytes, not room.
-/

namespace Wirepack
set_option autoImplicit false

structure Buffer where
  region : Array UInt8
  length : Nat
  fits : length ≤ region.size

namespace Buffer

/-- The size of the region. -/
def capacity (b : Buffer) : Nat := b.region.size

/-- The written bytes. -/
def bytes (b : Buffer) : Bytes := b.region.toList.take b.length

/-- A buffer with nothing written. -/
def withCapacity (capacity : Nat) : Buffer := ⟨Array.replicate capacity 0, 0, Nat.zero_le _⟩

/-- A fresh buffer of the usual small size. -/
def empty : Buffer := withCapacity 64

/-- The region with zeros added up to `size`. -/
def enlarge (region : Array UInt8) (size : Nat) : Array UInt8 :=
  region ++ Array.replicate (size - region.size) 0

theorem size_enlarge (region : Array UInt8) (size : Nat) :
    (enlarge region size).size = max region.size size := by
  simp [enlarge]; omega

/-- Makes room for `count` more bytes. -/
def reserve (b : Buffer) (count : Nat) : Buffer :=
  if b.length + count ≤ b.capacity then b
  else
    ⟨enlarge b.region (max (b.length + count) (2 * b.capacity)), b.length, by
      rw [size_enlarge]; exact Nat.le_trans b.fits (Nat.le_max_left ..)⟩

@[simp] theorem length_reserve (b : Buffer) (count : Nat) : (b.reserve count).length = b.length := by
  unfold reserve; split <;> rfl

theorem room_reserve (b : Buffer) (count : Nat) :
    (b.reserve count).length + count ≤ (b.reserve count).region.size := by
  unfold reserve
  split
  · assumption
  · simp only [size_enlarge]; omega

/-- Overwrites the region from `offset` on. -/
def store (region : Array UInt8) (offset : Nat) :
    (data : Bytes) → offset + data.length ≤ region.size → Array UInt8
  | [], _ => region
  | byte :: rest, room =>
    have inside : offset < region.size := by simp at room; omega
    store (region.set offset byte inside) (offset + 1) rest (by simp at room ⊢; omega)

@[simp] theorem size_store (region : Array UInt8) (offset : Nat) (data : Bytes)
    (room : offset + data.length ≤ region.size) :
    (store region offset data room).size = region.size := by
  induction data generalizing region offset with
  | nil => rfl
  | cons byte rest ih => rw [store, ih]; simp

/-- Appends raw bytes. -/
def put (b : Buffer) (data : Bytes) : Buffer :=
  let roomy := b.reserve data.length
  have room : roomy.length + data.length ≤ roomy.region.size := room_reserve b data.length
  ⟨store roomy.region roomy.length data room, roomy.length + data.length, by
    rw [size_store]; exact room⟩

/-- Appends a varint. Values of one and two bytes, the most common ones, are written
without the general loop. -/
def putVarint (b : Buffer) (value : UInt64) : Buffer :=
  if value < 0x80 then b.put [value.toUInt8]
  else if value < 0x4000 then b.put [Varint.marked value, (value >>> 7).toUInt8]
  else (b.reserve (Varint.size value)).put (Varint.encode value)

def putInt (b : Buffer) (value : Int32) : Buffer := b.putVarint (Zigzag.encode32 value).toUInt64

def putLong (b : Buffer) (value : Int64) : Buffer := b.putVarint (Zigzag.encode64 value)

def putFloat (b : Buffer) (value : Float32) : Buffer := b.putLong (FixedPoint.quantize32 value)

def putDouble (b : Buffer) (value : Float) : Buffer := b.putLong (FixedPoint.quantize64 value)

/-- Appends one byte, 0 or 1. -/
def putBool (b : Buffer) (value : Bool) : Buffer := b.put [value.toUInt8]

/-- Appends a string length or an element count, as a signed 64-bit integer. -/
def putLength (b : Buffer) (count : Nat) : Buffer := b.putLong (Int64.ofNat count)

/-- Appends the byte length of a string and its bytes. -/
def putString (b : Buffer) (text : String) : Buffer :=
  (b.putLength (Utf8.encode text).length).put (Utf8.encode text)

/-- Gives up what was written after the first `count` bytes. -/
def truncate (b : Buffer) (count : Nat) : Buffer :=
  ⟨b.region, min b.length count, Nat.le_trans (Nat.min_le_left ..) b.fits⟩

/-- Gives up everything written. -/
def clear (b : Buffer) : Buffer := ⟨b.region, 0, Nat.zero_le _⟩

end Buffer

end Wirepack
