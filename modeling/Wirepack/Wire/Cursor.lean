import Wirepack.Fault
import Wirepack.Wire.FixedPoint
import Wirepack.Wire.Varint
import Wirepack.Wire.Zigzag

/-!
# Reading payloads

A cursor is a position in a payload together with the bytes from there on. A read
gives a value or a fault and, in both cases, the cursor where it stopped, so that
reading can go on after a fault.
-/

namespace Wirepack
set_option autoImplicit false

structure Cursor where
  /-- The number of bytes already read. -/
  position : Nat
  /-- The bytes not yet read. -/
  rest : Bytes
  deriving DecidableEq, Repr

/-- A read: a value or a fault, and where the cursor stands after it. -/
abbrev Read := EStateM Fault Cursor

namespace Cursor

/-- At the start of a payload. -/
def start (data : Bytes) : Cursor := ⟨0, data⟩

/-- The number of bytes not yet read. -/
def remaining (c : Cursor) : Nat := c.rest.length

def atEnd (c : Cursor) : Bool := c.rest.isEmpty

/-- The cursor `count` bytes further on. -/
def advance (c : Cursor) (count : Nat) : Cursor := ⟨c.position + count, c.rest.drop count⟩

/-- The position, without reading. -/
def here : Read Nat := fun c => .ok c.position c

/-- The next byte. -/
def byte : Read UInt8 := fun c =>
  match c.rest with
  | [] => .error (.underflow 1 0 c.position) c
  | first :: rest => .ok first ⟨c.position + 1, rest⟩

/-- The next `count` bytes; all of them or, with the cursor unmoved, none. -/
def bytes (count : Nat) : Read Bytes := fun c =>
  if count ≤ c.remaining then .ok (c.rest.take count) (c.advance count)
  else .error (.underflow count c.remaining c.position) c

/-- The varint that started at `start`, of which at most `left` bytes may follow. Bits
past the 64th are dropped. -/
def varintGroups (start : Nat) : Nat → Read UInt64
  | 0 => throw (.malformedVarint start)
  | left + 1 => do
    let group ← byte
    if group < 0x80 then return group.toUInt64
    let high ← varintGroups start left
    return (group &&& 0x7F).toUInt64 ||| (high <<< 7)

def varint : Read UInt64 := do varintGroups (← here) Varint.maxSize

/-- A zigzag integer, of whose varint only the low 32 bits count. -/
def int : Read Int32 := do return Zigzag.decode32 (← varint).toUInt32

def long : Read Int64 := do return Zigzag.decode64 (← varint)

def float : Read Float32 := do return FixedPoint.dequantize32 (← long)

def double : Read Float := do return FixedPoint.dequantize64 (← long)

/-- One byte, false only if it is zero. -/
def bool : Read Bool := do return (← byte) != 0

/-- A length, which may not be negative. -/
def length : Read Nat := do
  let position ← here
  let value ← long
  if value < 0 then throw (.invalidLength value position)
  return value.toInt.toNat

/-- An element count of at most `limit`. -/
def count (limit : Nat) : Read Nat := do
  let position ← here
  let value ← length
  if limit < value then throw (.lengthExceeded value limit position)
  return value

/-- As many values as `count` says, one after another. -/
def times {α : Type} (read : Read α) : Nat → Read (List α)
  | 0 => return []
  | count + 1 => do
    let first ← read
    return first :: (← times read count)

/-- A length and that many bytes of UTF-8. -/
def string : Read String := do
  let size ← length
  let position ← here
  let data ← bytes size
  match Utf8.decode data with
  | .ok text => return text
  | .error defect => throw (.invalidUtf8 position defect)

/-- The version tag, which must be `expected`. -/
def version (expected : String) : Read Unit := do
  let actual ← string
  if actual ≠ expected then throw (.versionMismatch expected actual)

/-- Room worth setting aside for `count` elements, each of which takes a byte or more. -/
def reserveHint (c : Cursor) (count : Nat) : Nat := min count c.remaining

end Cursor

end Wirepack
