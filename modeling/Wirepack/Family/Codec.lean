import Wirepack.Config
import Wirepack.Family.Basic
import Wirepack.Wire.Buffer
import Wirepack.Wire.Cursor

/-!
# Encoding and decoding declared messages

A value of a declared type carries the width and order of all it contains, so writing it
needs no types and cannot fail. Reading follows the declarations. Neither has a limit on
depth: an array takes at least the byte of its count, so the payload bounds the nesting.
-/

namespace Wirepack
set_option autoImplicit false

namespace Value

mutual

/-- Appends a value as it stands. -/
def put : Value → Buffer → Buffer
  | .bool v, b => b.putBool v
  | .int v, b => b.putInt v
  | .long v, b => b.putLong v
  | .float v, b => b.putFloat v
  | .double v, b => b.putDouble v
  | .string text, b => b.putString text
  | .array items, b => putItems items (b.putLength items.length)
  | .record fields, b => putFields fields b

def putItems : List Value → Buffer → Buffer
  | [], b => b
  | item :: rest, b => putItems rest (put item b)

def putFields : List (String × Value) → Buffer → Buffer
  | [], b => b
  | (_, v) :: rest, b => putFields rest (put v b)

end

end Value

namespace Family

/-- The payload of a value of the declared type. -/
def encode (d : Definition) (config : Config) (value : Value) : Bytes :=
  (value.put ((Buffer.withCapacity config.initialCapacity).putString d.version)).bytes

/-- Reads a field, with at most `levels` arrays and messages inside one another. -/
def readField (family : Family) (limit : Nat) : Nat → FieldType → Read Value
  | _, .int => return .int (← Cursor.int)
  | _, .long => return .long (← Cursor.long)
  | _, .float => return .float (← Cursor.float)
  | _, .double => return .double (← Cursor.double)
  | _, .bool => return .bool (← Cursor.bool)
  | _, .string => return .string (← Cursor.string)
  | 0, type => throw (.tooDeep type.name)
  | levels + 1, .repeated item => do
    let count ← Cursor.count limit
    return .array (← Cursor.times (readField family limit levels item) count)
  | levels + 1, .message name =>
    match family.get? name with
    | none => throw (.typeNotFound name)
    | some d => return .record (← d.fields.mapM fun f => do
        return (f.name, ← readField family limit levels f.type))

/-- More levels than a payload with `remaining` bytes left can have: each array takes a
byte, and fewer messages than there are types contain one another directly. -/
def levels (family : Family) (remaining : Nat) : Nat :=
  (remaining + 1) * (family.declarations.length + 1)

/-- Reads a value of the declared type, without a version tag. -/
def readBody (family : Family) (limit : Nat) (d : Definition) : Read Value := fun c =>
  family.readField limit (family.levels c.remaining) (.message d.name) c

/-- Reads the version tag, which must be that of the type, and the value. -/
def read (family : Family) (limit : Nat) (d : Definition) : Read Value := do
  Cursor.version d.version
  family.readBody limit d

/-- The value at the start of a payload. -/
def decode (family : Family) (config : Config) (d : Definition) (data : Bytes) : Except Fault Value :=
  match family.read config.maxCollection d (.start data) with
  | .ok value _ => .ok value
  | .error fault _ => .error fault

end Family

end Wirepack
