import Wirepack.Config
import Wirepack.Schema.Validate
import Wirepack.Value
import Wirepack.Wire.Cursor

/-!
# Decoding messages

The inverse of encoding: the declared types say what to read, and each value comes back in
the width that its field declares. Bytes after the message are left alone.
-/

namespace Wirepack.Message
set_option autoImplicit false

/-- Reads the fields that `d` declares, each by `readValue`. -/
def readFields (readValue : FieldType → Read Value) (d : Definition) : Read Record := do
  return Keyed.ofList (← d.fields.mapM fun f => do return (f.name, ← readValue f.type))

/-- Reads a value, with at most `levels` arrays and messages inside one another. -/
def readValue (schema : Schema) (limit : Nat) : Nat → FieldType → Read Value
  | _, .int => return .int (← Cursor.int)
  | _, .long => return .long (← Cursor.long)
  | _, .float => return .float (← Cursor.float)
  | _, .double => return .double (← Cursor.double)
  | _, .bool => return .bool (← Cursor.bool)
  | _, .string => return .string (← Cursor.string)
  | 0, .repeated item => throw (.tooDeep (FieldType.repeated item).name)
  | levels + 1, .repeated item => do
    let count ← Cursor.count limit
    return .array (← Cursor.times (readValue schema limit levels item) count)
  | levels, .message name => do
    let d ← MonadExcept.ofExcept (schema.require name)
    match levels with
    | 0 => throw (.tooDeep d.name)
    | levels + 1 => return .record (← readFields (readValue schema limit levels) d)

/-- Reads the body of a message of that type. -/
def readBody (schema : Schema) (limit : Nat) (type : String) : Read Record := do
  let d ← MonadExcept.ofExcept (schema.require type)
  readFields (readValue schema limit Schema.maxDepth) d

/-- Reads the version tag, which must be that of the type, and the body. -/
def read (schema : Schema) (limit : Nat) (type : String) : Read Record := do
  let d ← MonadExcept.ofExcept (schema.require type)
  Cursor.version d.version
  readFields (readValue schema limit Schema.maxDepth) d

/-- The message at the start of a payload. -/
def decode (schema : Schema) (config : Config) (type : String) (data : Bytes) : Except Fault Record :=
  match read schema config.maxCollection type (.start data) with
  | .ok record _ => .ok record
  | .error fault _ => .error fault

/-- The version tag that a payload starts with, and the offset of the body. -/
def peekVersion (data : Bytes) : Except Fault (String × Nat) :=
  match Cursor.string (.start data) with
  | .ok version after => .ok (version, after.position)
  | .error fault _ => .error fault

end Wirepack.Message
