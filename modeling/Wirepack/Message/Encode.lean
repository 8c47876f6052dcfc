import Wirepack.Config
import Wirepack.Schema.Validate
import Wirepack.Value
import Wirepack.Wire.Buffer

/-!
# Encoding messages

The body of a message is its fields in declared order, without names: scalars by the
rules of the wire, an array as its count and elements, a nested message as its body. A
payload is the version tag of the message and its body.

Fields that the schema does not declare are not written. An `int` field takes an integer of
either width if it fits, a `long` field any integer, a `float` or `double` field any number.
-/

namespace Wirepack
set_option autoImplicit false

/-- A write. What was written before a fault stays in the buffer. -/
abbrev Write := EStateM Fault Buffer

namespace Message

/-- How a value that a type does not accept is described. -/
def found (type : FieldType) (value : Value) : String :=
  match type, value with
  | .int, .long v => "long " ++ toString v.toInt ++ " out of int range"
  | _, _ => value.typeName

/-- Writes what a type accepts of a value. -/
def putAccepted {α : Type} (put : Buffer → α → Buffer) (path : Path) (type : FieldType) (value : Value)
    (accepted : Option α) : Write Unit :=
  match accepted with
  | some a => modify (put · a)
  | none => throw (.typeMismatch path type (found type value))

/-- Writes the fields that `d` declares, each by `putValue`. -/
def putFields (putValue : Path → FieldType → Value → Write Unit) (d : Definition) (path : Path)
    (record : Record) : Write Unit :=
  d.fields.forM fun f =>
    match record.get? f.name with
    | none => throw (.missingField d.name f.name)
    | some value => putValue (path.field f.name) f.type value

/-- Writes the value at `path`, with at most `levels` arrays and messages inside one
another. -/
def putValue (schema : Schema) : Nat → Path → FieldType → Value → Write Unit
  | _, path, .int, v => putAccepted Buffer.putInt path .int v v.asInt?
  | _, path, .long, v => putAccepted Buffer.putLong path .long v v.asLong?
  | _, path, .float, v => putAccepted Buffer.putFloat path .float v v.asFloat?
  | _, path, .double, v => putAccepted Buffer.putDouble path .double v v.asDouble?
  | _, path, .bool, v => putAccepted Buffer.putBool path .bool v v.asBool?
  | _, path, .string, v => putAccepted Buffer.putString path .string v v.asString?
  | 0, path, .repeated _, _ => throw (.tooDeep path.render)
  | levels + 1, path, .repeated item, v =>
    match v.asArray? with
    | none => throw (.typeMismatch path (.repeated item) (found (.repeated item) v))
    | some items => do
      modify (·.putLength items.length)
      items.zipIdx.forM fun (element, i) => putValue schema levels (path.index i) item element
  | levels, path, .message name, v =>
    match v.asRecord? with
    | none => throw (.typeMismatch path (.message name) (found (.message name) v))
    | some record => do
      let d ← MonadExcept.ofExcept (schema.require name)
      match levels with
      | 0 => throw (.tooDeep d.name)
      | levels + 1 => putFields (putValue schema levels) d path record

/-- Writes the body of a message. -/
def putBody (schema : Schema) (d : Definition) (record : Record) : Write Unit :=
  putFields (putValue schema Schema.maxDepth) d .top record

/-- Appends the body of a message of that type. On a fault the buffer is left as it was,
except for the room it has gained. -/
def append (schema : Schema) (type : String) (record : Record) : Write Unit := fun b =>
  match (do putBody schema (← MonadExcept.ofExcept (schema.require type)) record : Write Unit) b with
  | .ok () after => .ok () after
  | .error fault after => .error fault (after.truncate b.length)

/-- The payload of a message of that type. -/
def encode (schema : Schema) (config : Config) (type : String) (record : Record) :
    Except Fault Bytes := do
  let d ← schema.require type
  match putBody schema d record ((Buffer.withCapacity config.initialCapacity).putString d.version) with
  | .ok () b => return b.bytes
  | .error fault _ => throw fault

end Message

end Wirepack
