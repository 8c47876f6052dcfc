import Wirepack.Decimal
import Wirepack.Json.Printer
import Wirepack.Json.Reader
import Wirepack.Message.Decode
import Wirepack.Message.Encode

/-!
# Messages as JSON

JSON numbers have no width, so the declared type decides which value a number becomes.
`ofJson` needs every declared field and ignores all others; `toJson` writes the declared
fields in declared order, and accepts the same widenings as encoding does.
-/

namespace Wirepack.Message
set_option autoImplicit false

/-! ## From JSON -/

/-- The path that a mismatch is reported for: a value at the top goes by its type. -/
def reported (path : Path) (type : String) : Path :=
  if path.render.isEmpty then Path.top.field type else path

/-- What a type accepts of a JSON value. -/
def accept {α : Type} (path : Path) (type : FieldType) (json : Json) (accepted : Option α) :
    Except Fault α :=
  match accepted with
  | some a => .ok a
  | none => .error (.typeMismatch path type json.kind)

/-- A 64-bit integer that fits 32 bits. -/
def narrow? (value : Int64) : Option Int32 := (Value.long value).asInt?

mutual

/-- The value of a declared type that a JSON value stands for. -/
def valueOfJson (schema : Schema) (path : Path) : FieldType → Json → Except Fault Value
  | .int, json => return .int (← accept path .int json (json.asInt64?.bind narrow?))
  | .long, json => return .long (← accept path .long json json.asInt64?)
  | .float, json => return .float (← accept path .float json json.asFloat?).toFloat32
  | .double, json => return .double (← accept path .double json json.asFloat?)
  | .bool, .bool value => .ok (.bool value)
  | .string, .string text => .ok (.string text)
  | .repeated item, .array items => return .array (← itemsOfJson schema path item 0 items)
  | .message name, json => return .record (← recordOfJson schema path name json)
  | type, json => .error (.typeMismatch path type json.kind)
termination_by _ json => (sizeOf json, 1)

/-- The elements of an array, of which the first stands at `position`. -/
def itemsOfJson (schema : Schema) (path : Path) (item : FieldType) (position : Nat) :
    List Json → Except Fault (List Value)
  | [] => .ok []
  | json :: rest => do
    let value ← valueOfJson schema (path.index position) item json
    return value :: (← itemsOfJson schema path item (position + 1) rest)
termination_by items => (sizeOf items, 0)

/-- The message of that type that a JSON object stands for. -/
def recordOfJson (schema : Schema) (path : Path) (type : String) (json : Json) :
    Except Fault Record := do
  let d ← schema.require type
  match json with
  | .object members =>
    let fields ← d.fields.mapM fun f =>
      match found : Json.member? members f.name with
      | none => .error (.missingField d.name f.name)
      | some value => do
        have := Json.sizeOf_member_lt found
        return (f.name, ← valueOfJson schema (path.field f.name) f.type value)
    return Keyed.ofList fields
  | json => .error (.typeMismatch (reported path type) (.message type) json.kind)
termination_by (sizeOf json, 0)

end

/-- The message of that type that a JSON value stands for. -/
def ofJson (schema : Schema) (type : String) (json : Json) : Except Fault Record :=
  recordOfJson schema .top type json

/-- The message of that type in a JSON text, by a reader of such texts. -/
def ofJsonTextWith (parse : String → Except String Json) (schema : Schema) (type : String) (text : String) :
    Except Fault Record := do
  match parse text with
  | .ok json => ofJson schema type json
  | .error message => throw (.unreadable "json" message)

/-- The message of that type in a JSON text. -/
def ofJsonText : Schema → String → String → Except Fault Record := ofJsonTextWith Json.parse

/-! ## To JSON -/

/-- A scalar as JSON, or none if the type does not accept it. -/
def scalarToJson? : FieldType → Value → Option Json
  | .bool, .bool v => some (.bool v)
  | .string, .string text => some (.string text)
  | .float, .float v => some (if v.isFinite then Json.ofFloat (Decimal.widen v) else .null)
  | .int, v => v.asInt?.map fun n => .ofInt n.toInt
  | .long, v => v.asLong?.map fun n => .ofInt n.toInt
  | .float, v | .double, v => v.asDouble?.map Json.ofFloat
  | _, _ => none

mutual

/-- A value of a declared type as JSON. -/
def valueToJson (schema : Schema) (path : Path) : FieldType → Value → Except Fault Json
  | .repeated item, .array items => return .array (← itemsToJson schema path item 0 items)
  | .message name, .record fields => recordToJson schema path name fields
  | type, v =>
    match scalarToJson? type v with
    | some json => .ok json
    | none => .error (.typeMismatch path type v.typeName)
termination_by _ v => (sizeOf v, 0)

/-- The elements of an array, of which the first stands at `position`. -/
def itemsToJson (schema : Schema) (path : Path) (item : FieldType) (position : Nat) :
    List Value → Except Fault (List Json)
  | [] => .ok []
  | v :: rest => do
    let json ← valueToJson schema (path.index position) item v
    return json :: (← itemsToJson schema path item (position + 1) rest)
termination_by items => (sizeOf items, 0)

/-- A message of that type as a JSON object. -/
def recordToJson (schema : Schema) (path : Path) (type : String) (record : Record) :
    Except Fault Json := do
  let d ← schema.require type
  let members ← d.fields.mapM fun f =>
    match found : record.get? f.name with
    | none => .error (.missingField d.name f.name)
    | some value => do
      have := Value.sizeOf_field_lt found
      return (f.name, ← valueToJson schema (path.field f.name) f.type value)
  return .object (Keyed.ofList members)
termination_by (sizeOf record, 0)

end

/-- A message of that type as JSON. -/
def toJson (schema : Schema) (type : String) (record : Record) : Except Fault Json :=
  recordToJson schema .top type record

/-! ## Payloads -/

/-- The payload of the message in a JSON text, by a reader of such texts. -/
def encodeJsonWith (parse : String → Except String Json) (schema : Schema) (config : Config) (type : String)
    (text : String) : Except Fault Bytes := do
  encode schema config type (← ofJsonTextWith parse schema type text)

/-- The payload of the message in a JSON text. -/
def encodeJson : Schema → Config → String → String → Except Fault Bytes := encodeJsonWith Json.parse

/-- The message in a payload, as JSON. -/
def decodeJson (schema : Schema) (config : Config) (type : String) (data : Bytes) :
    Except Fault Json := do
  toJson schema type (← decode schema config type data)

end Wirepack.Message
