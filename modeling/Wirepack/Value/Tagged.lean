import Wirepack.Decimal
import Wirepack.Json.Printer
import Wirepack.Value

/-!
# Values as tagged JSON

A self-describing form of a value: an object with one member, whose key says what the
value is, as in `{"Int32":5}`.
-/

namespace Wirepack.Value
set_option autoImplicit false

/-- An object with one member. -/
def single (key text : String) : String := "\x7b" ++ Json.quote key ++ ":" ++ text ++ "\x7d"

mutual

/-- The tagged text of a value. There is none if a record inside has two or more fields,
because their order is not part of the value. -/
def taggedText? : Value → Option String
  | .bool v => some (single "Bool" (if v then "true" else "false"))
  | .int v => some (single "Int32" (toString v.toInt))
  | .long v => some (single "Int64" (toString v.toInt))
  | .float v => some (single "Float32" (if v.isFinite then FloatText.ofFloat32 v else "null"))
  | .double v => some (single "Float64" (if v.isFinite then FloatText.ofFloat v else "null"))
  | .string text => some (single "String" (Json.quote text))
  | .array items => do
    return single "Array" ("[" ++ ",".intercalate (← taggedItems? items) ++ "]")
  | .record [] => some (single "Struct" "\x7b\x7d")
  | .record [(name, v)] => do return single "Struct" (single name (← taggedText? v))
  | .record _ => none

def taggedItems? : List Value → Option (List String)
  | [] => some []
  | item :: rest => do return (← taggedText? item) :: (← taggedItems? rest)

end

/-- The single-precision float nearest to a number. -/
def floatOfNumber : Json.Number → Float32
  | .integer n => if n < 0 then (Int64.ofInt n).toFloat32 else (UInt64.ofNat n.toNat).toFloat32
  | .double x => x.toFloat32

mutual

/-- The value that a tagged JSON value describes. -/
def ofTagged? : Json → Option Value
  | .object [("Bool", .bool v)] => some (.bool v)
  | .object [("Int32", json)] => do
    return .int (← (Value.long (← json.asInt64?)).asInt?)
  | .object [("Int64", json)] => do return .long (← json.asInt64?)
  | .object [("Float32", .number n)] => some (.float (floatOfNumber n))
  | .object [("Float64", .number n)] => some (.double n.toFloat)
  | .object [("String", .string text)] => some (.string text)
  | .object [("Array", .array items)] => do return .array (← ofTaggedItems? items)
  | .object [("Struct", .object members)] => do
    return .record (Keyed.ofList (← ofTaggedMembers? members))
  | _ => none

def ofTaggedItems? : List Json → Option (List Value)
  | [] => some []
  | item :: rest => do return (← ofTagged? item) :: (← ofTaggedItems? rest)

def ofTaggedMembers? : List (String × Json) → Option (List (String × Value))
  | [] => some []
  | (name, json) :: rest => do return (name, ← ofTagged? json) :: (← ofTaggedMembers? rest)

end

end Wirepack.Value
