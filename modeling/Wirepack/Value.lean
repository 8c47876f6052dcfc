import Wirepack.Double
import Wirepack.Keyed

/-!
# Message values

A value is a scalar of a definite width, an array, or a record of named values. A message
is a record; the order of its fields means nothing.
-/

namespace Wirepack
set_option autoImplicit false

inductive Value where
  | bool (value : Bool)
  | int (value : Int32)
  | long (value : Int64)
  | float (value : Float32)
  | double (value : Float)
  | string (text : String)
  | array (items : List Value)
  | record (fields : List (String × Value))
  deriving Inhabited

/-- The fields of a message by name. -/
abbrev Record := Keyed Value

namespace Value

/-- The type that a value is of, in words. -/
def typeName : Value → String
  | .bool _ => "bool"
  | .int _ => "int"
  | .long _ => "long"
  | .float _ => "float"
  | .double _ => "double"
  | .string _ => "string"
  | .array _ => "array"
  | .record _ => "struct"

/-- The nearest double to any number. -/
def asDouble? : Value → Option Float
  | .int v => some (Double.ofInt v.toInt)
  | .long v => some (Double.ofInt v.toInt)
  | .float v => some (Double.ofSingle v)
  | .double v => some v
  | _ => none

/-- A single-precision float as it is, any other number rounded. -/
def asFloat? : Value → Option Float32
  | .float v => some v
  | v => v.asDouble?.map Double.toSingle

/-- An integer of either width. -/
def asLong? : Value → Option Int64
  | .int v => some v.toInt64
  | .long v => some v
  | _ => none

/-- An integer of either width that fits 32 bits. -/
def asInt? (value : Value) : Option Int32 :=
  match value.asLong? with
  | some v => if -0x80000000 ≤ v.toInt ∧ v.toInt < 0x80000000 then some v.toInt32 else none
  | none => none

def asBool? : Value → Option Bool
  | .bool v => some v
  | _ => none

def asString? : Value → Option String
  | .string text => some text
  | _ => none

theorem sizeOf_field_lt {fields : Record} {name : String} {value : Value}
    (found : fields.get? name = some value) : sizeOf value < sizeOf fields := by
  have := List.sizeOf_lt_of_mem (Keyed.mem_of_get? found)
  simp only [Prod.mk.sizeOf_spec] at this
  omega

def asArray? : Value → Option (List Value)
  | .array items => some items
  | _ => none

def asRecord? : Value → Option Record
  | .record fields => some fields
  | _ => none

mutual

/-- Whether two values are the same: of one type throughout, floats compared as numbers,
records by name. -/
def same : Value → Value → Bool
  | .bool a, .bool b => a == b
  | .int a, .int b => a == b
  | .long a, .long b => a == b
  | .float a, .float b => a == b
  | .double a, .double b => a == b
  | .string a, .string b => a == b
  | .array as, .array bs => sameItems as bs
  | .record as, .record bs => as.length == bs.length && sameFields as bs
  | _, _ => false

def sameItems : List Value → List Value → Bool
  | [], [] => true
  | a :: as, b :: bs => same a b && sameItems as bs
  | _, _ => false

/-- Whether every field of the first record is the same in the second. -/
def sameFields : List (String × Value) → Record → Bool
  | [], _ => true
  | (name, a) :: as, bs =>
    match bs.get? name with
    | some b => same a b && sameFields as bs
    | none => false

end

instance : BEq Value := ⟨same⟩

end Value

end Wirepack
