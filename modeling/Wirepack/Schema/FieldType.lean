/-!
# Field types and their names

A field holds a scalar, another message, or an array of some field type. In text a
type is its base name followed by one `[]` per array layer; scalars have a keyword
and some an alias.
-/

namespace Wirepack
set_option autoImplicit false

/-- The type of a message field. -/
inductive FieldType where
  | int
  | long
  | float
  | double
  | bool
  | string
  /-- A nested message, by name. -/
  | message (name : String)
  /-- An array of `item`. -/
  | repeated (item : FieldType)
  deriving DecidableEq, Repr

namespace FieldType

/-- The scalar that a keyword or alias names. -/
def scalar? : String → Option FieldType
  | "int" | "int32" => some .int
  | "long" | "int64" => some .long
  | "float" | "float32" => some .float
  | "double" | "float64" => some .double
  | "bool" | "boolean" => some .bool
  | "string" => some .string
  | _ => none

/-- `dims` array layers around `type`. -/
def nest : Nat → FieldType → FieldType
  | 0, type => type
  | dims + 1, type => nest dims (.repeated type)

/-- Counts the `[]` pairs at the front of a reversed name, from `dims` on. -/
def stripPairs (dims : Nat) : List Char → List Char × Nat
  | ']' :: '[' :: rest => stripPairs (dims + 1) rest
  | rest => (rest, dims)

/-- A type name as its base and the number of `[]` pairs that end it. -/
def split (name : String) : String × Nat :=
  let (base, dims) := stripPairs 0 name.toList.reverse
  (String.ofList base.reverse, dims)

/-- The type a name stands for; a base that is no scalar names a message. -/
def ofName (name : String) : FieldType :=
  let (base, dims) := split name
  nest dims ((scalar? base).getD (.message base))

/-- The canonical name of a type. -/
def name : FieldType → String
  | .int => "int"
  | .long => "long"
  | .float => "float"
  | .double => "double"
  | .bool => "bool"
  | .string => "string"
  | .message name => name
  | .repeated item => item.name ++ "[]"

/-- The type below every array layer. -/
def base : FieldType → FieldType
  | .repeated item => item.base
  | type => type

/-- The number of array layers. -/
def dimensions : FieldType → Nat
  | .repeated item => item.dimensions + 1
  | _ => 0

/-- The message a type refers to, through any number of array layers. -/
def messageName? : FieldType → Option String
  | .message name => some name
  | .repeated item => item.messageName?
  | _ => none

/-- Neither a message nor an array. -/
def isScalar : FieldType → Bool
  | .message _ | .repeated _ => false
  | _ => true

/-- One of the two fixed-point types. -/
def isFloat : FieldType → Bool
  | .float | .double => true
  | _ => false

end FieldType

end Wirepack
