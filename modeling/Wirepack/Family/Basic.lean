import Wirepack.Schema.Validate
import Wirepack.Value

/-!
# Families of declared messages

A family is a set of message types that a program declares for itself and that may contain
one another. A value of such a type has exactly the declared fields, in declared order and
width. A message may contain itself through arrays, to any depth; a type that contains
itself directly would have no values.

`schema` describes a type and all it contains for use without the family.
-/

namespace Wirepack
set_option autoImplicit false

/-- Message types that refer to one another by name. -/
structure Family where
  declarations : List Definition
  deriving DecidableEq, Repr

namespace Family

/-- The declaration of that name. -/
def get? (family : Family) (name : String) : Option Definition :=
  family.declarations.find? (·.name == name)

/-- Adds `name` and the types it contains to those `known`, depth first, each once. Every
level adds a type, so the size of the family bounds the levels needed. -/
def collect (family : Family) : Nat → List Definition → String → List Definition
  | 0, known, _ => known
  | levels + 1, known, name =>
    if known.any (·.name == name) then known
    else match family.get? name with
      | none => known
      | some d => d.references.foldl (collect family levels) (known ++ [d])

/-- A type and the types it contains. -/
def definitions (family : Family) (name : String) : List Definition :=
  family.collect family.declarations.length [] name

/-- The schema of a declared type, which becomes its root. -/
def schema (family : Family) (d : Definition) : Except Fault Schema :=
  Schema.ofDefinitions d.version (family.definitions d.name)

/-- The initial value of a field: zero, empty, or a message of such. A message contains
others directly to at most as many levels as there are types. -/
def initial (family : Family) : Nat → FieldType → Value
  | _, .int => .int 0
  | _, .long => .long 0
  | _, .float => .float 0
  | _, .double => .double 0
  | _, .bool => .bool false
  | _, .string => .string ""
  | _, .repeated _ => .array []
  | 0, .message _ => .record []
  | levels + 1, .message name =>
    match family.get? name with
    | none => .record []
    | some d => .record (d.fields.map fun f => (f.name, initial family levels f.type))

/-- The initial value of a declared type. -/
def initialOf (family : Family) (d : Definition) : Value :=
  family.initial family.declarations.length (.message d.name)

end Family

end Wirepack
