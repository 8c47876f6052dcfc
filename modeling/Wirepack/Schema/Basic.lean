import Wirepack.Schema.FieldType

/-!
# Schemas

A schema is a version and a list of message definitions, of which the first is the
root. Definitions are found by name; `Defect` lists what can be wrong with one.
-/

namespace Wirepack
set_option autoImplicit false

/-- A named, typed field of a message. -/
structure Field where
  name : String
  type : FieldType
  deriving DecidableEq, Repr

/-- A message definition: its fields in wire order and the version tag that its
payloads start with. -/
structure Definition where
  name : String
  version : String
  fields : List Field
  deriving DecidableEq, Repr

namespace Definition

/-- The first field of that name. -/
def field? (d : Definition) (name : String) : Option Field :=
  d.fields.find? (·.name == name)

/-- The messages that the fields refer to, in field order, repeats kept. -/
def references (d : Definition) : List String :=
  d.fields.filterMap (·.type.messageName?)

end Definition

/-- A version and the messages it defines, in order of definition. -/
structure Schema where
  version : String
  messages : List Definition
  deriving DecidableEq, Repr

namespace Schema

/-- The schema without messages. -/
def empty (version : String) : Schema := ⟨version, []⟩

/-- The definition of that name. -/
def get? (schema : Schema) (name : String) : Option Definition :=
  schema.messages.find? (·.name == name)

/-- Whether a message of that name is defined. -/
def contains (schema : Schema) (name : String) : Bool := (schema.get? name).isSome

/-- The first definition. -/
def root? (schema : Schema) : Option Definition := schema.messages.head?

/-- The largest number of array layers a field may have. -/
def maxDimensions : Nat := 64

/-- What is wrong with a schema, or with a message that a schema describes. -/
inductive Defect where
  | noMessages
  | duplicateMessage
  | duplicateField (field : String)
  | tooManyDimensions (field : String)
  | unknownType (target field : String)
  /-- Messages that refer to one another in a ring; the first name is also the last. -/
  | cycle (names : List String)
  /-- More layers of arrays and messages than the wire allows. -/
  | tooDeep
  /-- Any other finding, in words. -/
  | other (text : String)
  deriving DecidableEq, Repr

/-- The largest number of array and message layers below the top message. -/
def maxDepth : Nat := 64

def Defect.reason : Defect → String
  | .noMessages => "no messages defined"
  | .duplicateMessage => "duplicate message definition"
  | .duplicateField field => s!"duplicate field '{field}'"
  | .tooManyDimensions field => s!"field '{field}' has more than {maxDimensions} array dimensions"
  | .unknownType target field => s!"unknown type '{target}' for field '{field}'"
  | .cycle names => "reference cycle: " ++ " -> ".intercalate names
  | .tooDeep => s!"maximum nesting depth exceeded ({maxDepth})"
  | .other text => text

end Schema

end Wirepack
