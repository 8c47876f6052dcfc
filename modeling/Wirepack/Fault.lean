import Wirepack.Path
import Wirepack.Schema.Basic
import Wirepack.Text.Utf8

/-!
# Faults

Every way in which reading, writing or checking can fail, as a cause. The wording is
in `message`, the key and value pairs for a log line in `details`.
-/

namespace Wirepack
set_option autoImplicit false

/-- Why an operation failed. Positions are byte offsets into the payload. -/
inductive Fault where
  /-- The payload starts with another version tag than the message's. -/
  | versionMismatch (expected actual : String)
  /-- More bytes were asked for at `position` than are left there. -/
  | underflow (requested available position : Nat)
  /-- The varint at `position` does not end within ten bytes. -/
  | malformedVarint (position : Nat)
  /-- The length at `position` is negative. -/
  | invalidLength (length : Int64) (position : Nat)
  /-- The element count at `position` is above the configured limit. -/
  | lengthExceeded (length limit position : Nat)
  /-- The string whose bytes start at `position` is not UTF-8. -/
  | invalidUtf8 (position : Nat) (defect : Utf8.Defect)
  /-- A declared field is absent. -/
  | missingField (message field : String)
  /-- The value at `path` cannot stand for the declared type. -/
  | typeMismatch (path : Path) (expected : FieldType) (actual : String)
  /-- No message of that name is defined. -/
  | typeNotFound (name : String)
  /-- The schema, or the part of it called `name`, has a defect. -/
  | invalidSchema (name : String) (defect : Schema.Defect)
  /-- A text of the kind `context` cannot be read. -/
  | unreadable (context message : String)
  /-- A file could not be read or written. -/
  | io (message : String)
  deriving DecidableEq, Repr

namespace Fault

/-- The fault of exceeding `Schema.maxDepth`, at the message or type `name`. -/
def tooDeep (name : String) : Fault := .invalidSchema name .tooDeep

def message : Fault → String
  | .versionMismatch expected actual => s!"Version mismatch: expected '{expected}', got '{actual}'"
  | .underflow requested available position =>
    s!"Buffer underflow: requested {requested} bytes at position {position}, " ++
      s!"but only {available} bytes available"
  | .malformedVarint position => s!"Malformed varint at position {position}: exceeds 10 bytes"
  | .invalidLength length position => s!"Invalid length {length.toInt} at position {position}"
  | .lengthExceeded length limit position =>
    s!"Length {length} exceeds limit {limit} at position {position}"
  | .invalidUtf8 position defect =>
    s!"Invalid UTF-8 string at position {position}: " ++ defect.message
  | .missingField message field => s!"Missing field '{field}' in message '{message}'"
  | .typeMismatch path expected actual =>
    "Type mismatch for field '" ++ path.render ++ "': expected " ++ expected.name ++ ", got " ++ actual
  | .typeNotFound name => s!"Type not found: '{name}'"
  | .invalidSchema name defect => s!"Invalid schema '{name}': " ++ defect.reason
  | .unreadable context message => s!"Parse error in {context}: {message}"
  | .io message => s!"I/O error: {message}"

/-- The parts of a fault by name, as a log line lists them. -/
def details : Fault → List (String × String)
  | .versionMismatch expected actual => [("expected", expected), ("actual", actual)]
  | .underflow requested available position =>
    [("requested", toString requested), ("available", toString available),
      ("position", toString position)]
  | .malformedVarint position => [("position", toString position)]
  | .invalidLength length position =>
    [("length", toString length.toInt), ("position", toString position)]
  | .lengthExceeded length limit position =>
    [("length", toString length), ("limit", toString limit), ("position", toString position)]
  | .invalidUtf8 position defect => [("position", toString position), ("message", defect.message)]
  | .missingField message field => [("message", message), ("field", field)]
  | .typeMismatch path expected actual =>
    [("field", path.render), ("expected", expected.name), ("actual", actual)]
  | .typeNotFound name => [("type", name)]
  | .invalidSchema name defect => [("schema", name), ("reason", defect.reason)]
  | .unreadable context message => [("context", context), ("message", message)]
  | .io message => [("message", message)]

/-- Whether the fault says that a payload, rather than a message or schema, is bad. -/
def isPayloadFault : Fault → Bool
  | .versionMismatch .. | .underflow .. | .malformedVarint .. | .invalidLength ..
  | .lengthExceeded .. | .invalidUtf8 .. => true
  | _ => false

end Fault

end Wirepack
