import Wirepack.Json.Basic
import Wirepack.Schema.Basic

/-!
# Schemas as JSON documents
-/

namespace Wirepack
set_option autoImplicit false

def Field.toJson (f : Field) : Json :=
  .object [("name", .string f.name), ("type", .string f.type.name)]

def Definition.toJson (d : Definition) : Json :=
  .object [("name", .string d.name), ("version_tag", .string d.version),
    ("fields", .array (d.fields.map Field.toJson))]

def Schema.toJson (schema : Schema) : Json :=
  .object [("version", .string schema.version),
    ("messages", .array (schema.messages.map Definition.toJson))]

end Wirepack
