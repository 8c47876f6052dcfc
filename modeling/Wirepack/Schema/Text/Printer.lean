import Wirepack.Schema.Basic

/-!
# Writing schema texts

The canonical text of a schema: its version, then its messages in order, one field a line.
-/

namespace Wirepack.Schema.Text
set_option autoImplicit false

def fieldLine (f : Field) : String := "    " ++ f.type.name ++ " " ++ f.name ++ ";"

/-- The lines of a message, with a remark after its name. -/
def messageLines (remark : String) (d : Definition) : List String :=
  ("class " ++ d.name ++ remark ++ " \x7b") :: d.fields.map fieldLine ++ ["\x7d"]

/-- The lines of a schema. -/
def lines (schema : Schema) : List String :=
  ("version = " ++ schema.version) :: schema.messages.flatMap (messageLines "")

/-- The canonical text of a schema. -/
def print (schema : Schema) : String := String.join ((lines schema).map (· ++ "\n"))

end Wirepack.Schema.Text
