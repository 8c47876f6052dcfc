import Wirepack.Schema.Text.Grammar
import Wirepack.Schema.Text.Report
import Wirepack.Schema.Validate

/-!
# Reading schema texts

A text that matches the grammar must declare one version and at least one class. All its
messages carry that version as their tag, and the schema they form must be valid.
-/

namespace Wirepack.Schema.Text
set_option autoImplicit false

/-- The fault of a schema text, in words. -/
def unreadable (message : String) : Fault := .unreadable "buff schema" message

/-- What the declarations so far amount to. -/
structure Draft where
  version : Option String := none
  messages : List (String × List Field) := []
  deriving DecidableEq, Repr

/-- A declared field, whose array layers are limited. -/
def FieldText.toField (text : List Char) (f : FieldText) : Except Fault Field :=
  let dims := (FieldType.split f.typeName).2
  if maxDimensions < dims then
    .error <| unreadable <|
      s!"line {lineOf text f.offset}: field '{f.name}' has {dims} array dimensions " ++
        s!"(limit {maxDimensions})"
  else .ok ⟨f.name, FieldType.ofName f.typeName⟩

/-- Adds a declaration to a draft. -/
def Draft.declare (text : List Char) (draft : Draft) : Declaration → Except Fault Draft
  | .version tag =>
    match draft.version with
    | some previous => .error (unreadable s!"version declared twice ('{previous}' and '{tag}')")
    | none => .ok { draft with version := some tag }
  | .message name fields => do
    let fields ← fields.mapM (·.toField text)
    return { draft with messages := draft.messages ++ [(name, fields)] }

/-- The schema of a complete draft. -/
def Draft.toSchema (draft : Draft) : Except Fault Schema :=
  match draft.version with
  | none => .error (unreadable "missing version definition")
  | some version =>
    if draft.messages.isEmpty then .error (unreadable "no classes defined")
    else ofDefinitions version (draft.messages.map fun (name, fields) => ⟨name, version, fields⟩)

/-- The schema that a text declares. -/
def parse (source : String) : Except Fault Schema := do
  let text := source.toList
  match declarations? text with
  | none => throw (unreadable (report text (attempts text)))
  | some declarations =>
    let draft ← declarations.foldlM (Draft.declare text) {}
    draft.toSchema

end Wirepack.Schema.Text
