import Wirepack.Fault

/-!
# Building and checking schemas

`add` keeps message names apart. `validate` checks the rest: there is a message, the
fields of each have distinct names, known types and no more array layers than allowed,
and no message contains itself, directly or through others.
-/

namespace Wirepack.Schema
set_option autoImplicit false

/-- The definition of that name, which must exist. -/
def require (schema : Schema) (name : String) : Except Fault Definition :=
  match schema.get? name with
  | some d => .ok d
  | none => .error (.typeNotFound name)

/-- The name of the first message, which must exist. -/
def rootName (schema : Schema) : Except Fault String :=
  match schema.root? with
  | some d => .ok d.name
  | none => .error (.invalidSchema "schema" .noMessages)

/-- Adds a message at the end. -/
def add (schema : Schema) (d : Definition) : Except Fault Schema :=
  if schema.contains d.name then .error (.invalidSchema d.name .duplicateMessage)
  else .ok { schema with messages := schema.messages ++ [d] }

/-- The first defect among the fields of `owner`; `seen` are the names before them. -/
def checkFields (schema : Schema) (owner : String) : List String → List Field → Except Fault Unit
  | _, [] => .ok ()
  | seen, f :: rest =>
    if f.name ∈ seen then .error (.invalidSchema owner (.duplicateField f.name))
    else if maxDimensions < f.type.dimensions then
      .error (.invalidSchema owner (.tooManyDimensions f.name))
    else match f.type.messageName? with
      | none => checkFields schema owner (f.name :: seen) rest
      | some target =>
        if schema.contains target then checkFields schema owner (f.name :: seen) rest
        else .error (.invalidSchema owner (.unknownType target f.name))

/-- The ring that closes when `name` is met again below itself: `path` leads from the
innermost message outwards. -/
def ring (path : List String) (name : String) : List String :=
  name :: (path.takeWhile (· ≠ name)).reverse ++ [name]

/-- The definitions whose names are not on `path`. -/
def offPath (schema : Schema) (path : List String) : List Definition :=
  schema.messages.filter fun d => d.name ∉ path

theorem offPath_cons_lt {schema : Schema} {path : List String} {name : String} {d : Definition}
    (found : schema.get? name = some d) (fresh : name ∉ path) :
    (schema.offPath (name :: path)).length < (schema.offPath path).length := by
  have member : d ∈ schema.messages := List.mem_of_find?_eq_some found
  have named : d.name = name := by simpa using List.find?_some found
  have shrink : schema.offPath (name :: path) = (schema.offPath path).filter (·.name ≠ name) := by
    simp [offPath, List.filter_filter]
  rw [shrink]
  exact List.length_filter_lt_length_iff_exists.2
    ⟨d, by simp [offPath, member, named, fresh], by simp [named]⟩

/-- Walks the references below `name` depth first. `path` holds the messages being
walked and `done` those known to lead into no ring; the result is `done` with the
messages walked added. -/
def walk (schema : Schema) (path done : List String) (name : String) : Except Fault (List String) :=
  if name ∈ done then .ok done
  else if onPath : name ∈ path then .error (.invalidSchema name (.cycle (ring path name)))
  else match found : schema.get? name with
    | none => .ok done
    | some d => do
      have := offPath_cons_lt found onPath
      let done ← d.references.foldlM (fun done target => walk schema (name :: path) done target) done
      return name :: done
termination_by (schema.offPath path).length

/-- Refuses references that form a ring. -/
def checkRings (schema : Schema) : Except Fault Unit := do
  let _ ← schema.messages.foldlM (fun done d => walk schema [] done d.name) []

/-- The first defect of a schema, if it has one. -/
def validate (schema : Schema) : Except Fault Unit := do
  if schema.messages.isEmpty then throw (.invalidSchema "schema" .noMessages)
  schema.messages.forM fun d => checkFields schema d.name [] d.fields
  checkRings schema

/-- The valid schema of these messages. -/
def ofDefinitions (version : String) (definitions : List Definition) : Except Fault Schema := do
  let schema ← definitions.foldlM add (empty version)
  schema.validate
  return schema

end Wirepack.Schema
