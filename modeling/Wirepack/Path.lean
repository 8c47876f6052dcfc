/-!
# Where a value stands inside a message

A path is the list of steps from the top message down: into a named field, or to an
element of an array. `render` writes `pos.points[2].x`.
-/

namespace Wirepack
set_option autoImplicit false

/-- One step into a message. -/
inductive Step where
  | field (name : String)
  | index (position : Nat)
  deriving DecidableEq, Repr

/-- The steps from the top message to a value, outermost first. -/
structure Path where
  steps : List Step
  deriving DecidableEq, Repr

namespace Path

/-- The top message itself. -/
def top : Path := ⟨[]⟩

/-- The field `name` of the message at `path`. -/
def field (path : Path) (name : String) : Path := ⟨path.steps ++ [.field name]⟩

/-- The element at `position` of the array at `path`. -/
def index (path : Path) (position : Nat) : Path := ⟨path.steps ++ [.index position]⟩

/-- Extends a written path by a step. A dot stands between a field and what comes
before it, if anything does. -/
def extend (written : String) : Step → String
  | .field name => if written.isEmpty then name else written ++ "." ++ name
  | .index position => written ++ "[" ++ toString position ++ "]"

/-- The written form of a path. -/
def render (path : Path) : String := path.steps.foldl extend ""

end Path

end Wirepack
