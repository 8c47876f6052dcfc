/-!
# Which rules failed where

When a schema text does not match its grammar, the report names the furthest place at
which a named rule failed and the rules that failed there. `Attempts` collects this
while the grammar is tried.
-/

namespace Wirepack.Schema.Text
set_option autoImplicit false

/-- The named rules, in the order in which a report lists them. -/
inductive Rule where
  | endOfInput
  | ident
  | keywordVersion
  | keywordClass
  | versionTag
  | versionDecl
  | typeRef
  | fieldDecl
  | classDecl
  | schema
  deriving DecidableEq, Repr

namespace Rule

/-- All rules in order. -/
def all : List Rule :=
  [.endOfInput, .ident, .keywordVersion, .keywordClass, .versionTag, .versionDecl, .typeRef,
    .fieldDecl, .classDecl, .schema]

def name : Rule → String
  | .endOfInput => "EOI"
  | .ident => "ident"
  | .keywordVersion => "keyword_version"
  | .keywordClass => "keyword_class"
  | .versionTag => "version_tag"
  | .versionDecl => "version_decl"
  | .typeRef => "type_ref"
  | .fieldDecl => "field_decl"
  | .classDecl => "class_decl"
  | .schema => "schema"

end Rule

/-- The furthest offset at which rules failed, and those rules in order of failure. -/
structure Attempts where
  offset : Nat := 0
  rules : List Rule := []
  deriving DecidableEq, Repr

namespace Attempts

/-- How many failures are on record for an offset. -/
def count (a : Attempts) (offset : Nat) : Nat := if offset = a.offset then a.rules.length else 0

/-- Records that `rule`, tried at `offset`, failed; `before` is what `count` gave when
it started. A rule with exactly one failure inside it at the same place leaves that one
to speak for it; with several it replaces them. -/
def fail (a : Attempts) (rule : Rule) (offset before : Nat) : Attempts :=
  if a.count offset = before + 1 then a
  else if offset = a.offset then ⟨offset, a.rules.take before ++ [rule]⟩
  else if a.offset < offset then ⟨offset, [rule]⟩
  else a

/-- The rules on record without repeats, in order. -/
def expected (a : Attempts) : List Rule := Rule.all.filter (· ∈ a.rules)

end Attempts

end Wirepack.Schema.Text
