import Wirepack.Schema.Text.Attempts

/-!
# The grammar of schema texts

A text is a sequence of declarations:

```text
version = 1.0.0
class Guild {
    string name;
    Character[] members;
}
```

Blanks and `//` comments may stand between tokens. The rules are written once, for any
`Matching` interpretation: `Match` only decides what a text declares, `Trial` also
records the failures that a report needs.
-/

namespace Wirepack.Schema.Text
set_option autoImplicit false

/-- A field as declared, with the offset of its type in the text. -/
structure FieldText where
  offset : Nat
  typeName : String
  name : String
  deriving DecidableEq, Repr

/-- One declaration of a schema text. -/
inductive Declaration where
  | version (tag : String)
  | message (name : String) (fields : List FieldText)
  deriving DecidableEq, Repr

/-- What is left of a text, and how many characters stand before it. -/
structure Input where
  offset : Nat
  rest : List Char
  deriving DecidableEq, Repr

/-- The input `count` characters further on, where `rest` is what is left. -/
def Input.advance (input : Input) (count : Nat) (rest : List Char) : Input :=
  ⟨input.offset + count, rest⟩

/-! ## Characters -/

def isBlank (c : Char) : Bool := c == ' ' || c == '\t' || c == '\r' || c == '\n'

def isLetter (c : Char) : Bool := ('a' ≤ c && c ≤ 'z') || ('A' ≤ c && c ≤ 'Z')

def isIdentStart (c : Char) : Bool := isLetter c || c == '_'

def isIdentChar (c : Char) : Bool := isIdentStart c || ('0' ≤ c && c ≤ '9')

def isTagChar (c : Char) : Bool := isIdentChar c || c == '.'

/-- Skips blanks and comments; a comment runs to the end of its line. -/
def skipBlanks (inComment : Bool) (offset : Nat) : List Char → Input
  | [] => ⟨offset, []⟩
  | '/' :: '/' :: rest => skipBlanks true (offset + 2) rest
  | c :: rest =>
    if inComment then skipBlanks (c != '\n') (offset + 1) rest
    else if isBlank c then skipBlanks false (offset + 1) rest
    else ⟨offset, c :: rest⟩

/-- The number of `[]` pairs in front, added to `pairs`, and what follows them. -/
def takePairs (pairs : Nat) : List Char → Nat × List Char
  | '[' :: ']' :: rest => takePairs (pairs + 1) rest
  | rest => (pairs, rest)

/-! ## Rules -/

/-- The steps that grammar rules are made of. A failing rule consumes nothing. -/
class Matching (m : Type → Type) extends Monad m, Alternative m where
  /-- What is left of the text. -/
  input : m Input
  /-- Goes on from there. -/
  goOn : Input → m Unit
  /-- Tries a named rule. -/
  named {α : Type} : Rule → m α → m α

section Rules

variable {m : Type → Type} [Matching m]

open Matching (input goOn named)

/-- Skips blanks and comments. -/
def blanks : m Unit := do
  let here ← input
  goOn (skipBlanks false here.offset here.rest)

/-- The longest run of one or more characters of which the first satisfies `first` and
the others `more`. -/
def run (first more : Char → Bool) : m (List Char) := do
  let here ← input
  match here.rest with
  | [] => failure
  | c :: rest =>
    if first c then
      let word := c :: rest.takeWhile more
      goOn (here.advance word.length (rest.dropWhile more))
      return word
    else failure

/-- Exactly these characters. -/
def literal (text : List Char) : m Unit := do
  let here ← input
  if text.isPrefixOf here.rest then
    goOn (here.advance text.length (here.rest.drop text.length))
  else failure

/-- These characters, and no identifier character after them. -/
def keyword (text : List Char) : m Unit := do
  literal text
  let here ← input
  if here.rest.head?.any isIdentChar then failure

def ident : m String := named .ident do
  return String.ofList (← run isIdentStart isIdentChar)

def versionTag : m String := named .versionTag do
  return String.ofList (← run isTagChar isTagChar)

/-- A name and its `[]` pairs, with nothing between them. -/
def typeRef : m String := named .typeRef do
  let base ← run isIdentStart isIdentChar
  let here ← input
  let (pairs, rest) := takePairs 0 here.rest
  goOn (here.advance (2 * pairs) rest)
  return String.ofList (base ++ (List.replicate pairs ['[', ']']).flatten)

def versionDecl : m Declaration := named .versionDecl do
  named .keywordVersion (keyword ['v', 'e', 'r', 's', 'i', 'o', 'n'])
  blanks
  literal ['=']
  blanks
  return .version (← versionTag)

def fieldDecl : m FieldText := named .fieldDecl do
  let start ← input
  let typeName ← typeRef
  blanks
  let name ← ident
  blanks
  literal [';']
  return ⟨start.offset, typeName, name⟩

/-- At most `bound` items, as many as match. -/
def many {α : Type} (item : m α) : Nat → m (List α)
  | 0 => return []
  | bound + 1 =>
    (do
      let first ← item
      let others ← many item bound
      return first :: others) <|> return []

/-- Items with blanks before each. Every item takes a character or more, so the length
of the text bounds their number. -/
def items {α : Type} (item : m α) : m (List α) := do
  let here ← input
  many (blanks *> item) (here.rest.length + 1)

def classDecl : m Declaration := named .classDecl do
  named .keywordClass (keyword ['c', 'l', 'a', 's', 's'])
  blanks
  let name ← ident
  blanks
  literal ['\x7b']
  let fields ← items fieldDecl
  blanks
  literal ['\x7d']
  return .message name fields

def endOfInput : m Unit := named .endOfInput do
  let here ← input
  if here.rest.isEmpty then return else failure

/-- A whole text. -/
def document : m (List Declaration) := named .schema do
  let declarations ← items (versionDecl <|> classDecl)
  blanks
  endOfInput
  return declarations

end Rules

/-! ## Interpretations -/

/-- Matching without a record of failures. -/
abbrev Match := StateT Input Option

instance : Matching Match where
  input := get
  goOn := set
  named _ rule := rule

/-- Matching with a record of failures, which outlives a failing rule. -/
abbrev Trial := StateT Input (OptionT (StateM Attempts))

instance : Matching Trial where
  input := get
  goOn := set
  named rule body := fun start attempts =>
    match body start attempts with
    | (none, after) => (none, after.fail rule start.offset (attempts.count start.offset))
    | matched => matched

/-- What a text declares, if it matches the grammar. -/
def declarations? (text : List Char) : Option (List Declaration) :=
  ((document : Match (List Declaration)).run ⟨0, text⟩).map Prod.fst

/-- The failures met while matching a text. -/
def attempts (text : List Char) : Attempts :=
  (((document : Trial (List Declaration)).run ⟨0, text⟩).run.run {}).2

end Wirepack.Schema.Text
