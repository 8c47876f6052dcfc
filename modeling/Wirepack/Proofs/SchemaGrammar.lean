import Wirepack.Schema.Text.Parse

/-!
# The language of schema texts

Which texts are schema texts, said without matching. Every relation here takes the text at
which something starts and what is left of it behind. Words are as long as they can be;
blanks and comments may stand between words, never inside them.
-/

namespace Wirepack.Schema.Text
set_option autoImplicit false

/-! ## Words and gaps -/

def identStart (c : Char) : Bool := c.isAlpha || c == '_'

def identChar (c : Char) : Bool := c.isAlphanum || c == '_'

def tagChar (c : Char) : Bool := identChar c || c == '.'

/-- The pairs of brackets that stand behind the base name of a type. -/
def brackets (pairs : Nat) : List Char := (List.replicate pairs ['[', ']']).flatten

/-- Any number of blanks and comments. A comment goes on to the end of its line, which may be
the end of the text. -/
inductive Gap : List Char → List Char → Prop where
  | none (text : List Char) : Gap text text
  | blank {c : Char} {text rest : List Char} (blank : c ∈ [' ', '\t', '\r', '\n'])
      (more : Gap text rest) : Gap (c :: text) rest
  | comment {words text rest : List Char} (line : '\n' ∉ words)
      (ends : ∀ c ∈ text.head?, c = '\n') (more : Gap text rest) :
      Gap ('/' :: '/' :: (words ++ text)) rest

/-- A word with a first character in `first` and the others in `more`, which does not go on. -/
structure Word (first more : Char → Bool) (word text rest : List Char) : Prop where
  spelled : text = word ++ rest
  starts : ∃ c tail, word = c :: tail ∧ first c ∧ ∀ x ∈ tail, more x
  ends : ∀ c ∈ rest.head?, more c = false

abbrev Ident : List Char → List Char → List Char → Prop := Word identStart identChar

/-- A keyword, which no identifier goes on from. -/
structure Keyword (word text rest : List Char) : Prop where
  spelled : text = word ++ rest
  ends : ∀ c ∈ rest.head?, identChar c = false

/-- The name of a type: all the bracket pairs at the end of its base belong to it. -/
structure TypeName (base : List Char) (pairs : Nat) (text rest : List Char) : Prop where
  ident : Ident base text (brackets pairs ++ rest)
  ends : ¬ ['[', ']'] <+: rest

/-! ## Phrases -/

/-- A field, as a base name with bracket pairs and a name. -/
structure FieldPhrase where
  base : List Char
  pairs : Nat
  name : List Char

/-- One declaration, as its words. -/
inductive Phrase where
  | version (tag : List Char)
  | message (name : List Char) (fields : List FieldPhrase)

/-- One phrase after the other, with gaps before each. -/
inductive Sequence {α : Type} (Spelled : α → List Char → List Char → Prop) :
    List α → List Char → List Char → Prop where
  | none (text : List Char) : Sequence Spelled [] text text
  | next {x : α} {xs : List α} {text start after rest : List Char} (gap : Gap text start)
      (first : Spelled x start after) (others : Sequence Spelled xs after rest) :
      Sequence Spelled (x :: xs) text rest

/-- A field is its type, its name and a semicolon. -/
inductive FieldPhrase.Spelled : FieldPhrase → List Char → List Char → Prop where
  | mk {base name text afterType toName afterName rest : List Char} {pairs : Nat}
      (type : TypeName base pairs text afterType) (gap : Gap afterType toName)
      (named : Ident name toName afterName) (close : Gap afterName (';' :: rest)) :
      Spelled ⟨base, pairs, name⟩ text rest

/-- A version is its keyword, an equals sign and a tag; a class is its keyword, its name and
the fields in braces. -/
inductive Phrase.Spelled : Phrase → List Char → List Char → Prop where
  | version {tag text afterKeyword afterSign toTag rest : List Char}
      (keyword : Keyword ['v', 'e', 'r', 's', 'i', 'o', 'n'] text afterKeyword)
      (sign : Gap afterKeyword ('=' :: afterSign)) (gap : Gap afterSign toTag)
      (tagged : Word tagChar tagChar tag toTag rest) :
      Spelled (.version tag) text rest
  | message {name text afterKeyword toName afterName body afterFields rest : List Char}
      {fields : List FieldPhrase}
      (keyword : Keyword ['c', 'l', 'a', 's', 's'] text afterKeyword)
      (gap : Gap afterKeyword toName) (named : Ident name toName afterName)
      (opening : Gap afterName ('\x7b' :: body))
      (members : Sequence FieldPhrase.Spelled fields body afterFields)
      (close : Gap afterFields ('\x7d' :: rest)) :
      Spelled (.message name fields) text rest

/-- A text that consists of these phrases and the gaps around them. -/
def Spelled (phrases : List Phrase) (text : List Char) : Prop :=
  ∃ rest, Sequence Phrase.Spelled phrases text rest ∧ Gap rest []

/-! ## What phrases declare -/

/-- The name of the type of a field. -/
def FieldPhrase.typeName (f : FieldPhrase) : String := String.ofList (f.base ++ brackets f.pairs)

/-- The field that a phrase declares. -/
def FieldPhrase.toField (f : FieldPhrase) : Field :=
  ⟨String.ofList f.name, FieldType.ofName f.typeName⟩

/-- The version tags, in order of appearance. -/
def tags (phrases : List Phrase) : List String :=
  phrases.filterMap fun
    | .version tag => some (String.ofList tag)
    | .message .. => none

/-- The names and the fields of the classes, in order of appearance. -/
def classes (phrases : List Phrase) : List (String × List FieldPhrase) :=
  phrases.filterMap fun
    | .version _ => none
    | .message name fields => some (String.ofList name, fields)

end Wirepack.Schema.Text
