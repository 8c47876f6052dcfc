import Wirepack.Json.Basic
import Wirepack.Text.Utf8

/-!
# Reading JSON

The reader goes through the text once. Where it stops it reports the problem with the line
and column of a byte offset: of the end of what it consumed or, for problems with the
character to come, of that character's first byte.
-/

namespace Wirepack.Json
set_option autoImplicit false

/-- What is wrong with a JSON text. -/
inductive Problem where
  | endInValue
  | endInList
  | endInObject
  | endInString
  | expectedValue
  | expectedIdent
  | expectedListEnd
  | expectedObjectEnd
  | expectedColon
  | keyNotString
  | trailingComma
  | trailingCharacters
  | recursionLimit
  | controlCharacter
  | invalidEscape
  | unexpectedEscapeEnd
  | loneSurrogate
  | invalidNumber
  | numberOutOfRange
  deriving DecidableEq, Repr

def Problem.message : Problem → String
  | .endInValue => "EOF while parsing a value"
  | .endInList => "EOF while parsing a list"
  | .endInObject => "EOF while parsing an object"
  | .endInString => "EOF while parsing a string"
  | .expectedValue => "expected value"
  | .expectedIdent => "expected ident"
  | .expectedListEnd => "expected `,` or `]`"
  | .expectedObjectEnd => "expected `,` or `\x7d`"
  | .expectedColon => "expected `:`"
  | .keyNotString => "key must be a string"
  | .trailingComma => "trailing comma"
  | .trailingCharacters => "trailing characters"
  | .recursionLimit => "recursion limit exceeded"
  | .controlCharacter => "control character (\\u0000-\\u001F) found while parsing a string"
  | .invalidEscape => "invalid escape"
  | .unexpectedEscapeEnd => "unexpected end of hex escape"
  | .loneSurrogate => "lone leading surrogate in hex escape"
  | .invalidNumber => "invalid number"
  | .numberOutOfRange => "number out of range"

/-- A problem and the byte offset it is reported for. -/
structure Trouble where
  problem : Problem
  offset : Nat
  deriving DecidableEq, Repr

/-- What is left of a text, and the number of bytes before it. -/
structure Source where
  offset : Nat
  rest : List Char
  deriving DecidableEq, Repr

/-- Reads a value off the front of a text. -/
abbrev Reader := StateT Source (Except Trouble)

namespace Reader

/-- Stops because of what was consumed last. -/
def stop {α : Type} (problem : Problem) : Reader α := fun s => .error ⟨problem, s.offset⟩

/-- Stops because of the character to come, or the end of the text. -/
def refuse {α : Type} (problem : Problem) : Reader α := fun s =>
  .error ⟨problem, if s.rest.isEmpty then s.offset else s.offset + 1⟩

/-- The character to come. -/
def peek : Reader (Option Char) := do return (← get).rest.head?

/-- Consumes a character. -/
def next : Reader (Option Char) := fun s =>
  match s.rest with
  | [] => .ok (none, s)
  | c :: rest => .ok (some c, ⟨s.offset + c.utf8Size, rest⟩)

/-- Consumes the character that `peek` has shown. -/
def skip : Reader Unit := do let _ ← next

def isBlank (c : Char) : Bool := c == ' ' || c == '\n' || c == '\t' || c == '\r'

def isDigit (c : Char) : Bool := '0' ≤ c && c ≤ '9'

def digitValue (c : Char) : Nat := c.toNat - '0'.toNat

/-- Consumes the characters in front that satisfy `p`, all of one byte each. -/
def takeAscii (p : Char → Bool) : Reader (List Char) := fun s =>
  let taken := s.rest.takeWhile p
  .ok (taken, ⟨s.offset + taken.length, s.rest.dropWhile p⟩)

def blanks : Reader Unit := do let _ ← takeAscii isBlank

/-- Consumes the rest of a word. -/
def word (value : Json) : List Char → Reader Json
  | [] => return value
  | c :: rest => do
    match ← peek with
    | none => refuse .endInValue
    | some d => if d = c then do skip; word value rest else refuse .expectedIdent

/-! ## Numbers -/

/-- The largest significand that is kept exactly. -/
def maxSignificand : Nat := 0xFFFFFFFFFFFFFFFF

/-- Adds digits to a significand as long as it stays in range. Gives the significand, the
number of digits added and the digits left over. -/
def absorb (significand added : Nat) : List Char → Nat × Nat × List Char
  | [] => (significand, added, [])
  | c :: rest =>
    let grown := significand * 10 + digitValue c
    if grown ≤ maxSignificand then absorb grown (added + 1) rest else (significand, added, c :: rest)

/-- Divides by 10^308, `times` times or until nothing is left. -/
def shrink : Nat → Float → Float
  | 0, x => x
  | times + 1, x => if x == 0.0 then x else shrink times (x / 1e308)

/-- The nearest double to a power of ten. -/
def power (exponent : Nat) : Float := Float.ofScientific 1 false exponent

/-- The double made of a significand and a decimal exponent, in one multiplication or
division by a power of ten up to 10^308. -/
def assemble (negative : Bool) (significand : Nat) (exponent : Int) : Reader Json := do
  let x := (UInt64.ofNat significand).toFloat
  let magnitude ←
    if 0 ≤ exponent then
      if 308 < exponent then
        if x == 0.0 then pure x else stop .numberOutOfRange
      else
        let product := x * power exponent.toNat
        if product.isInf then stop .numberOutOfRange else pure product
    else
      let places := exponent.natAbs
      let times := (places - 1) / 308
      pure (shrink times x / power (places - 308 * times))
  return .number (.double (if negative then -magnitude else magnitude))

/-- The largest written exponent that is taken at its word. -/
def maxExponent : Nat := 0x7FFFFFFF

/-- Adds digits to an exponent, one at a time. None if it becomes too large. -/
def exponentDigits (exponent : Nat) : List Char → Reader (Option Nat)
  | [] => return some exponent
  | c :: rest => do
    skip
    let grown := exponent * 10 + digitValue c
    if maxExponent < grown then return none
    exponentDigits grown rest

/-- The part of a number from the exponent mark on. -/
def exponentPart (negative : Bool) (significand : Nat) (start : Int) : Reader Json := do
  skip
  let down ← match ← peek with
    | some '+' => do skip; pure false
    | some '-' => do skip; pure true
    | _ => pure false
  match ← peek with
  | none => refuse .endInValue
  | some c =>
    if isDigit c then
      skip
      let more := (← get).rest.takeWhile isDigit
      match ← exponentDigits (digitValue c) more with
      | some written => assemble negative significand (if down then start - written else start + written)
      | none =>
        if significand ≠ 0 ∧ ¬ down then stop .numberOutOfRange
        let _ ← takeAscii isDigit
        return .number (.double (if negative then -0.0 else 0.0))
    else refuse .invalidNumber

/-- The end of a number whose digits have all been read. -/
def finishDouble (negative : Bool) (significand : Nat) (exponent : Int) : Reader Json := do
  match ← peek with
  | some 'e' | some 'E' => exponentPart negative significand exponent
  | _ => assemble negative significand exponent

/-- The part of a number from the point on. Digits that do not fit the significand do not
count. -/
def fractionPart (negative : Bool) (significand : Nat) (start : Int) : Reader Json := do
  skip
  let digits ← takeAscii isDigit
  if digits.isEmpty then
    refuse (if (← peek).isSome then .invalidNumber else .endInValue)
  else
    let (significand, added, _) := absorb significand 0 digits
    finishDouble negative significand (start - added)

/-- An integer as a JSON value. Minus zero and what does not fit 64 bits is a double. -/
def wholeNumber (negative : Bool) (significand : Nat) : Json :=
  if negative then
    if 0 < significand ∧ significand ≤ 0x8000000000000000 then ofInt (-significand)
    else .number (.double (-(UInt64.ofNat significand).toFloat))
  else ofInt significand

/-- A number after its sign. Integer digits that do not fit the significand raise the
exponent by one each. -/
def number (negative : Bool) : Reader Json := do
  match ← peek with
  | none => refuse .endInValue
  | some c =>
    if ¬ isDigit c then refuse .invalidNumber
    skip
    if c = '0' ∧ (← peek).any isDigit then refuse .invalidNumber
    let digits ← takeAscii isDigit
    let (significand, _, extra) := absorb (digitValue c) 0 digits
    match ← peek with
    | some '.' => fractionPart negative significand extra.length
    | some 'e' | some 'E' => exponentPart negative significand extra.length
    | _ =>
      if extra.isEmpty then return wholeNumber negative significand
      else assemble negative significand extra.length

/-! ## Strings -/

def hexValue? (c : Char) : Option Nat :=
  if isDigit c then some (digitValue c)
  else if 'a' ≤ c ∧ c ≤ 'f' then some (c.toNat - 'a'.toNat + 10)
  else if 'A' ≤ c ∧ c ≤ 'F' then some (c.toNat - 'A'.toNat + 10)
  else none

/-- Four hexadecimal digits. -/
def hexUnit : Reader Nat := fun s =>
  match s.rest with
  | a :: b :: c :: d :: rest =>
    match hexValue? a, hexValue? b, hexValue? c, hexValue? d with
    | some a, some b, some c, some d => .ok (((a * 16 + b) * 16 + c) * 16 + d, ⟨s.offset + 4, rest⟩)
    | _, _, _, _ => .error ⟨.invalidEscape, s.offset + 4⟩
  | few =>
    let size := (String.ofList few).utf8ByteSize
    if size < 4 then .error ⟨.endInString, s.offset + size⟩
    else .error ⟨.invalidEscape, s.offset + 4⟩

/-- Consumes one character of what must follow the first half of a surrogate pair. -/
def pairMark (mark : Char) : Reader Unit := do
  match ← peek with
  | none => refuse .endInString
  | some c => if c = mark then skip else refuse .unexpectedEscapeEnd

/-- The character of a `\u` escape, of which the mark has been consumed. -/
def unicodeEscape : Reader Char := do
  let unit ← hexUnit
  if 0xDC00 ≤ unit ∧ unit ≤ 0xDFFF then stop .loneSurrogate
  else if 0xD800 ≤ unit ∧ unit ≤ 0xDBFF then
    pairMark '\\'
    pairMark 'u'
    let low ← hexUnit
    if 0xDC00 ≤ low ∧ low ≤ 0xDFFF then
      return Char.ofNat (0x10000 + (unit - 0xD800) * 0x400 + (low - 0xDC00))
    else stop .loneSurrogate
  else return Char.ofNat unit

/-- The character that a letter after a backslash stands for. -/
def shortEscape? : Char → Option Char
  | '"' => some '"'
  | '\\' => some '\\'
  | '/' => some '/'
  | 'b' => some '\x08'
  | 'f' => some '\x0c'
  | 'n' => some '\n'
  | 'r' => some '\r'
  | 't' => some '\t'
  | _ => none

/-- The character of an escape, of which the backslash has been consumed. -/
def escaped : Reader Char := do
  match ← peek with
  | none => refuse .endInString
  | some 'u' => do skip; unicodeEscape
  | some c =>
    match shortEscape? c with
    | some d => do skip; return d
    | none => refuse .invalidEscape

/-- A string after its opening quote, of at most `bound` characters; `taken` are those
read before, in reverse. -/
def stringBody (taken : List Char) : Nat → Reader String
  | 0 => stop .endInString
  | bound + 1 => do
    match ← next with
    | none => stop .endInString
    | some '"' => return String.ofList taken.reverse
    | some '\\' => stringBody ((← escaped) :: taken) bound
    | some c => if c.toNat < 0x20 then stop .controlCharacter else stringBody (c :: taken) bound

/-- A string, of which the opening quote has been consumed. -/
def string : Reader String := do stringBody [] ((← get).rest.length + 1)

/-! ## Values -/

/-- What follows an element of a list. True if another one does. -/
def afterElement : Reader Bool := do
  blanks
  match ← peek with
  | none => refuse .endInList
  | some ']' => do skip; return false
  | some ',' => do
    skip
    blanks
    match ← peek with
    | some ']' => refuse .trailingComma
    | none => refuse .endInValue
    | some _ => return true
  | some _ => refuse .expectedListEnd

/-- Elements up to the end of their list, at most `bound` of them. -/
def elements (value : Reader Json) (taken : List Json) : Nat → Reader (List Json)
  | 0 => refuse .endInList
  | bound + 1 => do
    let item ← value
    if ← afterElement then elements value (item :: taken) bound
    else return (item :: taken).reverse

/-- A list after its opening bracket. -/
def list (value : Reader Json) : Reader (List Json) := do
  blanks
  match ← peek with
  | none => refuse .endInList
  | some ']' => do skip; return []
  | some _ => elements value [] ((← get).rest.length + 1)

/-- What follows a member of an object. True if another one does. -/
def afterMember : Reader Bool := do
  blanks
  match ← peek with
  | none => refuse .endInObject
  | some '\x7d' => do skip; return false
  | some ',' => do
    skip
    blanks
    match ← peek with
    | some '\x7d' => refuse .trailingComma
    | none => refuse .endInValue
    | some _ => return true
  | some _ => refuse .expectedObjectEnd

/-- A key, a colon and a value. -/
def member (value : Reader Json) : Reader (String × Json) := do
  if (← peek) ≠ some '"' then refuse .keyNotString
  skip
  let key ← string
  blanks
  match ← peek with
  | none => refuse .endInObject
  | some ':' => do skip; return (key, ← value)
  | some _ => refuse .expectedColon

/-- Members up to the end of their object, at most `bound` of them. -/
def members (value : Reader Json) (taken : List (String × Json)) : Nat → Reader (List (String × Json))
  | 0 => refuse .endInObject
  | bound + 1 => do
    let item ← member value
    if ← afterMember then members value (item :: taken) bound
    else return (item :: taken).reverse

/-- An object after its opening brace. -/
def object (value : Reader Json) : Reader (List (String × Json)) := do
  blanks
  match ← peek with
  | none => refuse .endInObject
  | some '\x7d' => do skip; return []
  | some _ => members value [] ((← get).rest.length + 1)

/-- A value, where `inner` reads those inside a list or object; without it there may be
none. -/
def valueWith (inner : Option (Reader Json)) : Reader Json := do
  blanks
  match ← peek with
  | none => refuse .endInValue
  | some 'n' => do skip; word .null ['u', 'l', 'l']
  | some 't' => do skip; word (.bool true) ['r', 'u', 'e']
  | some 'f' => do skip; word (.bool false) ['a', 'l', 's', 'e']
  | some '"' => do skip; return .string (← string)
  | some '-' => do skip; number true
  | some '[' =>
    match inner with
    | none => refuse .recursionLimit
    | some inner => do skip; return .array (← list inner)
  | some '\x7b' =>
    match inner with
    | none => refuse .recursionLimit
    | some inner => do skip; return .object (← object inner)
  | some c => if isDigit c then number false else refuse .expectedValue

/-- A value, with at most `levels` lists and objects inside one another. -/
def value : Nat → Reader Json
  | 0 => valueWith none
  | levels + 1 => valueWith (some (value levels))

/-- The deepest nesting that is read. -/
def maxLevels : Nat := 127

/-- A value with nothing but blanks around it. -/
def document : Reader Json := do
  let v ← value maxLevels
  blanks
  if (← peek).isSome then refuse .trailingCharacters
  return v

end Reader

/-- The line and column of a byte offset: lines from one, columns in bytes. -/
def place (text : String) (offset : Nat) : Nat × Nat :=
  let before := (Utf8.encode text).take offset
  (before.count 0x0A + 1, (before.reverse.takeWhile (· ≠ 0x0A)).length)

/-- The message for a text that cannot be read. -/
def Trouble.message (text : String) (t : Trouble) : String :=
  let (line, column) := place text t.offset
  t.problem.message ++ s!" at line {line} column {column}"

/-- The value that a text holds. -/
def parse (text : String) : Except String Json :=
  match Reader.document.run ⟨0, text.toList⟩ with
  | .ok (v, _) => .ok v
  | .error t => .error (t.message text)

end Wirepack.Json
