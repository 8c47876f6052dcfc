import Wirepack.Schema.Text.Attempts

/-!
# Reporting a text that does not match

The report shows the line of the furthest failure with a mark under the place, and the
rules that could have gone on there.
-/

namespace Wirepack.Schema.Text
set_option autoImplicit false

/-- The line number of an offset, from one. -/
def lineOf (text : List Char) (offset : Nat) : Nat := (text.take offset).count '\n' + 1

/-- The characters between the start of the line and an offset. -/
def beforeInLine (text : List Char) (offset : Nat) : List Char :=
  ((text.take offset).reverse.takeWhile (· ≠ '\n')).reverse

/-- The characters from an offset to the end of its line, its line feed included. -/
def afterInLine (text : List Char) (offset : Nat) : List Char :=
  let rest := text.drop offset
  rest.takeWhile (· ≠ '\n') ++ (rest.dropWhile (· ≠ '\n')).take 1

/-- How a line break is shown when it is what the report is about. -/
def visibleBreak (c : Char) : Char :=
  if c = '\r' then '␍' else if c = '\n' then '␊' else c

/-- A line as shown: its breaks made visible if one stands at the failure, else left
out. -/
def shownLine (text : List Char) (offset : Nat) : List Char :=
  let line := beforeInLine text offset ++ afterInLine text offset
  match (text.drop offset).head? with
  | some '\r' | some '\n' => line.map visibleBreak
  | _ => line.filter fun c => c ≠ '\r' ∧ c ≠ '\n'

/-- Names in a sentence: `a`, `a or b`, `a, b, or c`. -/
def enumerate : List String → String
  | [] => ""
  | [a] => a
  | [a, b] => a ++ " or " ++ b
  | names => ", ".intercalate names.dropLast ++ ", or " ++ names.getLastD ""

/-- The report of the failures met in a text. -/
def report (text : List Char) (attempts : Attempts) : String :=
  let offset := attempts.offset
  let line := toString (lineOf text offset)
  let column := (beforeInLine text offset).length
  let shown := shownLine text offset
  let margin := String.ofList (List.replicate line.length ' ')
  let indent := String.ofList ((shown.take column).map fun c => if c = '\t' then '\t' else ' ')
  let names := enumerate (attempts.expected.map Rule.name)
  "\n".intercalate
    [s!"{margin}--> {line}:{column + 1}",
      s!"{margin} |",
      s!"{line} | " ++ String.ofList shown,
      s!"{margin} | {indent}^---",
      s!"{margin} |",
      s!"{margin} = expected {names}"]

end Wirepack.Schema.Text
