/-!
# Command-line arguments

A command line is read from left to right, up to the first argument that cannot be
understood or that asks for help or the version. Options may be written `--name value`,
`--name=value`, `-n value` or `-nvalue`, short ones that take no value may share a dash, and
after `--` everything is an operand. No option may be given twice to one command, and every
command takes one operand, a path.
-/

namespace Wirepack
set_option autoImplicit false

/-- What the program is asked to do. -/
inductive Command where
  | showSchema (schema : String) (json : Bool)
  | checkSchema (schema : String)
  | encode (schema : String) (message : Option String) (input output : String)
  | decode (schema : String) (message : Option String) (input : String) (pretty : Bool)
  | inspect (input : String) (limit : Nat)
  deriving DecidableEq, Repr

/-- What a command line amounts to. -/
inductive Invocation where
  | run (verbose : Bool) (command : Command)
  | version
  | help
  /-- The command line cannot be understood. -/
  | usage
  deriving DecidableEq, Repr

namespace Invocation

/-- What an option does: it asks for something, or takes a value of some kind. -/
inductive Effect where
  | flag
  | version
  | help
  | path
  | name
  | count
  deriving DecidableEq, Repr

/-- A number of 64 bits in decimal digits, with or without a plus sign. -/
def count? (text : String) : Option Nat :=
  let digits := if text.toList.head? = some '+' then text.toList.drop 1 else text.toList
  if digits.isEmpty ∨ ¬ digits.all Char.isDigit then none
  else
    let value := digits.foldl (fun n c => n * 10 + (c.toNat - '0'.toNat)) 0
    if value ≤ 0xFFFFFFFFFFFFFFFF then some value else none

namespace Effect

/-- Whether an option of this kind takes a value. -/
def takesValue : Effect → Bool
  | .flag | .version | .help => false
  | .path | .name | .count => true

/-- Whether a text can be the value of an option of this kind. A path may not be empty. -/
def accepts : Effect → String → Bool
  | .path, text => ¬ text.isEmpty
  | .name, _ => true
  | .count, text => (count? text).isSome
  | .flag, _ | .version, _ | .help, _ => false

end Effect

/-- An option that a command knows. -/
structure Switch where
  short : Option Char
  long : String
  effect : Effect
  deriving DecidableEq, Repr

def verbose : Switch := ⟨some 'v', "verbose", .flag⟩
def helpSwitch : Switch := ⟨some 'h', "help", .help⟩
def versionSwitch : Switch := ⟨some 'V', "version", .version⟩
def json : Switch := ⟨some 'j', "json", .flag⟩
def pretty : Switch := ⟨some 'p', "pretty", .flag⟩
def schema : Switch := ⟨some 's', "schema", .path⟩
def message : Switch := ⟨some 'm', "message", .name⟩
def output : Switch := ⟨some 'o', "output", .path⟩
def limit : Switch := ⟨none, "limit", .count⟩

/-- The options and the operand given to a command. -/
structure Given where
  options : List (Switch × String) := []
  operand : Option String := none
  deriving DecidableEq, Repr

/-- What must be there, or the command line cannot be understood. -/
def required {α : Type} : Option α → Except Invocation α
  | some a => .ok a
  | none => .error .usage

namespace Given

def get? (g : Given) (s : Switch) : Option String := g.options.lookup s

def has (g : Given) (s : Switch) : Bool := (g.get? s).isSome

/-- Notes an option that takes no value, or the value of one that does. -/
def note (g : Given) (s : Switch) (value : String) : Except Invocation Given :=
  if g.has s then .error .usage
  else if s.effect.takesValue ∧ ¬ s.effect.accepts value then .error .usage
  else .ok { g with options := g.options ++ [(s, value)] }

/-- Notes an operand, of which there may be one. -/
def noteOperand (g : Given) (text : String) : Except Invocation Given :=
  if g.operand.isSome ∨ ¬ Effect.path.accepts text then .error .usage
  else .ok { g with operand := some text }

end Given

/-- What is given, and an option that still needs its value. -/
abbrev Progress := Given × Option Switch

/-- Reads an option; `attached` is a value written together with it. -/
def option (given : Given) (s : Switch) (attached : Option String) : Except Invocation Progress :=
  match s.effect, attached with
  | .version, none => .error .version
  | .help, none => .error .help
  | .flag, none => return (← given.note s "", none)
  | .version, some _ | .help, some _ | .flag, some _ => .error .usage
  | _, some text => return (← given.note s text, none)
  | _, none => if given.has s then .error .usage else .ok (given, some s)

/-- Reads options that share a dash. One that takes a value takes the rest of them. -/
def cluster (switches : List Switch) (given : Given) : List Char → Except Invocation Progress
  | [] => .ok (given, none)
  | c :: rest => do
    let s ← required (switches.find? (·.short == some c))
    if s.effect.takesValue then
      option given s (if rest.isEmpty then none
        else some (String.ofList (if rest.head? = some '=' then rest.drop 1 else rest)))
    else
      let (given, _) ← option given s none
      cluster switches given rest

/-- Reads a long option, without its dashes. -/
def longOption (switches : List Switch) (given : Given) (text : List Char) :
    Except Invocation Progress := do
  let name := String.ofList (text.takeWhile (· ≠ '='))
  let s ← required (switches.find? (·.long == name))
  option given s (if '=' ∈ text then some (String.ofList ((text.dropWhile (· ≠ '=')).drop 1)) else none)

/-- How an argument is written. -/
inductive Form where
  | separator
  | long (text : List Char)
  | short (text : List Char)
  | plain
  deriving DecidableEq, Repr

def form (argument : String) : Form :=
  match argument.toList with
  | ['-', '-'] => .separator
  | '-' :: '-' :: text => .long text
  | ['-'] => .plain
  | '-' :: text => .short text
  | _ => .plain

/-- Reads the arguments of a command. If `group`, the first operand names another command
and reading stops there; the arguments from it on are given back. -/
def scan (switches : List Switch) (group : Bool) : Progress → List String →
    Except Invocation (Given × List String)
  | (given, none), [] => .ok (given, [])
  | (_, some _), [] => .error .usage
  | (given, some s), argument :: rest => do
    if form argument ≠ .plain then throw .usage
    scan switches group (← given.note s argument, none) rest
  | (given, none), argument :: rest => do
    match form argument with
    | .separator =>
      if group then throw .usage
      return (← rest.foldlM Given.noteOperand given, [])
    | .plain =>
      if group then return (given, argument :: rest)
      scan switches group (← given.noteOperand argument, none) rest
    | .long text => scan switches group (← longOption switches given text) rest
    | .short text => scan switches group (← cluster switches given text) rest

/-- The number of bytes that `inspect` shows unless told otherwise. -/
def usualLimit : Nat := 256

/-- The arguments of a command that has no commands of its own. -/
def leaf (switches : List Switch) (arguments : List String) : Except Invocation Given := do
  return (← scan (verbose :: helpSwitch :: switches) false ({}, none) arguments).1

/-- What there is help on, by the names of the commands that lead to it. -/
def topics : List (List String) :=
  [[], ["schema"], ["schema", "show"], ["schema", "check"], ["schema", "help"], ["encode"],
    ["decode"], ["inspect"], ["help"]]

/-- Asks for help on a topic, which must be known. -/
def helpOn (topic : List String) : Except Invocation Invocation :=
  if topic ∈ topics then .ok .help else .error .usage

/-- Reads a `schema` command; `loud` says whether `verbose` was given before it. -/
def schemaCommand (loud : Bool) (arguments : List String) : Except Invocation Invocation := do
  let (outer, rest) ← scan [verbose, helpSwitch] true ({}, none) arguments
  let loud := loud || outer.has verbose
  match rest with
  | "show" :: rest =>
    let g ← leaf [json] rest
    return .run (loud || g.has verbose) (.showSchema (← required g.operand) (g.has json))
  | "check" :: rest =>
    let g ← leaf [] rest
    return .run (loud || g.has verbose) (.checkSchema (← required g.operand))
  | "help" :: rest => helpOn ("schema" :: rest)
  | _ => throw .usage

/-- Reads a command line. -/
def read (arguments : List String) : Except Invocation Invocation := do
  let (top, rest) ← scan [verbose, helpSwitch, versionSwitch] true ({}, none) arguments
  let loud := top.has verbose
  match rest with
  | "schema" :: rest => schemaCommand loud rest
  | "encode" :: rest =>
    let g ← leaf [schema, message, output] rest
    return .run (loud || g.has verbose)
      (.encode (← required (g.get? schema)) (g.get? message) (← required g.operand)
        (← required (g.get? output)))
  | "decode" :: rest =>
    let g ← leaf [schema, message, pretty] rest
    return .run (loud || g.has verbose)
      (.decode (← required (g.get? schema)) (g.get? message) (← required g.operand) (g.has pretty))
  | "inspect" :: rest =>
    let g ← leaf [limit] rest
    return .run (loud || g.has verbose)
      (.inspect (← required g.operand) (((g.get? limit).bind count?).getD usualLimit))
  | "help" :: rest => helpOn rest
  | _ => throw .usage

/-- What a command line amounts to. -/
def ofArguments (arguments : List String) : Invocation :=
  match read arguments with
  | .ok invocation => invocation
  | .error early => early

end Invocation

end Wirepack
