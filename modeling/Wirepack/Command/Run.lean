import Wirepack.Command.Arguments
import Wirepack.Command.Files
import Wirepack.Command.Hexdump
import Wirepack.Message.Json
import Wirepack.Schema.Document
import Wirepack.Schema.Text.Parse
import Wirepack.Schema.Text.Printer
import Wirepack.Text.Quoted

/-!
# Running commands

A run turns a command line and the files it can see into an exit status, what it prints, and
the files afterwards. Only `encode` writes a file, and only as its last step; a run that
fails prints nothing but its log and the reason.
-/

namespace Wirepack
set_option autoImplicit false

/-- How important a log line is. Debug lines are shown only on request. -/
inductive Level where
  | warn
  | debug
  deriving DecidableEq, Repr

/-- A log line: what part of the program it comes from and what it reports. -/
structure LogLine where
  level : Level
  origin : String
  text : String
  deriving DecidableEq, Repr

/-- The name that the program goes by in what it prints. -/
def programName : String := "bitpacker"

/-- What `--version` prints. -/
def versionLine : String := programName ++ " 0.1.0\n"

def LogLine.render (l : LogLine) : String :=
  let level := match l.level with
    | .warn => " WARN "
    | .debug => "DEBUG "
  level ++ programName ++ "::" ++ l.origin ++ ": " ++ l.text ++ "\n"

/-- The state of a run: the files, and what was logged so far. -/
structure Session where
  files : Files
  log : List LogLine := []
  deriving DecidableEq, Repr

/-- A step of a run. It may fail with a reason. -/
abbrev Run := EStateM String Session

/-- The result of a run. -/
structure Outcome where
  status : UInt32
  stdout : String
  stderr : String
  files : Files
  deriving DecidableEq, Repr

namespace Run

def logLine (level : Level) (origin text : String) : Run Unit :=
  modify fun s => { s with log := s.log ++ [⟨level, origin, text⟩] }

/-- A result whose fault is a reason to fail. -/
def orFail {α : Type} : Except Fault α → Run α
  | .ok a => return a
  | .error fault => throw fault.message

/-- The content of a file. -/
def readFile (path : String) : Run (Except FileFault Bytes) := do
  return (← get).files.read path

/-- The content of a text file. -/
def readText (path : String) : Run (Except FileFault String) := do
  return (← readFile path).bind fun data =>
    match Utf8.decode? data with
    | some text => .ok text
    | none => .error .notText

/-- Loads a schema file. -/
def loadSchema (path : String) : Run Schema := do
  if Files.extension? path ≠ some "buff" then
    logLine .warn "common" ("schema file does not have a .buff extension path=" ++ path)
  let failure (fault : Fault) : String := "failed to load schema " ++ path ++ ": " ++ fault.message
  match ← readText path with
  | .error fault => throw (failure (.io fault.message))
  | .ok text =>
    logLine .debug "schema::parser" ("loading schema file path=" ++ path)
    match Schema.Text.parse text with
    | .error fault => throw (failure fault)
    | .ok schema =>
      logLine .debug "schema::parser::buff_parser" <|
        "parsed buff schema version=" ++ schema.version ++ " messages=" ++
          toString schema.messages.length
      return schema

/-- The message type to use: the one asked for, which must be defined, or the root. -/
def resolve (schema : Schema) : Option String → Run String
  | some name => do
    let _ ← orFail (schema.require name)
    return name
  | none => orFail schema.rootName

/-- What a file holds, or the reason that it cannot be read. -/
def needed {α : Type} (path : String) (content : Except FileFault α) : Run α :=
  match content with
  | .ok a => return a
  | .error fault => throw ("failed to read " ++ path ++ ": " ++ fault.message)

/-- The text of several lines. -/
def printed (lines : List String) : String := String.join (lines.map (· ++ "\n"))

def showSchema (path : String) (json : Bool) : Run String := do
  let schema ← loadSchema path
  if json then return printed [schema.toJson.pretty ""]
  let messages := schema.messages.zipIdx.flatMap fun (d, i) =>
    Schema.Text.messageLines (if i = 0 then " (root)" else "") d ++ [""]
  return printed (["=== Schema " ++ path ++ " ===", "Version: " ++ schema.version, ""] ++ messages)

def checkSchema (path : String) : Run String := do
  let schema ← loadSchema path
  let root ← orFail schema.rootName
  let fields := (schema.messages.flatMap (·.fields)).length
  return printed ["OK: " ++ path ++ " (version " ++ schema.version ++ ", " ++
    toString schema.messages.length ++ " messages, " ++ toString fields ++ " fields, root " ++ root ++ ")"]

def encode (parse : String → Except String Json) (schemaPath : String) (name : Option String)
    (input output : String) : Run String := do
  let schema ← loadSchema schemaPath
  let type ← resolve schema name
  let text ← needed input (← readText input)
  let data ← orFail (Message.encodeJsonWith parse schema {} type text)
  logLine .debug "encoding::encoder" ("encoded message " ++ type ++ " bytes=" ++ toString data.length)
  let s ← get
  match s.files.write output data with
  | .error fault => throw ("failed to write " ++ output ++ ": " ++ fault.message)
  | .ok files =>
    set { s with files }
    return printed ["Encoded " ++ type ++ " -> " ++ output ++ " (" ++ toString data.length ++ " bytes)"]

/-- The details of a fault as a list of quoted pairs. -/
def detailList (fault : Fault) : String :=
  let pairs := fault.details.map fun (key, value) =>
    "(" ++ Text.quoted key ++ ", " ++ Text.quoted value ++ ")"
  "[" ++ ", ".intercalate pairs ++ "]"

/-- The message in a payload, with a log of how reading it went. -/
def decodePayload (schema : Schema) (type : String) (data : Bytes) : Run Record := do
  match Message.read schema ({} : Config).maxCollection type (.start data) with
  | .ok record after =>
    logLine .debug "encoding::decoder" ("decoded message " ++ type ++ " bytes=" ++
      toString after.position ++ " trailing=" ++ toString after.remaining)
    return record
  | .error fault _ =>
    match fault with
    | .versionMismatch .. =>
      logLine .warn "encoding::cursor" ("payload version mismatch fields=" ++ detailList fault)
    | _ => pure ()
    throw fault.message

def decode (schemaPath : String) (name : Option String) (input : String) (pretty : Bool) :
    Run String := do
  let schema ← loadSchema schemaPath
  let type ← resolve schema name
  let data ← needed input (← readFile input)
  let record ← decodePayload schema type data
  let json ← orFail (Message.toJson schema type record)
  return printed [if pretty then json.pretty "" else json.compact]

/-- The lines that show the body of a payload: rows of bytes up to the limit, and how many
are left out. -/
def bodyLines (limit : Nat) (base : UInt64) (body : Bytes) : List String :=
  let shown := body.take limit
  let hidden := body.length - shown.length
  Hexdump.rows base shown ++ if hidden = 0 then [] else ["... " ++ toString hidden ++ " more bytes"]

def inspect (input : String) (limit : Nat) : Run String := do
  let data ← needed input (← readFile input)
  match Message.peekVersion data with
  | .error fault => throw (input ++ " does not start with a version tag: " ++ fault.message)
  | .ok (version, offset) =>
    let body := data.drop offset
    return printed (["=== " ++ input ++ " ===", "Version:    " ++ version,
      "Total size: " ++ toString data.length ++ " bytes",
      "Body:       " ++ toString body.length ++ " bytes at offset " ++ toString offset, ""] ++
      bodyLines limit (UInt64.ofNat offset) body)

/-- Runs a command; the result is what it prints. -/
def command (parse : String → Except String Json) : Command → Run String
  | .showSchema schema json => showSchema schema json
  | .checkSchema schema => checkSchema schema
  | .encode schema message input output => encode parse schema message input output
  | .decode schema message input pretty => decode schema message input pretty
  | .inspect input limit => inspect input limit

/-- The log lines that are shown. -/
def shownLog (verbose : Bool) (log : List LogLine) : String :=
  String.join ((log.filter fun l => verbose || l.level == .warn).map LogLine.render)

end Run

/-- How the program is used. -/
def usageText : String := Run.printed
  ["Usage: " ++ programName ++ " [-v] schema show FILE [-j]",
    "       " ++ programName ++ " [-v] schema check FILE",
    "       " ++ programName ++ " [-v] encode -s SCHEMA [-m NAME] INPUT -o OUTPUT",
    "       " ++ programName ++ " [-v] decode -s SCHEMA [-m NAME] INPUT [-p]",
    "       " ++ programName ++ " [-v] inspect INPUT [--limit N]"]

/-- How a command line and a JSON text are read. -/
structure Readers where
  invocation : List String → Invocation
  json : String → Except String Json

/-- The readers of the program. -/
def Readers.standard : Readers := ⟨Invocation.ofArguments, Json.parse⟩

/-- Runs a command line over the files it can see, by readers of it and of JSON texts. -/
def Readers.execute (readers : Readers) (files : Files) (arguments : List String) : Outcome :=
  match readers.invocation arguments with
  | .usage => ⟨2, "", usageText, files⟩
  | .help => ⟨0, usageText, "", files⟩
  | .version => ⟨0, versionLine, "", files⟩
  | .run verbose c =>
    match Run.command readers.json c { files } with
    | .ok text after => ⟨0, text, Run.shownLog verbose after.log, after.files⟩
    | .error reason after =>
      ⟨1, "", Run.shownLog verbose after.log ++ "Error: " ++ reason ++ "\n", after.files⟩

/-- Runs a command line over the files it can see. -/
def execute : Files → List String → Outcome := Readers.standard.execute

end Wirepack
