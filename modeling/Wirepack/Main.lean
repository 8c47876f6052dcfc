import Wirepack.Command.Run

/-!
# The command-line program

Reads the files that the arguments name, runs the command on them, and writes back what it
changed.
-/

namespace Wirepack
set_option autoImplicit false

/-- The paths that a command reads or writes. -/
def commandPaths : Command → List String
  | .showSchema schema _ => [schema]
  | .checkSchema schema => [schema]
  | .encode schema _ input output => [schema, input, output]
  | .decode schema _ input _ => [schema, input]
  | .inspect input _ => [input]

/-- What stands at a path, if anything. -/
def look (path : String) : IO (Option Entry) := do
  try
    return some (.file (← IO.FS.readBinFile path).data.toList)
  catch
    | .noFileOrDirectory .. => return none
    | _ => return some .directory

/-- The entries at all places on the way to these paths. -/
def snapshot (paths : List String) : IO Files := do
  let mut files : Files := []
  for path in paths do
    let route := Route.ofPath path
    let root := if route.start.absolute then "/" else ""
    for count in List.range route.parts.length do
      match ← look (root ++ "/".intercalate (route.parts.take (count + 1))) with
      | some entry => files := files.insert (route.stop (count + 1)).key entry
      | none => pure ()
  return files

end Wirepack

open Wirepack in
/-- Runs the command that the arguments give. -/
def main (arguments : List String) : IO UInt32 := do
  let paths := match Invocation.ofArguments arguments with
    | .run _ c => commandPaths c
    | _ => []
  let before ← snapshot paths
  let outcome := execute before arguments
  for (path, entry) in outcome.files do
    if before.get? path ≠ some entry then
      match entry with
      | .file data => IO.FS.writeBinFile path ⟨data.toArray⟩
      | .directory => pure ()
  IO.print outcome.stdout
  IO.eprint outcome.stderr
  return outcome.status
