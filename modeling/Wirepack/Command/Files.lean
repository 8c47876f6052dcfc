import Wirepack.Bytes
import Wirepack.Keyed

/-!
# Files

A file system as far as a command can see it: what stands at each place. A path leads to a
place part by part. Every place it passes must be a directory, also one that it leaves again
by `..`, and a path that ends in a slash can only be that of a directory.
-/

namespace Wirepack
set_option autoImplicit false

/-- What stands at a place. -/
inductive Entry where
  | file (data : Bytes)
  | directory
  deriving DecidableEq, Repr

/-- Entries by the key of their place. -/
abbrev Files := Keyed Entry

/-- Why a file could not be read or written. -/
inductive FileFault where
  | notFound
  | notDirectory
  | isDirectory
  | nameTooLong
  /-- The file was to be read as text and is not UTF-8. -/
  | notText
  deriving DecidableEq, Repr

def FileFault.message : FileFault → String
  | .notFound => "No such file or directory (os error 2)"
  | .notDirectory => "Not a directory (os error 20)"
  | .isDirectory => "Is a directory (os error 21)"
  | .nameTooLong => "File name too long (os error 36)"
  | .notText => "stream did not contain valid UTF-8"

/-- A place in a file system. -/
structure Location where
  /-- Whether the place is counted from the root and not from the working directory. -/
  absolute : Bool
  /-- How many directories above the working directory the way down starts. -/
  climb : Nat
  /-- The names on the way down. -/
  names : List String
  deriving DecidableEq, Repr

namespace Location

/-- The directory that holds a place. The root holds itself. -/
def parent (l : Location) : Location :=
  if ¬ l.names.isEmpty then { l with names := l.names.dropLast }
  else if l.absolute then l
  else { l with climb := l.climb + 1 }

/-- The place one part of a path further on. -/
def follow (l : Location) (part : String) : Location :=
  if part = "." then l
  else if part = ".." then l.parent
  else { l with names := l.names ++ [part] }

/-- The text that entries are kept under. -/
def key (l : Location) : String :=
  (if l.absolute then "/" else String.join (List.replicate l.climb "../")) ++ "/".intercalate l.names

end Location

/-- A path taken apart. -/
structure Route where
  start : Location
  /-- What to follow from the start on. -/
  parts : List String
  /-- Whether the path ends in a slash. -/
  slashed : Bool
  deriving DecidableEq, Repr

namespace Route

/-- The parts of a path: what stands between slashes, empty parts left out. -/
def split (path : String) : List String :=
  ((path.toList.splitOn '/').map String.ofList).filter (· ≠ "")

def ofPath (path : String) : Route :=
  { start := ⟨path.startsWith "/", 0, []⟩
    parts := split path
    slashed := path.endsWith "/" }

/-- The place that the first `count` parts lead to. -/
def stop (route : Route) (count : Nat) : Location :=
  (route.parts.take count).foldl Location.follow route.start

end Route

namespace Files

/-- The largest number of bytes in a name. -/
def maxName : Nat := 255

/-- The largest number of bytes in a path. -/
def maxPath : Nat := 4095

/-- What stands at a place, if anything. -/
def entry? (files : Files) (l : Location) : Option Entry :=
  if l.names.isEmpty then some .directory else files.get? l.key

/-- Refuses a place that is no directory. -/
def enter (files : Files) (l : Location) : Except FileFault Unit :=
  match files.entry? l with
  | some .directory => .ok ()
  | some (.file _) => .error .notDirectory
  | none => .error .notFound

/-- Follows one part of a path out of a place, which must be a directory. -/
def step (files : Files) (l : Location) (part : String) : Except FileFault Location := do
  files.enter l
  if maxName < part.utf8ByteSize then throw .nameTooLong
  return l.follow part

/-- Follows parts of a path one after another. -/
def walk (files : Files) (start : Location) (parts : List String) : Except FileFault Location :=
  parts.foldlM files.step start

/-- The route of a path that is not too long. -/
def route (path : String) : Except FileFault Route :=
  if maxPath < path.utf8ByteSize then .error .nameTooLong else .ok (Route.ofPath path)

/-- The content of the file at a path. -/
def read (files : Files) (path : String) : Except FileFault Bytes := do
  let r ← route path
  match files.entry? (← files.walk r.start r.parts) with
  | some (.file data) => if r.slashed then throw .notDirectory else return data
  | some .directory => throw .isDirectory
  | none => throw .notFound

/-- The place of a file to be written at a path: a new name, or one that is there, in a
directory that is there. -/
def target (files : Files) (path : String) : Except FileFault Location := do
  let r ← route path
  let directory ← files.walk r.start r.parts.dropLast
  files.enter directory
  match r.parts.getLast? with
  | none | some "." | some ".." => throw .isDirectory
  | some name =>
    if r.slashed then throw .isDirectory
    files.step directory name

/-- Replaces or creates the file at a path. -/
def write (files : Files) (path : String) (data : Bytes) : Except FileFault Files := do
  let l ← files.target path
  match files.entry? l with
  | some .directory => throw .isDirectory
  | _ => return files.insert l.key (.file data)

/-- The last name of a path, if it is that of a file or directory of its own. -/
def fileName? (path : String) : Option String :=
  ((Route.split path).filter (· ≠ ".")).getLast?.filter (· ≠ "..")

/-- The part of a file name after its last dot, if something precedes the dot. -/
def extension? (path : String) : Option String := do
  let reversed := (← fileName? path).toList.reverse
  let stem := (reversed.dropWhile (· ≠ '.')).drop 1
  if stem.isEmpty then none else some (String.ofList (reversed.takeWhile (· ≠ '.')).reverse)

/-- The files of that content, and the directories that hold them. -/
def ofList (contents : List (String × Bytes)) : Files :=
  contents.foldl (fun files (path, data) =>
    let r := Route.ofPath path
    let above := (List.range r.parts.length).drop 1 |>.map r.stop
    (above.foldl (fun files l => files.insert l.key .directory) files).insert
      (r.stop r.parts.length).key (.file data)) []

end Files

end Wirepack
