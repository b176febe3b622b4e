import LoadReplay.Text.Split
import LoadReplay.Text.Utf8

/-!
# A disk

A disk is a tree of directories and files below a working directory. A path is resolved name by
name: every name but the last has to lead to a directory, `.` stays where it is and `..` goes up,
though not above the working directory. The device that a disk is on may refuse any step of making
a directory or writing a file.
-/

namespace LoadReplay

/-- Why the disk refuses an operation. -/
inductive DiskFault where
  | notFound
  | busy
  | exists
  | notDirectory
  | isDirectory
  | nameTooLong
  | notText
  | nulInPath
  | refused (text : String)
  deriving Repr, DecidableEq

/-- The text shown for a refusal. -/
def DiskFault.message : DiskFault → String
  | notFound => "No such file or directory (os error 2)"
  | busy => "Device or resource busy (os error 16)"
  | «exists» => "File exists (os error 17)"
  | notDirectory => "Not a directory (os error 20)"
  | isDirectory => "Is a directory (os error 21)"
  | nameTooLong => "File name too long (os error 36)"
  | notText => "stream did not contain valid UTF-8"
  | nulInPath => "file name contained an unexpected NUL byte"
  | refused text => text

/-- What stands at a place of a disk. -/
inductive Node where
  | file (content : Bytes)
  | directory
  deriving Repr, DecidableEq

/-- The names that lead from the working directory to a place. -/
abbrev Place := List String

/-- Making the directory at a place, a step of writing a file, or what becomes of it then. -/
inductive FileStep where
  | directory (place : Place)
  | create
  | line (index : Nat)
  | flush
  | sync
  | move
  | remove
  deriving Repr, DecidableEq

/-- A device: the steps that it refuses, each with the text of the refusal, and how many bytes of a
file are on it before the file is flushed. -/
structure Device where
  refusals : List (FileStep × String)
  taken : Nat
  deriving Repr, DecidableEq

/-- A device that refuses nothing. -/
def Device.reliable : Device := ⟨[], 0⟩

/-- The places below the working directory with what stands there, and the device below them. -/
structure Disk where
  entries : List (Place × Node)
  device : Device := .reliable
  deriving Repr, DecidableEq

/-! ## Paths as texts -/

namespace Path

/-- The names in a path. -/
def segments (path : String) : List String :=
  ((Text.splitOn '/' path.toList).filter (· ≠ [])).map String.ofList

/-- Whether a path ends in a slash, so that it can only name a directory. -/
def endsInSlash (path : String) : Bool := path.toList.getLast? == some '/'

/-- The longest name, in bytes. -/
def maxNameBytes : Nat := 255

/-- The longest path, in bytes. -/
def maxPathBytes : Nat := 4095

/-- A name that stands for a directory already passed. -/
def isDotName (name : String) : Bool := name == "." || name == ".."

/-- The slash that a path starts with, if it does. -/
def root (path : String) : String := if path.toList.head? == some '/' then "/" else ""

/-- The parts of a path as it is taken apart: a name `.` counts only at the start. -/
def parts (path : String) : List String :=
  match segments path with
  | [] => []
  | first :: rest =>
    if root path = "" then first :: rest.filter (· ≠ ".") else (first :: rest).filter (· ≠ ".")

/-- The path of some parts behind the root of a path. -/
def join (path : String) (parts : List String) : String := root path ++ "/".intercalate parts

/-- The path without its last part; `none` when there is no part. -/
def parent? (path : String) : Option String :=
  match parts path with
  | [] => none
  | ps => some (join path ps.dropLast)

/-- The last part, unless it stands for a directory. -/
def fileName? (path : String) : Option String :=
  match (parts path).getLast? with
  | some name => if isDotName name then none else some name
  | none => none

/-- The path with another name in the place of its file name. -/
def withFileName (path name : String) : String :=
  let kept := if (fileName? path).isSome then (parts path).dropLast else parts path
  join path (kept ++ [name])

end Path

/-! ## Looking up -/

namespace Disk

/-- A disk with nothing on it. -/
def empty : Disk := { entries := [] }

/-- What stands at a place; the working directory is always there. -/
def node? (d : Disk) (place : Place) : Option Node :=
  if place = [] then some .directory else d.entries.lookup place

/-- The place that a name leads to from a directory; it may be free. -/
def enter (d : Disk) (place : Place) (name : String) : Except DiskFault Place :=
  match d.node? place with
  | none => .error .notFound
  | some (.file _) => .error .notDirectory
  | some .directory =>
    if name = "." then .ok place
    else if name = ".." then .ok place.dropLast
    else if Path.maxNameBytes < name.utf8ByteSize then .error .nameTooLong
    else .ok (place ++ [name])

/-- The place that a path leads to; it may be free, but not the directory that it is in. -/
def locate (d : Disk) (path : String) : Except DiskFault Place :=
  if path.toList.contains '\x00' then .error .nulInPath
  else if path = "" then .error .notFound
  else if Path.maxPathBytes < path.utf8ByteSize then .error .nameTooLong
  else (Path.segments path).foldlM d.enter []

/-- What a path leads to. -/
def find (d : Disk) (path : String) : Except DiskFault Node := do
  let place ← d.locate path
  match d.node? place with
  | none => .error .notFound
  | some .directory => .ok .directory
  | some (.file content) =>
    if Path.endsInSlash path then .error .notDirectory else .ok (.file content)

/-- Whether a path leads to anything. -/
def contains (d : Disk) (path : String) : Bool := (d.find path).toBool

/-- Whether a path leads to a directory. -/
def isDirectory (d : Disk) (path : String) : Bool :=
  match d.find path with
  | .ok .directory => true
  | _ => false

/-- The text of a file. -/
def readText (d : Disk) (path : String) : Except DiskFault (List Char) := do
  match ← d.find path with
  | .directory => .error .isDirectory
  | .file content =>
    match Utf8.decode? content with
    | some text => .ok text
    | none => .error .notText

end Disk

end LoadReplay
