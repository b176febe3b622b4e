import LoadReplay.Disk.Basic

/-!
# Changing a disk

Making directories, writing a file line by line, moving a file and removing one. An operation that
is refused leaves the disk as it was, with two exceptions: `makeDirectories` keeps the directories
that it made before it was refused, and a file that is being written keeps what the device has taken
of it.
-/

namespace LoadReplay.Disk

/-- The disk with something at a place, instead of what stood there. -/
def put (d : Disk) (place : Place) (node : Node) : Disk :=
  { d with entries := d.entries.filter (·.1 ≠ place) ++ [(place, node)] }

/-- The disk with nothing at a place. -/
def clear (d : Disk) (place : Place) : Disk :=
  { d with entries := d.entries.filter (·.1 ≠ place) }

/-- Whether the device lets a step be done. -/
def permit (d : Disk) (step : FileStep) : Except DiskFault Unit :=
  match d.device.refusals.lookup step with
  | some text => .error (.refused text)
  | none => .ok ()

/-- Whether a path ends in a name for a directory already passed. -/
def endsInDots (path : String) : Bool :=
  match (Path.segments path).getLast? with
  | some name => Path.isDotName name
  | none => true

/-- Makes one directory. -/
def makeDirectory (d : Disk) (path : String) : Except DiskFault Disk := do
  let place ← d.locate path
  match d.node? place with
  | some _ => .error .exists
  | none => (d.permit (.directory place)).map fun () => d.put place .directory

/-- Makes the directory that some parts of a path name, after those above it where they are
missing; the disk holds what was made also when that is refused. -/
def makeParts (d : Disk) (parts : List String) : Disk × Except DiskFault Unit :=
  if h : parts = [] then (d, .ok ())
  else
    let path := "/".intercalate parts
    match d.makeDirectory path with
    | .ok d => (d, .ok ())
    | .error .notFound =>
      have : parts.dropLast.length < parts.length := by
        have := List.length_pos_iff.2 h
        simp only [List.length_dropLast]
        omega
      match makeParts d parts.dropLast with
      | (d, .error fault) => (d, .error fault)
      | (d, .ok ()) =>
        match d.makeDirectory path with
        | .ok d => (d, .ok ())
        | .error fault => (d, if d.isDirectory path then .ok () else .error fault)
    | .error fault => (d, if d.isDirectory path then .ok () else .error fault)
termination_by parts.length

/-- Makes a directory with those above it. -/
def makeDirectories (d : Disk) (path : String) : Disk × Except DiskFault Unit :=
  d.makeParts (Path.parts path)

/-! ## Writing files -/

/-- The place of the file that a path names; there may be one. -/
def filePlace (d : Disk) (path : String) : Except DiskFault Place := do
  let place ← d.locate path
  if Path.endsInSlash path then .error .isDirectory
  else
    match d.node? place with
    | some .directory => .error .isDirectory
    | _ => .ok place

/-- A file that is being written: its place and what was written to it so far. -/
structure OpenFile where
  place : Place
  written : Bytes

/-- Creates a file with nothing in it, instead of the file that stood there. -/
def createFile (d : Disk) (path : String) : Except DiskFault (Disk × OpenFile) := do
  let place ← d.filePlace path
  d.permit .create
  .ok (d.put place (.file []), ⟨place, []⟩)

/-- Writes a line to a file. How much of the file is on the device then is up to the device, also
where it refuses the line. -/
def writeLine (d : Disk) (file : OpenFile) (index : Nat) (line : Bytes) :
    Disk × Except DiskFault OpenFile :=
  let written := file.written ++ line
  (d.put file.place (.file (written.take d.device.taken)),
    (d.permit (.line index)).map fun () => { file with written })

/-- Writes lines to a file, the first of which is at an index. -/
def writeLines (d : Disk) (file : OpenFile) (index : Nat) :
    List Bytes → Disk × Except DiskFault OpenFile
  | [] => (d, .ok file)
  | line :: lines =>
    match d.writeLine file index line with
    | (d, .error fault) => (d, .error fault)
    | (d, .ok file) => d.writeLines file (index + 1) lines

/-- Puts on the device what is left of a file that was written. -/
def flush (d : Disk) (file : OpenFile) : Disk × Except DiskFault Unit :=
  match d.permit .flush with
  | .error fault => (d, .error fault)
  | .ok () => (d.put file.place (.file file.written), .ok ())

/-- Creates a file of lines and waits until all of it is on the device. -/
def fillFile (d : Disk) (path : String) (lines : List Bytes) : Disk × Except DiskFault Unit :=
  match d.createFile path with
  | .error fault => (d, .error fault)
  | .ok (d, file) =>
    match d.writeLines file 0 lines with
    | (d, .error fault) => (d, .error fault)
    | (d, .ok file) =>
      match d.flush file with
      | (d, .error fault) => (d, .error fault)
      | (d, .ok ()) => (d, d.permit .sync)

/-- Moves a file, instead of the file that stood there. -/
def moveFile (d : Disk) (source target : String) : Except DiskFault Disk := do
  let old ← d.locate source
  let new ← d.locate target
  if endsInDots source || endsInDots target then .error .busy
  else
    match d.node? old with
    | some (.file content) =>
      if Path.endsInSlash source || Path.endsInSlash target then .error .notDirectory
      else
        match d.node? new with
        | some .directory => .error .isDirectory
        | _ => (d.permit .move).map fun () => (d.clear old).put new (.file content)
    | some .directory => .error .isDirectory
    | none => .error .notFound

/-- Removes a file. -/
def removeFile (d : Disk) (path : String) : Except DiskFault Disk := do
  let place ← d.locate path
  match ← d.find path with
  | .directory => .error .isDirectory
  | .file _ => (d.permit .remove).map fun () => d.clear place

/-! ## Filling and listing -/

/-- The places above a place, from the top. -/
def above (place : Place) : List Place :=
  (List.range (place.length - 1)).map fun n => place.take (n + 1)

/-- The place that a path names where every directory on it is there. -/
def placeOf (path : String) : Place :=
  (Path.segments path).foldl (fun place name =>
    if name = "." then place else if name = ".." then place.dropLast else place ++ [name]) []

/-- Puts something at the place that a path names, with the directories above it. -/
def provide (d : Disk) (path : String) (node : Node) : Disk :=
  let place := placeOf path
  let missing := (above place).filter fun p => (d.node? p).isNone
  (missing.foldl (fun d p => d.put p .directory) d).put place node

/-- The name of a place in a listing; directories end in a slash. -/
def listedName (entry : Place × Node) : String :=
  let name := "/".intercalate entry.1
  match entry.2 with
  | .directory => name ++ "/"
  | .file _ => name

/-- Everything on the disk by its name, in the order of the names: the content of a file, and
nothing for a directory. -/
def listing (d : Disk) : List (String × Option Bytes) :=
  let named := d.entries.map fun entry =>
    (listedName entry, match entry.2 with
      | .directory => none
      | .file content => some content)
  named.mergeSort fun a b => decide (a.1 ≤ b.1)

end LoadReplay.Disk
