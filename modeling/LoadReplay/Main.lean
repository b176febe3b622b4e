import LoadReplay.Command.Run
import LoadReplay.Disk.Change

/-!
# The program

Takes the files that the settings name from the directory where the program runs, runs the command
line on them, prints the lines and writes the report. No connection is opened: every request ends as
one to an endpoint where nothing listens.
-/

namespace LoadReplay.Program

/-- What stands at a path; nothing if it cannot be read. -/
def nodeAt? (path : String) : IO (Option Node) := do
  try
    return some (.file (← IO.FS.readBinFile path).toList)
  catch
    | .inappropriateType .. => return some .directory
    | _ => return none

/-- The disk with what stands at some paths. -/
def withNodes (disk : Disk) : List String → IO Disk
  | [] => return disk
  | path :: paths => do
    match ← nodeAt? path with
    | some node => withNodes (disk.provide path node) paths
    | none => withNodes disk paths

/-- The variables that a command line may take options from. -/
def environment : IO (List (String × String)) := do
  let names := (CommandOption.allowed .replay).filterMap CommandOption.environmentName?
  let found ← names.mapM fun name => return (← IO.getEnv name).map (name, ·)
  return found.filterMap id

/-- The files that the settings in a layer name. -/
def named (layer : Layer) : List String :=
  [layer.trace, layer.prompts, layer.output.bind Path.parent?, layer.output].filterMap id

/-- The disk with the configuration file of a command line and the files that it names. -/
def diskFor (line : CommandLine) : IO Disk := do
  let disk ← withNodes .empty [line.configPath]
  match line.merged disk with
  | .ok layer => withNodes disk (named layer)
  | .error _ => return disk

/-- Writes the report, with the directory that it is in. -/
def writeReport (disk : Disk) (path : String) : IO Unit := do
  match disk.find path with
  | .ok (.file content) =>
    match Path.parent? path with
    | none | some "" => pure ()
    | some directory => IO.FS.createDirAll directory
    IO.FS.writeBinFile path ⟨content.toArray⟩
  | _ => pure ()

/-- Writes the report of a replay that was not refused. -/
def writeOutput (line : CommandLine) (disk : Disk) : IO Unit := do
  match line.subcommand, line.merged disk with
  | .replay, .ok layer => layer.output.forM (writeReport disk)
  | _, _ => pure ()

/-- An endpoint where nothing listens. -/
def unreachable : Endpoint := ⟨"", false, []⟩

/-- Runs the program and tells its exit code. -/
def runWith (args : List String) : IO UInt32 := do
  let environment ← environment
  let disk ← match CommandLine.read environment args with
    | .ok line => diskFor line
    | .error _ => pure .empty
  let transcript := Command.run disk environment args unreachable none
  transcript.output.forM IO.println
  transcript.warnings.forM IO.eprintln
  match transcript.error, CommandLine.read environment args with
  | none, .ok line => writeOutput line transcript.disk; return 0
  | none, .error _ => return 0
  | some error, _ => IO.eprintln ("Error: " ++ error.message); return 1

end LoadReplay.Program

/-- Runs the command line. -/
def main (args : List String) : IO UInt32 := LoadReplay.Program.runWith args
