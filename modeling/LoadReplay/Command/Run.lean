import LoadReplay.Command.Buckets
import LoadReplay.Command.Replay

/-!
# Running a command line

Reads a command line and runs its subcommand on a disk.
-/

namespace LoadReplay.Command

/-- Runs a subcommand. -/
def runParsed (disk : Disk) (line : CommandLine) (endpoint : Endpoint) (cancelAt : Option Time) :
    Transcript :=
  match line.subcommand with
  | .buckets =>
    match line.traceSettings disk with
    | .error error => .failed disk [] error
    | .ok settings => buckets disk settings
  | .replay =>
    match line.replaySettings disk with
    | .error error => .failed disk [] error
    | .ok settings => replay disk settings endpoint cancelAt

/-- Runs a command line. -/
def run (disk : Disk) (environment : List (String × String)) (args : List String)
    (endpoint : Endpoint) (cancelAt : Option Time) : Transcript :=
  match CommandLine.read environment args with
  | .error fault => .failed disk [] (.usage fault)
  | .ok line => runParsed disk line endpoint cancelAt

end LoadReplay.Command
