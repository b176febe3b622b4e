import LoadReplay.Csv.Row
import LoadReplay.Disk.Change
import LoadReplay.Log
import LoadReplay.Report.Measurement

/-!
# Reports

A report is a table with a row for each measurement. It is first written to a temporary file beside
its path, line by line, and then moved there, so that no half of a report is ever found at the path.
The temporary file is removed where any step of this fails. A replay whose report cannot be written
does not fail.
-/

namespace LoadReplay

namespace Report

/-- The names of the columns. -/
def columns : List String :=
  ["rel_timestamp", "bucket_id", "context_tokens", "generated_tokens", "client_latency_sec",
    "server_duration_ms", "status_code", "error"]

/-- A row with its line break. -/
def line (cells : List (Option String)) : List Char :=
  Csv.writeRow (cells.map fun cell => cell.map String.toList) ++ ['\n']

/-- The lines of a report: the names of the columns and the rows. -/
def lines (records : List Measurement) : List (List Char) :=
  line (columns.map some) :: records.map fun m => line m.cells

/-- The whole report. -/
def text (records : List Measurement) : List Char :=
  line (columns.map some) ++ records.flatMap fun m => line m.cells

/-- The path of the temporary file. -/
def temporaryPath (path : String) : String :=
  Path.withFileName path ((Path.fileName? path).getD "" ++ ".tmp")

/-- Makes the directories above a path. -/
def makeParents (disk : Disk) (path : String) : Disk × Except DiskFault Unit :=
  match Path.parent? path with
  | none => (disk, .ok ())
  | some parent => disk.makeDirectories parent

/-- Writes a report to the temporary file and moves this to its path. -/
def replace (disk : Disk) (path : String) (records : List Measurement) :
    Disk × Except DiskFault Unit :=
  match disk.fillFile (temporaryPath path) ((lines records).map Utf8.encode) with
  | (disk, .error fault) => (disk, .error fault)
  | (disk, .ok ()) =>
    match disk.moveFile (temporaryPath path) path with
    | .error fault => (disk, .error fault)
    | .ok disk => (disk, .ok ())

/-- Writes a report. Where that fails the temporary file is removed, unless that fails as well. -/
def write (disk : Disk) (path : String) (records : List Measurement) :
    Disk × Except DiskFault Unit :=
  match makeParents disk path with
  | (disk, .error fault) => (disk, .error fault)
  | (disk, .ok ()) =>
    match replace disk path records with
    | (disk, .error fault) =>
      ((disk.removeFile (temporaryPath path)).toOption.getD disk, .error fault)
    | (disk, .ok ()) => (disk, .ok ())

end Report

/-- Why no report is written. -/
inductive SkipReason where
  | fireAndForget
  | noPath
  | noRecords
  deriving Repr, DecidableEq

/-- The text shown for a reason. -/
def SkipReason.text : SkipReason → String
  | fireAndForget => "fire-and-forget mode records nothing"
  | noPath => "no output path configured"
  | noRecords => "no records collected"

/-- What became of the report. -/
inductive ReportStatus where
  | written (path : String) (rows : Nat)
  | skipped (reason : SkipReason)
  | failed (error : Error)
  deriving Repr, DecidableEq

/-- Writes the report of a replay in blocking mode to its path, if there is one and there are
records. -/
def Report.emit (disk : Disk) (mode : Mode) (output : Option String)
    (records : List Measurement) : Disk × Logged ReportStatus :=
  match mode, output with
  | .fireAndForget, _ => (disk, ⟨[], .skipped .fireAndForget⟩)
  | .blocking, none => (disk, ⟨[], .skipped .noPath⟩)
  | .blocking, some path =>
    if records.isEmpty then (disk, ⟨[], .skipped .noRecords⟩)
    else
      match Report.write disk path records with
      | (disk, .ok ()) =>
        (disk, ⟨[.reportWritten path records.length], .written path records.length⟩)
      | (disk, .error fault) =>
        (disk, ⟨[.reportFailed (.report path fault)], .failed (.report path fault)⟩)

end LoadReplay
