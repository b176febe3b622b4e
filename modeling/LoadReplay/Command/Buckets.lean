import LoadReplay.Command.Basic
import LoadReplay.Trace.Load

/-!
# The command `buckets`

Describes the token counts of a trace and shows the buckets and how many rows fall into each.
-/

namespace LoadReplay.Command

/-- The line that describes a column. -/
def statsLine (name : String) (s : ColumnStats) : String :=
  let rounded (d : Double) : String := Text.alignRight 9 (d.fixed 1)
  let exact (d : Double) : String := Text.alignRight 7 d.plain
  "  " ++ Text.alignLeft 16 name ++ " mean " ++ rounded s.mean ++ "  std " ++ rounded s.deviation ++
    "  min " ++ exact s.least ++ "  25% " ++ exact s.lowerQuartile ++ "  50% " ++ exact s.median ++
    "  75% " ++ exact s.upperQuartile ++ "  max " ++ exact s.greatest

/-- The line about a bucket: how many of all rows fall into it. -/
def shareLine (total : Nat) (label : String) (count : Nat) : String :=
  let share := 100 * Double.ofNat count / Double.ofNat total
  "  " ++ Text.alignRight 8 label ++ " : " ++ Text.alignRight 8 (Text.ofNat count) ++ "  " ++
    Text.alignRight 5 (share.fixed 1) ++ "%"

/-- The lines that describe the columns of rows. -/
def statsLines (rows : List TraceRow) : Except ColumnFault (List String) := do
  let context ← ColumnStats.of (TraceRow.contextValues rows)
  let generated ← ColumnStats.of (TraceRow.generatedValues rows)
  .ok [s!"Token statistics ({rows.length} rows)", statsLine contextColumn context,
    statsLine generatedColumn generated, ""]

/-- The lines that show buckets. -/
def bucketLines (buckets : Buckets) : List String :=
  s!"Buckets by {contextColumn}" :: buckets.thresholds.map ("  " ++ ·) ++ [""]

/-- The lines about how many rows fall into each bucket. -/
def shareLines (buckets : Buckets) (rows : List TraceRow) : Except BucketFault (List String) :=
  (buckets.distribution (TraceRow.contextValues rows)).map fun counts =>
    counts.map fun (label, count) => shareLine rows.length label count

/-- An error about columns and buckets. -/
def bucketError (fault : BucketFault) : CommandError := .replay (.configuration (.bucket fault))

/-- Describes the trace that the settings name. -/
def buckets (disk : Disk) (settings : TraceSettings) : Transcript :=
  match Trace.readRows disk settings.trace with
  | .error fault => .failed disk [] (.replay (.trace fault))
  | .ok rows =>
    match statsLines rows with
    | .error fault => .failed disk [] (bucketError (.column fault))
    | .ok stats =>
      match settings.buckets.build (TraceRow.contextValues rows) with
      | .error fault => .failed disk stats (bucketError fault)
      | .ok buckets =>
        let shown := stats ++ bucketLines buckets
        match shareLines buckets rows with
        | .error fault => .failed disk shown (bucketError fault)
        | .ok shares =>
          { output := shown ++ shares, warnings := [], error := none, disk, requests := [] }

end LoadReplay.Command
