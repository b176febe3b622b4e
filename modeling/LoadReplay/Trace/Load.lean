import LoadReplay.Log
import LoadReplay.Trace.Prompts

/-!
# From rows to events

The rows are sorted by their timestamps, rows of one time keeping their order, and cut off at a
limit; an event's offset is its distance from the first row. `Trace.load` reads a trace and its
prompts from a disk; the buckets are those of all rows, whatever the limit.
-/

namespace LoadReplay.Trace

/-- The rows from the earliest to the latest. -/
def sortRows (rows : List TraceRow) : List TraceRow :=
  rows.mergeSort fun a b => Double.totalLe a.timestamp b.timestamp

/-- The first rows, up to a limit if there is one. -/
def limitRows (limit : Option Nat) (rows : List TraceRow) : List TraceRow :=
  match limit with
  | some n => rows.take n
  | none => rows

/-- The event of a row with the label that its token count has, if it has one. -/
def labelledEvent (prompts : Prompts) (start : Double) (row : TraceRow) :
    Except BucketFault String → Except TraceFault Event
  | .error fault => .error (.unclassified row.line (.bucket fault))
  | .ok bucket =>
    match prompts.find? bucket with
    | none => .error (.noPrompt bucket prompts.labels)
    | some prompt =>
      .ok
        { offset := row.timestamp - start, bucket, prompt
          contextTokens := row.contextTokens, generatedTokens := row.generatedTokens }

/-- The event of a row in a trace that starts at a timestamp. -/
def eventOf (buckets : Buckets) (prompts : Prompts) (start : Double) (row : TraceRow) :
    Except TraceFault Event :=
  labelledEvent prompts start row (buckets.classify (Double.ofNat row.contextTokens))

/-- The events of rows. -/
def events (rows : List TraceRow) (buckets : Buckets) (prompts : Prompts) (limit : Option Nat) :
    Except TraceFault (List Event) :=
  match limitRows limit (sortRows rows) with
  | [] => .error .noneLeft
  | first :: rest => do
    let events ← (first :: rest).mapM (eventOf buckets prompts first.timestamp)
    match Event.validate events with
    | .error fault => .error (.events fault)
    | .ok () => .ok events

/-! ## Loading -/

/-- A trace with its prompts, ready to be replayed. -/
structure Loaded where
  events : List Event
  totalRows : Nat
  thresholds : List String
  deriving Repr, DecidableEq

/-- The rows of the trace in a file. -/
def readRows (disk : Disk) (path : String) : Except TraceFault (List TraceRow) :=
  match disk.readText path with
  | .error fault => .error (.unreadable path fault)
  | .ok text => (TraceRow.ofText text).mapError .table

/-- The prompts in a file. -/
def readPrompts (disk : Disk) (path : String) : Except TraceFault Prompts :=
  match disk.readText path with
  | .error fault => .error (.unreadablePrompts path fault)
  | .ok text =>
    match Prompts.ofText? text with
    | some prompts => .ok prompts
    | none => .error (.badPrompts path)

/-- The buckets that are asked for, made from rows. -/
def bucketsFor (choice : BucketChoice) (rows : List TraceRow) : Except Error Buckets :=
  (choice.build (TraceRow.contextValues rows)).mapError fun f => .configuration (.bucket f)

/-- The events of the trace in a file, and how many of its rows and which thresholds they come
from. -/
def load (disk : Disk) (tracePath promptsPath : String) (choice : BucketChoice)
    (limit : Option Nat) : Logged (Except Error Loaded) :=
  let opening := [LogEntry.loadingTrace tracePath]
  match (readRows disk tracePath).mapError Error.trace with
  | .error e => ⟨opening, .error e⟩
  | .ok rows =>
    match bucketsFor choice rows with
    | .error e => ⟨opening, .error e⟩
    | .ok buckets =>
      let thresholds := buckets.thresholds
      let log := opening ++ thresholds.map .threshold
      match do events rows buckets (← readPrompts disk promptsPath) limit with
      | .error fault => ⟨log, .error (.trace fault)⟩
      | .ok events =>
        ⟨log ++ [.loadedTrace rows.length events.length],
          .ok { events, totalRows := rows.length, thresholds }⟩

end LoadReplay.Trace
