import LoadReplay.Csv.Header
import LoadReplay.Csv.Record
import LoadReplay.Timestamp
import LoadReplay.Text.Decimal

/-!
# Rows of a trace

A trace is a table with a header that has at least the columns for the timestamp and the two token
counts. Blank records are skipped. The first row that cannot be read makes the trace unreadable,
and within it the first of the three cells.
-/

namespace LoadReplay

/-- One request as the trace tells it, and the line it starts on. -/
structure TraceRow where
  timestamp : Double
  contextTokens : Nat
  generatedTokens : Nat
  line : Nat
  deriving Repr, DecidableEq

/-- Why a table is no trace. -/
inductive TableFault where
  | noHeader
  | missingColumn (name : String) (header : List String)
  | missingField (line : Nat) (name : String)
  | badTimestamp (line : Nat) (text : String)
  | badCount (line : Nat) (name text : String)
  | noRows
  deriving Repr, DecidableEq

/-- The column of the timestamps. -/
def timestampColumn : String := "TIMESTAMP"

/-- The column of the token counts of the requests. -/
def contextColumn : String := "ContextTokens"

/-- The column of the token counts of the answers. -/
def generatedColumn : String := "GeneratedTokens"

/-- The text shown for a fault. -/
def TableFault.message : TableFault → String
  | noHeader => "trace is empty (no header)"
  | missingColumn name header =>
    let names := ", ".intercalate header
    s!"missing column '{name}' (header: {names})"
  | missingField line name => s!"line {line}: missing field '{name}'"
  | badTimestamp line text => s!"line {line}: unparsable {timestampColumn} '{text}'"
  | badCount line name text =>
    s!"line {line}: {name} must be a non-negative integer, got '{text}'"
  | noRows => "trace has a header but no rows"

/-- The position of a column that has to be there. -/
def Csv.Header.require (h : Csv.Header) (name : String) : Except TableFault Nat :=
  match h.column? name with
  | some place => .ok place
  | none => .error (.missingColumn name h.names)

namespace TraceRow

/-- Where the three columns are. -/
structure Columns where
  timestamp : Nat
  context : Nat
  generated : Nat
  deriving Repr, DecidableEq

/-- The places of the columns in a header. -/
def columns (h : Csv.Header) : Except TableFault Columns := do
  let timestamp ← h.require timestampColumn
  let context ← h.require contextColumn
  let generated ← h.require generatedColumn
  .ok { timestamp, context, generated }

/-- Token counts are below this number. -/
def countBound : Nat := 1 <<< 64

/-- A cell without the blanks at its ends. -/
def cell (line : Nat) (fields : List (List Char)) (place : Nat) (name : String) :
    Except TableFault (List Char) :=
  match fields[place]? with
  | some field => .ok (Text.trim field)
  | none => .error (.missingField line name)

/-- A token count. -/
def count (line : Nat) (fields : List (List Char)) (place : Nat) (name : String) :
    Except TableFault Nat := do
  let text ← cell line fields place name
  match Text.natBelow? countBound text with
  | some n => .ok n
  | none => .error (.badCount line name (String.ofList text))

/-- The row in a record. -/
def ofRecord (columns : Columns) (record : Csv.Record) : Except TableFault TraceRow := do
  let fields := Csv.fields Csv.comma record.text
  let text ← cell record.line fields columns.timestamp timestampColumn
  match Timestamp.read? text with
  | none => .error (.badTimestamp record.line (String.ofList text))
  | some timestamp =>
    let contextTokens ← count record.line fields columns.context contextColumn
    let generatedTokens ← count record.line fields columns.generated generatedColumn
    .ok { timestamp, contextTokens, generatedTokens, line := record.line }

/-- The rows of a trace. -/
def ofText (text : List Char) : Except TableFault (List TraceRow) :=
  match (Csv.records text).filter fun r => !Text.isBlankText r.text with
  | [] => .error .noHeader
  | header :: records => do
    let columns ← columns (Csv.Header.ofFields (Csv.fields Csv.comma header.text))
    let rows ← records.mapM (ofRecord columns)
    if rows.isEmpty then .error .noRows else .ok rows

/-- The column of the token counts of the requests, as numbers. -/
def contextValues (rows : List TraceRow) : List Double :=
  rows.map fun r => Double.ofNat r.contextTokens

/-- The column of the token counts of the answers, as numbers. -/
def generatedValues (rows : List TraceRow) : List Double :=
  rows.map fun r => Double.ofNat r.generatedTokens

end TraceRow

end LoadReplay
