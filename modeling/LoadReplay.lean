import LoadReplay.Bucket.Basic
import LoadReplay.Bucket.Column
import LoadReplay.Calendar
import LoadReplay.Command.Basic
import LoadReplay.Command.Buckets
import LoadReplay.Command.Replay
import LoadReplay.Command.Run
import LoadReplay.Csv.Field
import LoadReplay.Csv.Header
import LoadReplay.Csv.Record
import LoadReplay.Csv.Row
import LoadReplay.Disk.Basic
import LoadReplay.Disk.Change
import LoadReplay.Double.Arithmetic
import LoadReplay.Double.Basic
import LoadReplay.Double.Reader
import LoadReplay.Double.Shortest
import LoadReplay.Duration
import LoadReplay.Endpoint.Basic
import LoadReplay.Endpoint.Client
import LoadReplay.Endpoint.Dispatch
import LoadReplay.Error
import LoadReplay.Event
import LoadReplay.Json.Basic
import LoadReplay.Json.Number
import LoadReplay.Json.Parser
import LoadReplay.Json.Writer
import LoadReplay.Log
import LoadReplay.Main
import LoadReplay.Proofs.Replay.Course
import LoadReplay.Proofs.Replay.Timetable
import LoadReplay.Replay.Basic
import LoadReplay.Replay.Concurrent
import LoadReplay.Replay.Run
import LoadReplay.Replay.Script
import LoadReplay.Replay.Sequential
import LoadReplay.Report.Basic
import LoadReplay.Report.Measurement
import LoadReplay.Report.Summary
import LoadReplay.Session
import LoadReplay.Settings.CommandLine
import LoadReplay.Settings.Effective
import LoadReplay.Settings.File
import LoadReplay.Settings.Layer
import LoadReplay.Settings.Options
import LoadReplay.Target
import LoadReplay.Text.Base64
import LoadReplay.Text.Blank
import LoadReplay.Text.Decimal
import LoadReplay.Text.Quoted
import LoadReplay.Text.Split
import LoadReplay.Text.Unprintable
import LoadReplay.Text.Utf8
import LoadReplay.Timestamp
import LoadReplay.Toml.Basic
import LoadReplay.Toml.Number
import LoadReplay.Toml.Parser
import LoadReplay.Toml.Table
import LoadReplay.Toml.Text
import LoadReplay.Trace.Load
import LoadReplay.Trace.Prompts
import LoadReplay.Trace.Row
import LoadReplay.Url.Basic
import LoadReplay.Url.Domain
import LoadReplay.Url.Host
import LoadReplay.Url.Parser
import LoadReplay.Url.Percent
import LoadReplay.Url.Punycode
import LoadReplay.Url.Query
import LoadReplay.Proofs.Replay.Ended
import LoadReplay.Proofs.Replay.Sequential
import LoadReplay.Proofs.Replay.Flights
import LoadReplay.Proofs.Replay.Concurrent
import LoadReplay.Proofs.Replay.Chronicle
import LoadReplay.Proofs.Replay.Departures
import LoadReplay.Proofs.Replay.Safety
import LoadReplay.Proofs.Replay.Records
import LoadReplay.Proofs.Replay.Uncancelled
import LoadReplay.Proofs.Replay.Cancellation
import LoadReplay.Proofs.Replay.Drift
import LoadReplay.Proofs.Double.Order
import LoadReplay.Proofs.Event.Accepted
import LoadReplay.Proofs.Replay.Punctuality
import LoadReplay.Proofs.Replay.Panics
import LoadReplay.Proofs.Except
import LoadReplay.Proofs.Session.Fatal
import LoadReplay.Proofs.Settings.Precedence
import LoadReplay.Proofs.Csv.RoundTrip
import LoadReplay.Proofs.Csv.Quoting
import LoadReplay.Proofs.Disk.Path
import LoadReplay.Proofs.Disk.Change
import LoadReplay.Proofs.Disk.Filling
import LoadReplay.Proofs.Report.Atomic
import LoadReplay.Proofs.Replay.InStep
import LoadReplay.Proofs.Session.Isolation
import LoadReplay.Proofs.Disk.Walk
import LoadReplay.Proofs.Report.Direct
import LoadReplay.Proofs.Trace.Order
import LoadReplay.Proofs.Trace.Selection
import LoadReplay.Proofs.Text.Utf8
import LoadReplay.Proofs.Json.Number
import LoadReplay.Proofs.Json.Object
import LoadReplay.Proofs.Event.Payload
import LoadReplay.Proofs.Trace.Timestamps
import LoadReplay.Proofs.Trace.Source
import LoadReplay.Proofs.Endpoint.Delivery
import LoadReplay.Proofs.Session.Fidelity
import LoadReplay.Proofs.Bucket.Distribution
import LoadReplay.Proofs.Command.Inspection
import LoadReplay.Proofs.Settings.Given
import LoadReplay.Proofs.Settings.Layers
import LoadReplay.Proofs.Settings.Timeout
import LoadReplay.Proofs.Session.Shape
import LoadReplay.Proofs.Csv.Lines
import LoadReplay.Proofs.Trace.Reading
import LoadReplay.Proofs.Trace.Mark
import LoadReplay.Proofs.Trace.Columns
import LoadReplay.Proofs.Replay.Warnings
import LoadReplay.Proofs.Endpoint.Warnings
import LoadReplay.Proofs.Session.Warnings
import LoadReplay.Proofs.Csv.OnePass
import LoadReplay.Proofs.Text.Split
import LoadReplay.Proofs.Trace.LineEndings
import LoadReplay.Proofs.Url.Query
import LoadReplay.Proofs.Url.Blocking
import LoadReplay.Proofs.Double.Exact
import LoadReplay.Proofs.Double.Quarters
import LoadReplay.Proofs.Double.Decimal
import LoadReplay.Proofs.Bucket.Ranks
import LoadReplay.Proofs.Bucket.Quartiles
import LoadReplay.Proofs.Bucket.Thresholds
import LoadReplay.Proofs.Bucket.Intervals
import LoadReplay.Proofs.Bucket.Counts
import LoadReplay.Proofs.Replay.Overlap
import LoadReplay.Proofs.Replay.Cut
import LoadReplay.Proofs.Double.Amount
import LoadReplay.Proofs.Bucket.Percentiles
import LoadReplay.Proofs.Report.Latency
import LoadReplay.Proofs.Timestamp.Calendar
import LoadReplay.Proofs.Timestamp.Spellings
import LoadReplay.Proofs.Double.Signed
import LoadReplay.Proofs.Trace.Offsets
import LoadReplay.Proofs.Timestamp.Chronology
import LoadReplay.Proofs.Trace.Chronology
import LoadReplay.Proofs.Bucket.Inside
import LoadReplay.Proofs.Url.Escapes
import LoadReplay.Proofs.Url.Path
import LoadReplay.Proofs.Url.Origin
import LoadReplay.Proofs.Url.Action
import LoadReplay.Proofs.Event.Replayable
