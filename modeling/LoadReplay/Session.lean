import LoadReplay.Endpoint.Dispatch
import LoadReplay.Replay.Run
import LoadReplay.Report.Basic
import LoadReplay.Report.Summary

/-!
# Sessions

A session replays events, sums the replay up and writes its report. A report that cannot be written
changes neither the outcome nor the summary; a replay that fails ends the session, and what the
session has done by then stands beside the error.
-/

namespace LoadReplay

/-- Everything that remains of a replay. -/
structure Session where
  outcome : Outcome
  calls : List Call
  summary : Summary
  report : ReportStatus
  disk : Disk
  deriving Repr, DecidableEq

namespace Session

/-- What remains of a session that failed: its error, the calls that it had made, and the disk. -/
structure Failure where
  error : Error
  calls : List Call
  disk : Disk
  deriving Repr, DecidableEq

instance : Coe Failure Error := ⟨Failure.error⟩

/-- The entry that is logged when a replay is over. -/
def finishedLog (o : Outcome) : LogEntry := .finished o.elapsed o.dispatched o.total o.cancelled

/-- Replays events with a dispatcher and writes the report. -/
def runWith (disk : Disk) (events : List Event) (options : ReplayOptions)
    (dispatcher : Dispatcher) (cancelAt : Option Time) : Logged (Except Failure Session) :=
  match Replay.run options.scale options.pacing dispatcher cancelAt events with
  | .error failure =>
    { log := failure.log
      value := .error { error := failure.error, calls := failure.calls, disk } }
  | .ok replay =>
    let outcome := replay.value.outcome
    let (disk, report) := Report.emit disk options.mode options.output outcome.records
    { log := replay.log ++ finishedLog outcome :: report.log
      value := .ok
        { outcome
          calls := replay.value.calls
          summary := .of outcome
          report := report.value
          disk } }

/-- Replays events against an endpoint; options and events are checked before anything is sent. -/
def run (disk : Disk) (events : List Event) (options : ReplayOptions) (endpoint : Endpoint)
    (cancelAt : Option Time) : Logged (Except Failure Session) :=
  match options.validate, Event.validate events with
  | .error fault, _ => ⟨[], .error { error := .configuration fault, calls := [], disk }⟩
  | .ok (), .error fault =>
    ⟨[], .error { error := .trace (.events fault), calls := [], disk }⟩
  | .ok (), .ok () =>
    let session := runWith disk events options (endpoint.dispatcher options) cancelAt
    { session with log := .starting options events.length :: session.log }

end Session

end LoadReplay
