import LoadReplay.Replay.Concurrent
import LoadReplay.Replay.Sequential
import LoadReplay.Settings.Options

/-!
# Running a replay

`Replay.run` checks the scale, the events and their deadlines, in this order, and then dispatches
the events with the chosen pacing. A check that fails ends the replay where it stands: its `Failure`
tells the calls and the log beside the error.
-/

namespace LoadReplay

namespace Replay

/-- A finished replay with the calls that it made. -/
structure Finished where
  outcome : Outcome
  calls : List Call
  deriving Repr, DecidableEq

/-- A replay that failed, with the calls that it had made and what it had logged by then. -/
structure Failure where
  error : Error
  calls : List Call
  log : List LogEntry
  deriving Repr, DecidableEq

/-- A replay that fails when it has come so far. -/
def failAt (course : Course) (error : Error) : Failure :=
  { error, calls := course.calls, log := course.log }

/-- The departures of events that can be replayed. -/
def departures (scale : Double) (events : List Event) : Except Error (List Departure) := do
  (validateScale scale).mapError .configuration
  (Event.validate events).mapError fun f => .trace (.events f)
  (Departure.ofEvents scale 0 events).mapError fun f => .trace (.events f)

/-- What a replay leaves behind, and its log. -/
def finish (total : Nat) (course : Course) (records : List Measurement) (maxInflight : Nat)
    (cancelled : Bool) : Logged Finished :=
  { log := course.log ++ if cancelled then [.cancelled course.dispatched total] else []
    value :=
      { outcome :=
          { records, total
            dispatched := course.dispatched
            elapsed := course.now
            maxLag := course.maxLag
            maxInflight, cancelled }
        calls := course.calls } }

/-- Dispatches departures one after the other. -/
def runSequential (dispatcher : Dispatcher) (cancelAt : Option Time) (ds : List Departure) :
    Logged Finished :=
  let (s, cancelled) := Sequential.run dispatcher ds.length ⟨Course.start cancelAt, []⟩ ds
  finish ds.length s.course s.records (min s.course.dispatched 1) cancelled

/-- Dispatches departures side by side. -/
def runConcurrent (dispatcher : Dispatcher) (cancelAt : Option Time) (ds : List Departure) :
    Logged Finished :=
  let (s, cancelled) := Concurrent.run dispatcher ds.length cancelAt ds
  finish ds.length s.course s.records s.maxInflight cancelled

/-- Replays events; `cancelAt` is the time at which the replay is cancelled from outside. -/
def run (scale : Double) (pacing : Pacing) (dispatcher : Dispatcher) (cancelAt : Option Time)
    (events : List Event) : Except Failure (Logged Finished) := do
  let ds ← (departures scale events).mapError (failAt (Course.start cancelAt))
  .ok <| match pacing with
    | .sequential => runSequential dispatcher cancelAt ds
    | .concurrent => runConcurrent dispatcher cancelAt ds

end Replay

end LoadReplay
