import LoadReplay.Log
import LoadReplay.Report.Measurement

/-!
# Replays

A replay turns events into departures, one for each event at its scaled offset, and dispatches them
in order on a clock of whole milliseconds. What a dispatch does is told by a `Dispatcher`: how long
it takes, whether it asks for the replay to be cancelled, and how it ends.
-/

namespace LoadReplay

/-- A point of time, in nanoseconds since the start of the replay. -/
abbrev Time := Nat

/-- The first whole millisecond that is not before a time: a wait until then ends there. -/
def Time.wake (t : Time) : Time :=
  (t + (Duration.millisecond - 1)) / Duration.millisecond * Duration.millisecond

/-- An event with its place in the trace, its scaled offset and the time it is due. -/
structure Departure where
  index : Nat
  offset : Double
  deadline : Time
  event : Event
  deriving Repr, DecidableEq

/-- How a dispatch ends. -/
inductive Ending where
  | panicked
  | nothing
  | measured (record : Measurement)
  deriving Repr, DecidableEq

/-- What a dispatch does: it lasts for `delay`, asks for the replay to be cancelled as soon as it
starts if `cancels` holds, and logs `log` at its end. -/
structure Reaction where
  delay : Duration
  cancels : Bool
  ending : Ending
  log : List LogEntry
  deriving Repr, DecidableEq

/-- What each dispatch does. -/
abbrev Dispatcher := Departure → Reaction

/-- A dispatch that was started. -/
structure Call where
  departure : Departure
  start : Time
  deriving Repr, DecidableEq

/-- What a replay leaves behind. -/
structure Outcome where
  records : List Measurement
  total : Nat
  dispatched : Nat
  elapsed : Duration
  maxLag : Duration
  maxInflight : Nat
  cancelled : Bool
  deriving Repr, DecidableEq

namespace Departure

/-- The clock cannot tell times from so many seconds on. -/
def maxSeconds : Nat := (1 <<< 63) - 1

/-- The departure of an event. -/
def of (scale : Double) (index : Nat) (event : Event) : Except EventFault Departure :=
  let offset := event.offset * scale
  match Duration.ofSeconds? offset with
  | some deadline =>
    if deadline < maxSeconds * Duration.second then .ok { index, offset, deadline, event }
    else .error (.outOfRange index offset)
  | none => .error (.outOfRange index offset)

/-- The departures of events from an index on. -/
def ofEvents (scale : Double) (index : Nat) : List Event → Except EventFault (List Departure)
  | [] => .ok []
  | e :: es => do
    let first ← of scale index e
    let rest ← ofEvents scale (index + 1) es
    .ok (first :: rest)

end Departure

/-- The progress is logged whenever so many more events have been dispatched. -/
def progressStep : Nat := 100

/-- The log entry about the progress, where one is due. -/
def progressLog (dispatched total : Nat) : List LogEntry :=
  if dispatched % progressStep = 0 then [.progress dispatched total] else []

/-- How far a replay has come: the time, the time at which it is cancelled if that is known, the
calls that were made, the number of events dispatched, the greatest lag behind a deadline, and the
log. -/
structure Course where
  now : Time
  cancelAt : Option Time
  calls : List Call
  dispatched : Nat
  maxLag : Duration
  log : List LogEntry
  deriving Repr, DecidableEq

namespace Course

/-- The start of a replay that will be cancelled at a given time, if at all. -/
def start (cancelAt : Option Time) : Course :=
  { now := 0, cancelAt, calls := [], dispatched := 0, maxLag := 0, log := [] }

/-- Whether the replay has been cancelled. -/
def isCancelled (c : Course) : Bool := c.cancelAt.any fun t => decide (t ≤ c.now)

/-- Whether the replay will be cancelled by a time. -/
def cancelledBy (c : Course) (t : Time) : Option Time := c.cancelAt.filter fun s => decide (s ≤ t)

/-- The course with more in its log. -/
def logging (c : Course) (entries : List LogEntry) : Course := { c with log := c.log ++ entries }

/-- The course with the lag behind a deadline counted. -/
def lagging (c : Course) (deadline : Time) : Course :=
  { c with maxLag := max c.maxLag (c.now - deadline) }

/-- The course with the call of a departure made. -/
def calling (c : Course) (d : Departure) (r : Reaction) : Course :=
  { c with
    calls := c.calls ++ [⟨d, c.now⟩]
    cancelAt := if r.cancels then some c.now else c.cancelAt }

end Course

end LoadReplay
