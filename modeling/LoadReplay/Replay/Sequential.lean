import LoadReplay.Replay.Basic

/-!
# Sequential pacing

Each dispatch starts when its deadline has come and the dispatch before it has ended; no event is
skipped to make up for a delay. A cancelled replay stops where it waits, and a dispatch that is
running then leaves no record.
-/

namespace LoadReplay.Sequential

/-- Waits for a deadline; `false` when the replay is cancelled before it. -/
def wait (c : Course) (deadline : Time) : Course × Bool :=
  if c.isCancelled then (c, false)
  else if c.now < deadline then
    match c.cancelledBy (Time.wake deadline) with
    | some t => ({ c with now := t }, false)
    | none => ({ c with now := Time.wake deadline }.lagging deadline, true)
  else (c.lagging deadline, true)

/-- The record that a dispatch leaves. -/
def recordsOf : Ending → List Measurement
  | .measured record => [record]
  | _ => []

/-- A replay under way: its course and the records so far. -/
structure State where
  course : Course
  records : List Measurement
  deriving Repr, DecidableEq

/-- Dispatches a departure whose deadline has come; `false` when the replay is cancelled before
the dispatch ends. -/
def dispatch (dispatcher : Dispatcher) (total : Nat) (s : State) (d : Departure) : State × Bool :=
  let r := dispatcher d
  let c := { s.course with dispatched := s.course.dispatched + 1 }.calling d r
  let stop := if r.delay = 0 then none else c.cancelledBy (Time.wake (c.now + r.delay))
  match stop with
  | some t => ({ s with course := { c with now := t } }, false)
  | none =>
    let ended := if r.delay = 0 then c else { c with now := Time.wake (c.now + r.delay) }
    ({ course := ended.logging (r.log ++ progressLog c.dispatched total)
       records := s.records ++ recordsOf r.ending }, true)

/-- Dispatches departures in order; the flag tells whether the replay was cancelled. -/
def run (dispatcher : Dispatcher) (total : Nat) : State → List Departure → State × Bool
  | s, [] => (s, false)
  | s, d :: ds =>
    match wait s.course d.deadline with
    | (c, false) => ({ s with course := c }, true)
    | (c, true) =>
      match dispatch dispatcher total { s with course := c } d with
      | (s, false) => (s, true)
      | (s, true) => run dispatcher total s ds

end LoadReplay.Sequential
