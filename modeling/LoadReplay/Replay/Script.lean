import LoadReplay.Replay.Basic
import LoadReplay.Settings.Options

/-!
# Scripted dispatches

A script tells what dispatches do without sending anything: its steps are used in turn, over and
over, and one dispatch may ask for the replay to be cancelled.
-/

namespace LoadReplay

/-- What one dispatch does. -/
structure ScriptStep where
  delay : Duration
  panics : Bool
  status : Option Nat
  fault : Option DispatchFault
  serverMillis : Option Double
  deriving Repr, DecidableEq

/-- What the dispatches of a replay do. -/
structure Script where
  mode : Mode
  steps : List ScriptStep
  cancelOn : Option Nat
  deriving Repr, DecidableEq

namespace Script

/-- A dispatch that ends at once and of which nothing is known. -/
def idle : ScriptStep :=
  { delay := 0, panics := false, status := none, fault := none, serverMillis := none }

/-- The step of an event. -/
def step (s : Script) (index : Nat) : ScriptStep := s.steps.getD (index % s.steps.length) idle

/-- The measurement of a dispatch; the latency is known when there is a status. -/
def measurement (step : ScriptStep) (d : Departure) : Measurement :=
  { Measurement.ofEvent d.index d.offset d.event with
    latency := step.status.map fun _ => step.delay
    serverMillis := step.serverMillis
    status := step.status
    fault := step.fault }

/-- How a dispatch ends. -/
def ending (s : Script) (step : ScriptStep) (d : Departure) : Ending :=
  if step.panics then .panicked
  else
    match s.mode with
    | .fireAndForget => .nothing
    | .blocking => .measured (measurement step d)

/-- The dispatcher that follows a script. -/
def dispatcher (s : Script) : Dispatcher := fun d =>
  let step := s.step d.index
  { delay := step.delay
    cancels := decide (s.cancelOn = some d.index)
    ending := s.ending step d
    log := [] }

end Script

end LoadReplay
