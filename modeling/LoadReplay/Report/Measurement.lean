import LoadReplay.Error

/-!
# Measurements

What is known of one request after its answer: which event it was for, how long the answer took,
what the server said about it, and what went wrong. A measurement is a success when nothing went
wrong and the status is one of success.
-/

namespace LoadReplay

/-- What is known of one request; `offset` is the scaled offset of its event in seconds. -/
structure Measurement where
  index : Nat
  offset : Double
  bucket : String
  contextTokens : Nat
  generatedTokens : Nat
  latency : Option Duration
  serverMillis : Option Double
  status : Option Nat
  fault : Option DispatchFault
  deriving Repr, DecidableEq

/-- Whether a status is one of success. -/
def isSuccessStatus (status : Nat) : Bool := decide (200 ≤ status ∧ status < 300)

namespace Measurement

/-- The measurement of an event of whose request nothing is known. -/
def ofEvent (index : Nat) (offset : Double) (e : Event) : Measurement :=
  { index, offset
    bucket := e.bucket
    contextTokens := e.contextTokens
    generatedTokens := e.generatedTokens
    latency := none
    serverMillis := none
    status := none
    fault := none }

/-- Whether the request was answered with success. -/
def isSuccess (m : Measurement) : Bool := m.fault.isNone && m.status.any isSuccessStatus

/-- The cells of its row in a report. -/
def cells (m : Measurement) : List (Option String) :=
  [some m.offset.plain, some m.bucket, some (Text.ofNat m.contextTokens),
    some (Text.ofNat m.generatedTokens), m.latency.map fun d => (Duration.toSeconds d).fixed 6,
    m.serverMillis.map (·.plain), m.status.map Text.ofNat, m.fault.map (·.message)]

end Measurement

end LoadReplay
