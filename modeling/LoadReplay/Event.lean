import LoadReplay.Json.Writer
import LoadReplay.Text.Decimal

/-!
# Events

An event is one request of a trace: when it came, counted from the first one, its bucket, its text
and its token counts. A sequence can be replayed when it is not empty, its offsets are finite, not
negative and not decreasing, and every event has a bucket and a text.
-/

namespace LoadReplay

/-- One request of a trace; `offset` is in seconds. -/
structure Event where
  offset : Double
  bucket : String
  prompt : String
  contextTokens : Nat
  generatedTokens : Nat
  deriving Repr, DecidableEq

/-- Why a sequence of events cannot be replayed. -/
inductive EventFault where
  | noEvents
  | badOffset (index : Nat) (offset : Double)
  | unsorted (index : Nat) (offset previous : Double)
  | noBucket (index : Nat)
  | noPrompt (index : Nat) (bucket : String)
  | outOfRange (index : Nat) (scaled : Double)
  deriving Repr, DecidableEq

/-- The text shown for a fault. -/
def EventFault.message : EventFault → String
  | noEvents => "event sequence is empty"
  | badOffset i offset =>
    s!"event {i}: offset must be finite and non-negative, got {offset.plain}"
  | unsorted i offset previous =>
    s!"event {i}: offset {offset.plain} is before previous offset {previous.plain}"
  | noBucket i => s!"event {i}: empty bucket id"
  | noPrompt i bucket => s!"event {i}: bucket '{bucket}' has no payload text"
  | outOfRange i scaled => s!"event {i}: scaled offset {scaled.plain}s is out of range"

namespace Event

/-- What is wrong with an event at an index behind an event at the offset `previous`. -/
def fault? (index : Nat) (previous : Double) (e : Event) : Option EventFault :=
  if !e.offset.isFinite || decide (e.offset < 0) then some (.badOffset index e.offset)
  else if e.offset < previous then some (.unsorted index e.offset previous)
  else if e.bucket = "" then some (.noBucket index)
  else if e.prompt = "" then some (.noPrompt index e.bucket)
  else none

/-- The first fault of events from an index on, behind an event at the offset `previous`. -/
def firstFault? (index : Nat) (previous : Double) : List Event → Option EventFault
  | [] => none
  | e :: es => (e.fault? index previous).or (firstFault? (index + 1) e.offset es)

/-- Refuses a sequence that cannot be replayed. -/
def validate (events : List Event) : Except EventFault Unit :=
  if events.isEmpty then .error .noEvents
  else
    match firstFault? 0 0 events with
    | some fault => .error fault
    | none => .ok ()

/-- The body of the request that is sent for an event at a timestamp. -/
def requestBody (e : Event) (timestamp : Double) : String :=
  Json.writeObject
    [("timestamp", Json.writeDouble timestamp),
      ("bucket_id", Json.writeText e.bucket),
      ("prompt", Json.writeText e.prompt),
      ("context_tokens", Text.ofNat e.contextTokens),
      ("generated_tokens", Text.ofNat e.generatedTokens)]

end Event

end LoadReplay
