import LoadReplay.Settings.Options

/-!
# Log entries

Everything that is logged while a trace is loaded and replayed. An entry knows its level, its text
and its fields; entries are listed in the order in which they are logged.
-/

namespace LoadReplay

/-- How urgent a log entry is. -/
inductive LogLevel where
  | info
  | warn
  | error
  deriving Repr, DecidableEq

/-- The name of a level. -/
def LogLevel.text : LogLevel → String
  | info => "INFO"
  | warn => "WARN"
  | error => "ERROR"

/-- The value of a field of a log entry. -/
inductive LogValue where
  | text (s : String)
  | whole (n : Nat)
  | double (d : Double)
  | flag (b : Bool)
  deriving Repr, DecidableEq

/-- Something that is logged. -/
inductive LogEntry where
  | loadingTrace (path : String)
  | threshold (line : String)
  | loadedTrace (rows events : Nat)
  | readTrace (path : String) (rows : Nat)
  | starting (options : ReplayOptions) (events : Nat)
  | progress (dispatched total : Nat)
  | panicked
  | cancelled (dispatched total : Nat)
  | finished (elapsed : Duration) (dispatched total : Nat) (cancelled : Bool)
  | rejected (index status : Nat)
  | requestFailed (index : Nat) (fault : DispatchFault)
  | bodyFailed (index status : Nat) (fault : DispatchFault)
  | reportWritten (path : String) (rows : Nat)
  | reportFailed (error : Error)
  deriving Repr, DecidableEq

/-- Log entries in order, with what was done while they were logged. -/
structure Logged (α : Type) where
  log : List LogEntry
  value : α
  deriving Repr

namespace LogEntry

/-- The level of an entry. -/
def level : LogEntry → LogLevel
  | panicked => .error
  | reportFailed _ => .error
  | cancelled _ _ => .warn
  | rejected _ _ => .warn
  | requestFailed _ _ => .warn
  | bodyFailed _ _ _ => .warn
  | _ => .info

/-- The text of an entry. -/
def message : LogEntry → String
  | loadingTrace _ => "loading trace"
  | threshold _ => s!"bucket threshold ({contextColumn})"
  | loadedTrace _ _ => "loaded trace (after limit)"
  | readTrace _ _ => "loaded trace"
  | starting _ _ => "starting replay"
  | progress _ _ => "replay progress"
  | panicked => "dispatch task panicked"
  | cancelled _ _ => "replay cancelled"
  | finished _ _ _ _ => "replay finished"
  | rejected _ _ => "request rejected"
  | requestFailed _ _ => "request failed"
  | bodyFailed _ _ _ => "response body failed"
  | reportWritten _ _ => "wrote per-request stats"
  | reportFailed _ => "report write failed"

/-- The fields of an entry. -/
def fields : LogEntry → List (String × LogValue)
  | loadingTrace path => [("path", .text path)]
  | threshold line => [("threshold", .text line)]
  | loadedTrace rows events => [("rows", .whole rows), ("events", .whole events)]
  | readTrace path rows => [("path", .text path), ("rows", .whole rows)]
  | starting o events =>
    [("url", .text o.dispatchUrl.text), ("scale", .double o.scale), ("mode", .text o.mode.text),
      ("pacing", .text o.pacing.text), ("timeout", .text (Duration.text o.timeout)),
      ("events", .whole events)]
  | progress dispatched total => [("dispatched", .whole dispatched), ("total", .whole total)]
  | panicked => []
  | cancelled dispatched total => [("dispatched", .whole dispatched), ("total", .whole total)]
  | finished elapsed dispatched total wasCut =>
    [("elapsed_secs", .double (Duration.toSeconds elapsed)), ("dispatched", .whole dispatched),
      ("total", .whole total), ("cancelled", .flag wasCut)]
  | rejected index status => [("index", .whole index), ("status", .whole status)]
  | requestFailed index fault => [("index", .whole index), ("error", .text fault.message)]
  | bodyFailed index status fault =>
    [("index", .whole index), ("status", .whole status), ("error", .text fault.message)]
  | reportWritten path rows => [("path", .text path), ("rows", .whole rows)]
  | reportFailed error => [("error", .text error.message)]

end LogEntry

end LoadReplay
