import LoadReplay.Bucket.Basic
import LoadReplay.Disk.Basic
import LoadReplay.Duration
import LoadReplay.Event
import LoadReplay.Target
import LoadReplay.Text.Quoted
import LoadReplay.Trace.Row

/-!
# Errors

What stops a replay or its report, as causes with one text each, and what can go wrong with a
single request, which never stops a replay.
-/

namespace LoadReplay

/-- What is wrong with the settings of a replay. -/
inductive ConfigurationFault where
  | bucket (fault : BucketFault)
  | target (fault : TargetFault)
  | pacing (text : String)
  | auth
  | scale (value : Double)
  | timeoutZero
  | timeoutNotPositive (seconds : Double)
  | timeoutTooLong (seconds : Double)
  deriving Repr, DecidableEq

/-- The text shown for a fault. -/
def ConfigurationFault.message : ConfigurationFault → String
  | bucket fault => fault.message
  | target fault => fault.message
  | pacing text =>
    "pacing must be \"sequential\" or \"concurrent\", got " ++ Text.quote text
  | auth => "auth must be in format 'user:key'"
  | scale value => s!"scale must be > 0, got {value.plain}"
  | timeoutZero => "timeout must be > 0"
  | timeoutNotPositive seconds => s!"timeout must be > 0 seconds, got {seconds.plain}"
  | timeoutTooLong seconds =>
    s!"timeout {seconds.plain}s is out of range: " ++
      "cannot convert float seconds to Duration: value is either too big or NaN"

/-- What is wrong with a trace or its prompts. -/
inductive TraceFault where
  | unreadable (path : String) (fault : DiskFault)
  | table (fault : TableFault)
  | unreadablePrompts (path : String) (fault : DiskFault)
  | badPrompts (path : String)
  | noneLeft
  | unclassified (line : Nat) (fault : ConfigurationFault)
  | noPrompt (bucket : String) (labels : List String)
  | events (fault : EventFault)
  deriving Repr, DecidableEq

/-- What stops a replay, or its report. -/
inductive Error where
  | configuration (fault : ConfigurationFault)
  | trace (fault : TraceFault)
  | report (path : String) (fault : DiskFault)
  deriving Repr, DecidableEq

namespace ConfigurationFault

/-- The text of an error in the settings. -/
def errorMessage (fault : ConfigurationFault) : String := "configuration: " ++ fault.message

end ConfigurationFault

/-- The text shown for a fault. -/
def TraceFault.message : TraceFault → String
  | unreadable path fault => s!"cannot read trace {path}: {fault.message}"
  | table fault => fault.message
  | unreadablePrompts path fault => s!"cannot read prompts {path}: {fault.message}"
  | badPrompts path => s!"bad prompts {path}"
  | noneLeft => "no events left after limit"
  | unclassified line fault => s!"line {line}: {fault.errorMessage}"
  | noPrompt bucket labels =>
    let keys := ", ".intercalate labels
    s!"bucket '{bucket}' not found in prompts (keys: {keys})"
  | events fault => fault.message

/-- The text of an error. -/
def Error.message : Error → String
  | configuration fault => fault.errorMessage
  | trace fault => "trace format: " ++ fault.message
  | report path fault => s!"report write ({path}): {fault.message}"

/-- What goes wrong with a single request. -/
inductive DispatchFault where
  | timeout (after : Duration)
  | connect (text : String)
  | status (code : Nat)
  | body (text : String)
  | transport (text : String)
  deriving Repr, DecidableEq

/-- The text shown for a failed request. -/
def DispatchFault.message : DispatchFault → String
  | timeout after => "timeout after " ++ Duration.text after
  | connect text => "connect: " ++ text
  | status code => s!"HTTP {code}"
  | body text => "body: " ++ text
  | transport text => "transport: " ++ text

end LoadReplay
