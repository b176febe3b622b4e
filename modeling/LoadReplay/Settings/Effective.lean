import LoadReplay.Settings.CommandLine
import LoadReplay.Settings.File

/-!
# Effective settings

The settings of the command line and the environment on top of those of the configuration file, on
top of the defaults. The target is a URL if any layer gives one, and is made of a server and an
action otherwise.
-/

namespace LoadReplay

/-- Why a command fails. -/
inductive CommandError where
  | usage (fault : UsageFault)
  | settings (fault : SettingsFault)
  | replay (error : Error)
  deriving Repr, DecidableEq

namespace CommandError

/-- A request for help, or a command line that is refused. -/
def usageMessage : UsageFault → String
  | .help => "usage: trace-replay (replay | buckets) [options]"
  | .nothingGiven => "usage: trace-replay (replay | buckets) [options]"
  | .unknownArgument => "unknown argument"
  | .unknownSubcommand => "unknown subcommand"
  | .missingOrEmptyValue => "a value is missing or empty"
  | .badValue => "a value cannot be read"
  | .givenTwice => "an option is given twice"
  | .unexpectedValue => "a flag takes no value"

/-- The text shown for an error. -/
def message : CommandError → String
  | usage fault => usageMessage fault
  | settings fault => "config: " ++ fault.message
  | replay error => error.message

end CommandError

/-- Where the events come from and how they are sorted into buckets. -/
structure TraceSettings where
  trace : String
  buckets : BucketChoice
  deriving Repr, DecidableEq

/-- The settings of a replay. -/
structure ReplaySettings where
  source : TraceSettings
  prompts : String
  limit : Option Nat
  options : ReplayOptions
  deriving Repr, DecidableEq

/-- The limit where none is given. -/
def defaultLimit : Nat := 100

/-- The namespace where none is given. -/
def defaultNamespace : String := "_"

/-- The settings of the trace. -/
def TraceSettings.ofLayer (l : Layer) : Except SettingsFault TraceSettings :=
  match l.trace with
  | none => .error .noTrace
  | some trace => .ok ⟨trace, l.buckets.getD .quantile⟩

namespace ReplaySettings

/-- The target. -/
def target (l : Layer) : Except CommandError Url :=
  let read (url : Except TargetFault Url) : Except CommandError Url :=
    url.mapError fun f => .replay (.configuration (.target f))
  match l.url, l.apiHost, l.action with
  | some url, _, _ => read (Target.ofText url)
  | none, some host, some action =>
    read (Target.ofAction host (l.namespaceName.getD defaultNamespace) action)
  | none, _, _ => .error (.settings .noTarget)

/-- A limit, where zero stands for none. -/
def limitOf (n : Nat) : Option Nat := if n = 0 then none else some n

/-- An error in the settings. -/
def configurationError {α : Type} (r : Except ConfigurationFault α) : Except CommandError α :=
  r.mapError fun f => .replay (.configuration f)

/-- The settings of a replay, checked in the order trace, prompts, target, authentication, scale and
timeout. -/
def ofLayer (l : Layer) : Except CommandError ReplaySettings := do
  let source ← (TraceSettings.ofLayer l).mapError .settings
  let prompts ← match l.prompts with
    | some prompts => .ok prompts
    | none => .error (.settings .noPrompts)
  let url ← target l
  let auth ← match l.auth with
    | some s => configurationError ((BasicAuth.ofText s).map some)
    | none => .ok none
  let scale := l.scale.getD 1
  configurationError (validateScale scale)
  let timeout ← configurationError (timeoutOfSeconds (l.timeout.getD 1))
  .ok
    { source, prompts
      limit := limitOf (l.limit.getD defaultLimit)
      options :=
        { url, auth, timeout, scale
          mode := if l.blocking.getD false then .blocking else .fireAndForget
          pacing := l.pacing.getD .sequential
          output := l.output
          insecure := l.insecure.getD false } }

end ReplaySettings

namespace CommandLine

/-- The settings of the command line on top of those of its configuration file. -/
def merged (c : CommandLine) (disk : Disk) : Except CommandError Layer :=
  ((Layer.ofFile disk c.configPath).map c.layer.onTopOf).mapError .settings

/-- The settings of the trace. -/
def traceSettings (c : CommandLine) (disk : Disk) : Except CommandError TraceSettings := do
  (TraceSettings.ofLayer (← c.merged disk)).mapError .settings

/-- The settings of a replay. -/
def replaySettings (c : CommandLine) (disk : Disk) : Except CommandError ReplaySettings := do
  ReplaySettings.ofLayer (← c.merged disk)

end CommandLine

end LoadReplay
