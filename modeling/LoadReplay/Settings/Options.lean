import LoadReplay.Error

/-!
# Replay options

What a replay needs to know besides its events: where requests go and how they authenticate, how
long an answer may take, the factor for the offsets, whether answers are measured, whether requests
wait for each other, and where the report goes.
-/

namespace LoadReplay

/-- What is done with the answer to a request. -/
inductive Mode where
  | fireAndForget
  | blocking
  deriving Repr, DecidableEq

/-- The name of a mode. -/
def Mode.text : Mode → String
  | fireAndForget => "fire-and-forget"
  | blocking => "blocking"

/-- Whether the next request waits for the end of the one before it. -/
inductive Pacing where
  | sequential
  | concurrent
  deriving Repr, DecidableEq

namespace Pacing

/-- The name of a pacing. -/
def text : Pacing → String
  | sequential => "sequential"
  | concurrent => "concurrent"

/-- The pacing of a name. -/
def ofText (s : String) : Except ConfigurationFault Pacing :=
  match s with
  | "sequential" => .ok sequential
  | "concurrent" => .ok concurrent
  | _ => .error (.pacing s)

end Pacing

/-- A user and the key that authenticates it. -/
structure BasicAuth where
  user : String
  key : String
  deriving Repr, DecidableEq

namespace BasicAuth

/-- Reads a user and a key separated by the first colon; the user may not be empty. -/
def ofText (s : String) : Except ConfigurationFault BasicAuth :=
  match Text.splitOnce? ':' s.toList with
  | some ([], _) => .error .auth
  | some (user, key) => .ok ⟨String.ofList user, String.ofList key⟩
  | none => .error .auth

/-- The text shown in logs, which hides the key. -/
def shown (a : BasicAuth) : String := s!"BasicAuth({a.user}:***)"

end BasicAuth

/-- Refuses a factor that is not finite and positive. -/
def validateScale (scale : Double) : Except ConfigurationFault Unit :=
  if scale.isFinite && decide (0 < scale) then .ok () else .error (.scale scale)

/-- The time limit of so many seconds. -/
def timeoutOfSeconds (seconds : Double) : Except ConfigurationFault Duration :=
  if seconds.isFinite && decide (0 < seconds) then
    match Duration.ofSeconds? seconds with
    | some d => .ok d
    | none => .error (.timeoutTooLong seconds)
  else .error (.timeoutNotPositive seconds)

/-- What a replay needs to know besides its events. -/
structure ReplayOptions where
  url : Url
  auth : Option BasicAuth
  timeout : Duration
  scale : Double
  mode : Mode
  pacing : Pacing
  output : Option String
  insecure : Bool
  deriving Repr, DecidableEq

namespace ReplayOptions

/-- The options for a target where nothing else is said. -/
def ofUrl (url : Url) : ReplayOptions :=
  { url
    auth := none
    timeout := Duration.second
    scale := 1
    mode := .fireAndForget
    pacing := .sequential
    output := none
    insecure := false }

/-- Refuses options that no replay can run with. -/
def validate (o : ReplayOptions) : Except ConfigurationFault Unit := do
  validateScale o.scale
  if o.timeout = 0 then .error .timeoutZero else .ok ()

/-- The URL that requests are sent to. -/
def dispatchUrl (o : ReplayOptions) : Url :=
  match o.mode with
  | .blocking => Target.withBlocking o.url true
  | .fireAndForget => o.url

end ReplayOptions

end LoadReplay
