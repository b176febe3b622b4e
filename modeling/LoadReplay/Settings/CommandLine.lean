import LoadReplay.Settings.Layer

/-!
# The command line

The program has the subcommands `replay` and `buckets`. Their options are given as `--name value` or
`--name=value`, flags as `--name`; what starts with a hyphen is never a value. A value is checked
when the next option, a flag or the end is reached, so a word that is no option is reported first.
Variables of the environment stand in for options that are not given.
-/

namespace LoadReplay

/-- Why a command line is refused; the first two are requests for help. -/
inductive UsageFault where
  | help
  | nothingGiven
  | unknownArgument
  | unknownSubcommand
  | missingOrEmptyValue
  | badValue
  | givenTwice
  | unexpectedValue
  deriving Repr, DecidableEq

/-- What the program is asked to do. -/
inductive Subcommand where
  | replay
  | buckets
  deriving Repr, DecidableEq

/-- An option of a subcommand. -/
inductive CommandOption where
  | config
  | trace
  | fixedBuckets
  | prompts
  | url
  | apiHost
  | namespaceName
  | action
  | auth
  | timeout
  | scale
  | limit
  | blocking
  | pacing
  | output
  | insecure
  deriving Repr, DecidableEq

namespace CommandOption

/-- The options of every subcommand. -/
def common : List CommandOption := [config, trace, fixedBuckets]

/-- The options of a subcommand, in the order in which the environment is looked at. -/
def allowed : Subcommand → List CommandOption
  | .buckets => common
  | .replay =>
    common ++
      [prompts, url, apiHost, namespaceName, action, auth, timeout, scale, limit, blocking, pacing,
        output, insecure]

/-- The name behind the hyphens. -/
def name : CommandOption → String
  | config => "config"
  | trace => "trace"
  | fixedBuckets => "fixed-buckets"
  | prompts => "prompts"
  | url => "url"
  | apiHost => "api-host"
  | namespaceName => "namespace"
  | action => "action"
  | auth => "auth"
  | timeout => "timeout"
  | scale => "scale"
  | limit => "limit"
  | blocking => "blocking"
  | pacing => "pacing"
  | output => "output"
  | insecure => "insecure"

/-- The variable of the environment that stands in for the option. -/
def environmentName? : CommandOption → Option String
  | config => some "TRACE_REPLAY_CONFIG"
  | trace => some "TRACE_REPLAY_TRACE"
  | prompts => some "TRACE_REPLAY_PROMPTS"
  | url => some "TRACE_REPLAY_URL"
  | apiHost => some "TRACE_REPLAY_API_HOST"
  | auth => some "TRACE_REPLAY_AUTH"
  | _ => none

/-- Whether the option is a flag, which takes no value. -/
def isFlag (o : CommandOption) : Bool := [fixedBuckets, blocking, insecure].contains o

/-- Limits are below this number. -/
def limitBound : Nat := 1 <<< 64

/-- The limit in a text. -/
def limitOf? (s : String) : Option Nat := Text.natBelow? limitBound s.toList

/-- Refuses a value that the option cannot have. -/
def check (o : CommandOption) (value : String) : Except UsageFault Unit :=
  let known (isKnown : Bool) : Except UsageFault Unit :=
    if isKnown then .ok () else .error .badValue
  match o with
  | trace => if value = "" then .error .missingOrEmptyValue else .ok ()
  | prompts => if value = "" then .error .missingOrEmptyValue else .ok ()
  | output => if value = "" then .error .missingOrEmptyValue else .ok ()
  | timeout => known (Double.ofText? value).isSome
  | scale => known (Double.ofText? value).isSome
  | limit => known (limitOf? value).isSome
  | pacing => known (Pacing.ofText value).toBool
  | _ => .ok ()

end CommandOption

/-- Options with their values; a flag has an empty one. -/
abbrev GivenOptions := List (CommandOption × String)

/-- A subcommand with its options. -/
structure CommandLine where
  subcommand : Subcommand
  given : GivenOptions
  deriving Repr, DecidableEq

namespace CommandLine

/-- How far a command line was read: the options given, and the last option with its value as long
as it is not checked. -/
structure Progress where
  given : GivenOptions
  pending : Option (CommandOption × Option String)
  deriving Repr, DecidableEq

/-- Adds an option with a value. -/
def give (given : GivenOptions) (o : CommandOption) (value : String) :
    Except UsageFault GivenOptions :=
  if given.any (·.1 == o) then .error .givenTwice
  else (o.check value).map fun _ => given ++ [(o, value)]

/-- Checks the last option. -/
def settle (p : Progress) : Except UsageFault GivenOptions :=
  match p.pending with
  | none => .ok p.given
  | some (_, none) => .error .missingOrEmptyValue
  | some (o, some value) => give p.given o value

/-- What a word that starts with a hyphen says. -/
inductive Word where
  | long (name : String) (value : Option String)
  | short (letter : Char)
  | rest
  | plain
  deriving Repr, DecidableEq

/-- Sorts a word by its hyphens; a single hyphen is a plain word. -/
def wordOf (s : String) : Word :=
  match s.toList with
  | ['-', '-'] => .rest
  | '-' :: '-' :: cs =>
    match Text.splitOnce? '=' cs with
    | some (name, value) => .long (String.ofList name) (some (String.ofList value))
    | none => .long (String.ofList cs) none
  | '-' :: c :: _ => .short c
  | _ => .plain

/-- The options and the request for help that a name behind two hyphens may mean. -/
def option? (allowed : List CommandOption) (name : String) : Option CommandOption :=
  allowed.find? (·.name == name)

/-- Reads one word of a subcommand, other than `--`. -/
def step (allowed : List CommandOption) (p : Progress) (s : String) :
    Except UsageFault Progress := do
  match wordOf s with
  | .long "help" none => discard (settle p); .error .help
  | .long "help" (some _) => .error .unexpectedValue
  | .short letter =>
    if letter = 'h' then discard (settle p); .error .help
    else .error .unknownArgument
  | .long name value =>
    match option? allowed name, value with
    | none, _ => .error .unknownArgument
    | some o, some value =>
      if o.isFlag then .error .unexpectedValue
      else .ok ⟨← give (← settle p) o value, none⟩
    | some o, none =>
      if o.isFlag then .ok ⟨← give (← settle p) o "", none⟩
      else .ok ⟨← settle p, some (o, none)⟩
  | _ =>
    match p.pending with
    | some (o, none) => .ok { p with pending := some (o, some s) }
    | _ => .error .unknownArgument

/-- Reads the words of a subcommand; behind `--` there may be nothing. -/
def words (allowed : List CommandOption) : Progress → List String → Except UsageFault GivenOptions
  | p, [] => settle p
  | p, s :: rest =>
    if wordOf s = .rest then if rest.isEmpty then settle p else .error .unknownArgument
    else
      match step allowed p s with
      | .ok p => words allowed p rest
      | .error fault => .error fault

/-- Adds the values of variables for options that are not given. -/
def addVariables (environment : List (String × String)) (allowed : List CommandOption)
    (given : GivenOptions) : Except UsageFault GivenOptions :=
  allowed.foldlM (fun given o =>
    match o.environmentName?.bind (environment.lookup ·) with
    | some value => if given.any (·.1 == o) then .ok given else give given o value
    | none => .ok given) given

/-- The subcommand of a name. -/
def subcommand? : String → Option Subcommand
  | "replay" => some .replay
  | "buckets" => some .buckets
  | _ => none

/-- The name that asks for help on what follows. -/
def helpName : String := "help"

/-- What the words behind `help` ask for; they have to name a subcommand. -/
def helpOn : List String → UsageFault
  | [] => .help
  | first :: rest =>
    let isName (s : String) : Bool := (subcommand? s).isSome || s == helpName
    match rest with
    | [] => if isName first then .help else .unknownSubcommand
    | [second] => if first = helpName ∧ isName second then .help else .unknownSubcommand
    | _ => .unknownSubcommand

/-- Reads a command line, with the environment behind it. -/
def read (environment : List (String × String)) (args : List String) :
    Except UsageFault CommandLine :=
  match args with
  | [] => .error .nothingGiven
  | first :: rest =>
    match subcommand? first, wordOf first with
    | some subcommand, _ => do
      let allowed := CommandOption.allowed subcommand
      let given ← words allowed ⟨[], none⟩ rest
      .ok ⟨subcommand, ← addVariables environment allowed given⟩
    | none, .rest =>
      match rest with
      | [] => .error .nothingGiven
      | second :: _ =>
        if (subcommand? second).isSome ∨ second = helpName then .error .unknownArgument
        else .error .unknownSubcommand
    | none, .long "help" none => .error .help
    | none, .long "help" (some _) => .error .unexpectedValue
    | none, .long _ _ => .error .unknownArgument
    | none, .short letter => .error (if letter = 'h' then .help else .unknownArgument)
    | none, .plain => .error (if first = helpName then helpOn rest else .unknownSubcommand)

/-! ## The settings given -/

/-- The value of an option. -/
def value? (c : CommandLine) (o : CommandOption) : Option String := c.given.lookup o

/-- Whether a flag is given. -/
def flag? (c : CommandLine) (o : CommandOption) : Option Bool := (c.value? o).map fun _ => true

/-- The path of the configuration file. -/
def configPath (c : CommandLine) : String := (c.value? .config).getD "trace-replay.toml"

/-- The layer that the command line and the environment give. -/
def layer (c : CommandLine) : Layer :=
  { trace := c.value? .trace
    prompts := c.value? .prompts
    url := c.value? .url
    apiHost := c.value? .apiHost
    namespaceName := c.value? .namespaceName
    action := c.value? .action
    auth := c.value? .auth
    timeout := (c.value? .timeout).bind Double.ofText?
    scale := (c.value? .scale).bind Double.ofText?
    limit := (c.value? .limit).bind CommandOption.limitOf?
    blocking := c.flag? .blocking
    pacing := (c.value? .pacing).bind fun s => (Pacing.ofText s).toOption
    output := c.value? .output
    insecure := c.flag? .insecure
    buckets := (c.flag? .fixedBuckets).map fun _ => .fixedDefaults }

end CommandLine

end LoadReplay
