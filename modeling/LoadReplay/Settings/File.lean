import LoadReplay.Settings.Layer
import LoadReplay.Toml.Parser

/-!
# The configuration file

A file of settings in TOML. Keys that the program does not know are skipped; a known key with a
value of the wrong kind makes the file bad. A file that is missing gives no settings.
-/

namespace LoadReplay

/-- Why the settings cannot be put together. -/
inductive SettingsFault where
  | unreadable (path : String) (fault : DiskFault)
  | malformed (path : String)
  | noTrace
  | noPrompts
  | noTarget
  deriving Repr, DecidableEq

/-- The text shown for a fault. -/
def SettingsFault.message : SettingsFault → String
  | unreadable path fault => s!"cannot read config {path}: {fault.message}"
  | malformed path => s!"bad config {path}"
  | noTrace => "trace path is required (--trace or \x60trace\x60)"
  | noPrompts => "prompts path is required (--prompts or \x60prompts\x60)"
  | noTarget => "target is required: --url, or --api-host with --action"

namespace Layer

open Toml (Entries Value)

/-- The value of a key, if it is there; `none` when it is of the wrong kind. -/
def field? {α : Type} (read? : Value → Option α) (entries : Entries) (key : String) :
    Option (Option α) :=
  match entries.lookup key with
  | none => some none
  | some v => (read? v).map some

/-- The value of a key, or a default where the key is missing. -/
def fieldOr? {α : Type} (read? : Value → Option α) (entries : Entries) (key : String)
    (default : α) : Option α :=
  (field? read? entries key).map (·.getD default)

/-- A list of values of one kind. -/
def list? {α : Type} (read? : Value → Option α) (v : Value) : Option (List α) :=
  v.items?.bind fun items => items.mapM read?

/-- A pacing, by its name or as a table with nothing but its name and nothing behind it. -/
def pacing? (v : Value) : Option Pacing :=
  match v, v.entries? with
  | .string s, _ => (Pacing.ofText s).toOption
  | _, some [(name, inside)] => if inside.isEmpty then (Pacing.ofText name).toOption else none
  | _, _ => none

/-- The key that tells which buckets are meant. -/
def strategyKey : String := "strategy"

/-- Buckets in a table, by the strategy and what it needs. -/
def bucketsInTable? (entries : Entries) : Option BucketChoice :=
  match entries.lookup strategyKey with
  | some (.string "quantile") => some .quantile
  | some (.string "fixed") => do
    let bounds ←
      fieldOr? (list? Value.number?) entries "bounds" BucketChoice.defaultBounds
    let labels ←
      fieldOr? (list? Value.string?) entries "labels" BucketChoice.defaultLabels
    some (.fixed bounds labels)
  | _ => none

/-- Buckets in a list: the strategy, then what it needs. -/
def bucketsInList? : List Value → Option BucketChoice
  | [.string "quantile"] => some .quantile
  | [.string "fixed"] => some .fixedDefaults
  | [.string "fixed", bounds] =>
    (list? Value.number? bounds).map fun bs => .fixed bs BucketChoice.defaultLabels
  | [.string "fixed", bounds, labels] => do
    some (.fixed (← list? Value.number? bounds) (← list? Value.string? labels))
  | _ => none

/-- Which buckets are meant. -/
def buckets? (v : Value) : Option BucketChoice :=
  match v.entries?, v.items? with
  | some entries, _ => bucketsInTable? entries
  | none, some items => bucketsInList? items
  | none, none => none

/-- The layer in the table of a file. -/
def ofEntries? (entries : Entries) : Option Layer := do
  let text (key : String) := field? Value.string? entries key
  let number (key : String) := field? Value.number? entries key
  let flag (key : String) := field? Value.boolean? entries key
  some
    { trace := ← text "trace"
      prompts := ← text "prompts"
      url := ← text "url"
      apiHost := ← text "api_host"
      namespaceName := ← text "namespace"
      action := ← text "action"
      auth := ← text "auth"
      timeout := ← number "timeout"
      scale := ← number "scale"
      limit := ← field? Value.natural? entries "limit"
      blocking := ← flag "blocking"
      pacing := ← field? pacing? entries "pacing"
      output := ← text "output"
      insecure := ← flag "insecure"
      buckets := ← field? buckets? entries "buckets" }

/-- The layer in the text of a file. -/
def ofText? (text : List Char) : Option Layer := (Toml.parse? text).bind ofEntries?

/-- The layer in a file; none of the settings when nothing is found at the path. -/
def ofFile (disk : Disk) (path : String) : Except SettingsFault Layer :=
  match disk.readText path with
  | .error fault => if disk.contains path then .error (.unreadable path fault) else .ok empty
  | .ok text =>
    match ofText? text with
    | some layer => .ok layer
    | none => .error (.malformed path)

end Layer

end LoadReplay
