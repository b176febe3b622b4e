import LoadReplay.Command.Basic
import LoadReplay.Session
import LoadReplay.Trace.Load

/-!
# The command `replay`

Loads a trace, tells what will be replayed, replays it against an endpoint and prints the summary. A
report that could not be written is a warning.
-/

namespace LoadReplay.Command

/-- The lines printed before a replay. -/
def bannerLines (o : ReplayOptions) (loaded : Trace.Loaded) : List String :=
  ["Trace Replay",
    s!"  target  : {o.dispatchUrl.text}",
    s!"  events  : {loaded.events.length} of {loaded.totalRows} rows",
    s!"  mode    : {o.mode.text}",
    s!"  pacing  : {o.pacing.text}",
    s!"  scale   : {o.scale.plain}"] ++
    o.output.toList.map ("  output  : " ++ ·) ++ [""]

/-- The line about a report that was written. -/
def reportLines : ReportStatus → List String
  | .written path rows => [s!"  report  : {path} ({rows} rows)"]
  | _ => []

/-- The warning about a report that was not. -/
def reportWarnings : ReportStatus → List String
  | .failed error => ["Warning: " ++ error.message]
  | _ => []

/-- Replays the trace that the settings name. -/
def replay (disk : Disk) (settings : ReplaySettings) (endpoint : Endpoint)
    (cancelAt : Option Time) : Transcript :=
  let source := settings.source
  match (Trace.load disk source.trace settings.prompts source.buckets settings.limit).value with
  | .error error => .failed disk [] (.replay error)
  | .ok loaded =>
    let banner := bannerLines settings.options loaded
    match (Session.run disk loaded.events settings.options endpoint cancelAt).value with
    | .error failure =>
      { Transcript.failed failure.disk banner (.replay failure) with
        requests := endpoint.received settings.options failure.calls }
    | .ok session =>
      { output := banner ++ session.summary.lines ++ reportLines session.report
        warnings := reportWarnings session.report
        error := none
        disk := session.disk
        requests := endpoint.received settings.options session.calls }

end LoadReplay.Command
