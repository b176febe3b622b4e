import LoadReplay.Proofs.Disk.Change
import LoadReplay.Proofs.Settings.Effective
import LoadReplay.Proofs.Url.Action

/-!
# Which target counts

The command line counts more than the configuration file, one option at a time. The target takes
four of the options, and a URL counts more than a server with an action, whichever layer gives it.
`CommandLine.target_settled` tells which target a command line ends up with that names one: its own
one, except that a URL in the file counts more than its server and action.
`CommandLine.redirected_by_file` is a replay that its file sends elsewhere.
-/

namespace LoadReplay

theorem ReplaySettings.target_of_ofLayer {l : Layer} {s : ReplaySettings} (h : ofLayer l = .ok s) :
    target l = .ok s.options.url := (ofLayer_eq_ok_iff.1 h).target_eq

/-- Settings without authentication are put together once the target is found. -/
theorem ReplaySettings.exists_ofLayer {l : Layer} {trace prompts : String} {url : Url}
    {timeout : Duration} (htrace : l.trace = some trace) (hprompts : l.prompts = some prompts)
    (htarget : target l = .ok url) (hauth : l.auth = none)
    (hscale : validateScale (l.scale.getD 1) = .ok ())
    (htimeout : timeoutOfSeconds (l.timeout.getD 1) = .ok timeout) :
    ∃ s, ofLayer l = .ok s ∧ s.options.url = url := by
  refine ⟨passed l ⟨trace, l.buckets.getD .quantile⟩ prompts url none timeout,
    ofLayer_eq_ok_iff.2 ?_, rfl⟩
  exact ⟨htrace, rfl, hprompts, htarget, by rw [hauth]; rfl, rfl, hscale, htimeout, rfl, rfl, rfl,
    rfl, rfl⟩

namespace Layer

variable {url : Url}

/-- A URL decides about the target. -/
theorem target_eq_ok_iff_of_url {l : Layer} {text : String} (h : l.url = some text) :
    ReplaySettings.target l = .ok url ↔ Target.ofText text = .ok url := by
  rw [ReplaySettings.target, h]
  exact Except.mapError_eq_ok_iff

/-- Without a URL the server and the action decide. -/
theorem target_eq_ok_iff_of_action {l : Layer} {host action : String} (h : l.url = none)
    (hhost : l.apiHost = some host) (haction : l.action = some action) :
    ReplaySettings.target l = .ok url ↔
      Target.ofAction host (l.namespaceName.getD defaultNamespace) action = .ok url := by
  rw [ReplaySettings.target, h, hhost, haction]
  exact Except.mapError_eq_ok_iff

/-- A layer without a URL has a target if it has a server and an action that make one. -/
theorem target_eq_ok_iff_exists {l : Layer} (h : l.url = none) :
    ReplaySettings.target l = .ok url ↔ ∃ host action, l.apiHost = some host ∧
      l.action = some action ∧
      Target.ofAction host (l.namespaceName.getD defaultNamespace) action = .ok url := by
  constructor
  · intro htarget
    cases hhost : l.apiHost with
    | none => simp [ReplaySettings.target, h, hhost] at htarget
    | some host =>
      cases haction : l.action with
      | none => simp [ReplaySettings.target, h, hhost, haction] at htarget
      | some action =>
        exact ⟨host, action, rfl, rfl,
          (target_eq_ok_iff_of_action h hhost haction).1 htarget⟩
  · rintro ⟨host, action, hhost, haction, htarget⟩
    exact (target_eq_ok_iff_of_action h hhost haction).2 htarget

theorem target_eq_ok_iff {l : Layer} : ReplaySettings.target l = .ok url ↔
    (∀ text, l.url = some text → Target.ofText text = .ok url) ∧
      (l.url = none → ∃ host action, l.apiHost = some host ∧ l.action = some action ∧
        Target.ofAction host (l.namespaceName.getD defaultNamespace) action = .ok url) := by
  cases hurl : l.url with
  | some text => simp [target_eq_ok_iff_of_url hurl]
  | none => simp [target_eq_ok_iff_exists hurl]

end Layer

namespace CommandLine

theorem merged_eq_ok {c : CommandLine} {disk : Disk} {file : Layer}
    (h : Layer.ofFile disk c.configPath = .ok file) :
    c.merged disk = .ok (c.layer.onTopOf file) := by
  rw [merged, h]
  rfl

theorem replaySettings_eq {c : CommandLine} {disk : Disk} {l : Layer} (h : c.merged disk = .ok l) :
    c.replaySettings disk = ReplaySettings.ofLayer l := by
  rw [replaySettings, h]
  rfl

/-- The target of a command line that names one, on top of a file. -/
theorem target_settled (c : CommandLine) (disk : Disk) (file : Layer)
    (hfile : Layer.ofFile disk c.configPath = .ok file) :
    ∃ l, c.merged disk = .ok l ∧
      (∀ s, c.replaySettings disk = .ok s → ReplaySettings.target l = .ok s.options.url) ∧
      (∀ text url, c.value? .url = some text →
        (ReplaySettings.target l = .ok url ↔ Target.ofText text = .ok url)) ∧
      ∀ host action url, c.value? .url = none → c.value? .apiHost = some host →
        c.value? .action = some action →
          (∀ text, file.url = some text →
            (ReplaySettings.target l = .ok url ↔ Target.ofText text = .ok url)) ∧
          (file.url = none → (ReplaySettings.target l = .ok url ↔
            Target.ofAction host
              (((c.value? .namespaceName).or file.namespaceName).getD defaultNamespace) action =
                .ok url)) := by
  have hmerged := merged_eq_ok hfile
  refine ⟨_, hmerged, fun s hs => ?_, fun text url htext => ?_, ?_⟩
  · rw [replaySettings_eq hmerged] at hs
    exact ReplaySettings.target_of_ofLayer hs
  · exact Layer.target_eq_ok_iff_of_url (congrArg (Option.or · file.url) htext)
  · intro host action url hurl hhost haction
    have hlower : (c.layer.onTopOf file).url = file.url := congrArg (Option.or · file.url) hurl
    refine ⟨fun text htext => Layer.target_eq_ok_iff_of_url (hlower.trans htext), fun hnone => ?_⟩
    exact Layer.target_eq_ok_iff_of_action (hlower.trans hnone)
      (congrArg (Option.or · file.apiHost) hhost) (congrArg (Option.or · file.action) haction)

/-- A command line that names a server and an action. -/
def sampleArguments : List String :=
  ["replay", "--trace", "t.csv", "--prompts", "p.json", "--api-host", "https://localhost:31001",
    "--action", "hello"]

/-- What the arguments say. -/
def sampleLine : CommandLine :=
  { subcommand := .replay
    given := [(.trace, "t.csv"), (.prompts, "p.json"), (.apiHost, "https://localhost:31001"),
      (.action, "hello")] }

theorem read_sampleArguments : read [] sampleArguments = .ok sampleLine :=
  Except.toOption_eq_some_iff.1 (by decide)

theorem ofAction_sample :
    (Target.ofAction "https://localhost:31001" defaultNamespace "hello").toOption.map (·.text) =
      some "https://localhost:31001/api/v1/namespaces/_/actions/hello?blocking=false" := by
  have hread := Target.ofAction_eq_ok Target.ofText_localOrigin 0 "_" (by decide : "hello" ≠ "")
  have haddress : Target.localOrigin.textWith 0 = "https://localhost:31001" := by decide
  have hplain : Url.IsPlain (Url.actionPath "_" "hello") :=
    Url.isPlain_of_all (by decide) (by decide) (by decide)
  have hsegments : (Text.splitOn '/' (Url.actionPath "_" "hello")).map Url.segmentOf =
      ["api", "v1", "namespaces", "_", "actions", "hello"] := by decide
  rw [haddress, Url.below_actionTail hplain, hsegments] at hread
  rw [show defaultNamespace = "_" from rfl, hread, Except.toOption, Option.map_some]
  exact congrArg some (by decide)

/-- Without a file the target is that of the command line. -/
theorem target_settled_sample :
    Layer.ofFile Disk.empty sampleLine.configPath = .ok Layer.empty ∧
      ∃ l url, sampleLine.merged Disk.empty = .ok l ∧
        ReplaySettings.target l = .ok url ∧
        Target.ofAction "https://localhost:31001" defaultNamespace "hello" = .ok url := by
  have hfile : Layer.ofFile Disk.empty sampleLine.configPath = .ok Layer.empty :=
    Except.toOption_eq_some_iff.1 (by decide)
  obtain ⟨l, hl, -, -, haction⟩ := target_settled sampleLine Disk.empty Layer.empty hfile
  obtain ⟨url, hurl, -⟩ := Option.map_eq_some_iff.1 ofAction_sample
  rw [Except.toOption_eq_some_iff] at hurl
  exact ⟨hfile, l, url, hl, ((haction _ _ url rfl rfl rfl).2 rfl).2 hurl, hurl⟩

/-- A disk whose configuration file gives a URL. -/
def stagingDisk : Disk :=
  { entries := [(["trace-replay.toml"],
      .file (Utf8.encode "url = \"http://staging.example/invoke\"\n".toList))] }

/-- What the file says. -/
def stagingLayer : Layer := { Layer.empty with url := some "http://staging.example/invoke" }

theorem ofFile_stagingDisk :
    Layer.ofFile stagingDisk sampleLine.configPath = .ok stagingLayer :=
  Except.toOption_eq_some_iff.1 (by decide +kernel)

theorem ofText_staging : (Target.ofText "http://staging.example/invoke").toOption.map (·.text) =
    some "http://staging.example/invoke" := by
  decide +kernel

/-- The command line names its target completely, and the file sends the replay elsewhere. -/
theorem redirected_by_file :
    ∃ c s url, read [] sampleArguments = .ok c ∧ c.replaySettings stagingDisk = .ok s ∧
      Target.ofAction "https://localhost:31001" defaultNamespace "hello" = .ok url ∧
      s.options.url ≠ url := by
  obtain ⟨url, hurl, htext⟩ := Option.map_eq_some_iff.1 ofAction_sample
  obtain ⟨other, hother, hstaging⟩ := Option.map_eq_some_iff.1 ofText_staging
  rw [Except.toOption_eq_some_iff] at hurl hother
  have hmerged := merged_eq_ok ofFile_stagingDisk
  have hscale : validateScale 1 = .ok () := by decide +kernel
  have htimeout : timeoutOfSeconds 1 = .ok Duration.second :=
    Except.toOption_eq_some_iff.1 (by decide +kernel)
  obtain ⟨s, hs, rfl⟩ := ReplaySettings.exists_ofLayer (l := sampleLine.layer.onTopOf stagingLayer)
    rfl rfl ((Layer.target_eq_ok_iff_of_url rfl).2 hother) rfl hscale htimeout
  refine ⟨sampleLine, s, url, read_sampleArguments, ?_, hurl, ?_⟩
  · rw [replaySettings_eq hmerged, hs]
  · rintro rfl
    simp [htext] at hstaging

end CommandLine

end LoadReplay
