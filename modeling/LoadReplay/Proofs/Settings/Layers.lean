import LoadReplay.Proofs.Settings.Given
import LoadReplay.Proofs.Settings.Precedence

/-!
# Layers do not interfere

A setting comes from the command line, else from the configuration file, else from its default
(`CommandLine.Settles`), and what a file says about a setting that the command line gives is never
looked at: two files that agree on all others (`CommandLine.AgreeBelow`) lead to the same settings,
or to the same error (`CommandLine.layers_noninterfering`). On the command line, the arguments count
more than the variables of the environment.
-/

namespace LoadReplay.CommandLine

variable {c : CommandLine} {file a b : Layer}

/-! ## Where a setting comes from -/

/-- The settings that a command line and a file lead to. A flag is set if either of them sets it,
flags for fixed buckets give the buckets, and a limit of zero is none. -/
structure Settles (c : CommandLine) (file : Layer) (s : ReplaySettings) : Prop where
  trace_eq : (c.value? .trace).or file.trace = some s.source.trace
  buckets_eq : s.source.buckets =
    if (c.value? .fixedBuckets).isSome then .fixedDefaults else file.buckets.getD .quantile
  prompts_eq : (c.value? .prompts).or file.prompts = some s.prompts
  target_of_url : ∀ text, (c.value? .url).or file.url = some text →
    Target.ofText text = .ok s.options.url
  target_of_action : (c.value? .url).or file.url = none → ∃ host action,
    (c.value? .apiHost).or file.apiHost = some host ∧
      (c.value? .action).or file.action = some action ∧
      Target.ofAction host
        (((c.value? .namespaceName).or file.namespaceName).getD defaultNamespace) action =
          .ok s.options.url
  auth_eq : ((c.value? .auth).or file.auth).map BasicAuth.ofText = s.options.auth.map .ok
  scale_eq : s.options.scale =
    (((c.value? .scale).bind Double.ofText?).or file.scale).getD 1
  validateScale_eq : validateScale s.options.scale = .ok ()
  timeout_eq : timeoutOfSeconds
    ((((c.value? .timeout).bind Double.ofText?).or file.timeout).getD 1) = .ok s.options.timeout
  limit_eq : s.limit = ReplaySettings.limitOf
    ((((c.value? .limit).bind CommandOption.limitOf?).or file.limit).getD defaultLimit)
  blocking_iff : s.options.mode = .blocking ↔
    c.value? .blocking ≠ none ∨ file.blocking = some true
  pacing_eq : s.options.pacing = (((c.value? .pacing).bind fun text =>
    (Pacing.ofText text).toOption).or file.pacing).getD .sequential
  output_eq : s.options.output = (c.value? .output).or file.output
  insecure_iff : s.options.insecure = true ↔
    c.value? .insecure ≠ none ∨ file.insecure = some true

/-! ## One setting on top of another -/

/-- A flag holds when it is given above or set below. -/
theorem either_flag_iff (given : Option String) (lower : Option Bool) :
    (Layer.either (given.map fun _ => true) lower).getD false = true ↔
      given ≠ none ∨ lower = some true := by
  cases given <;> rcases lower with _ | _ | _ <;> simp [Layer.either]

theorem buckets_onTopOf : (c.layer.onTopOf file).buckets.getD .quantile =
    if (c.value? .fixedBuckets).isSome then .fixedDefaults else file.buckets.getD .quantile := by
  simp only [Layer.onTopOf, layer, flag?]
  cases c.value? .fixedBuckets <;> simp

theorem mode_eq_iff {mode : Mode} {waits : Bool} :
    mode = (if waits then .blocking else .fireAndForget) ↔ (mode = .blocking ↔ waits = true) := by
  cases mode <;> cases waits <;> simp

/-- The layer of a command line on top of a file leads to the settings that the two settle. -/
theorem isOf_onTopOf_iff {s : ReplaySettings} :
    ReplaySettings.IsOf (c.layer.onTopOf file) s ↔ c.Settles file s := by
  constructor
  · intro h
    obtain ⟨htext, haction⟩ := Layer.target_eq_ok_iff.1 h.target_eq
    exact ⟨h.trace_eq, h.buckets_eq.trans buckets_onTopOf, h.prompts_eq, htext, haction, h.auth_eq,
      h.scale_eq, h.validateScale_eq, h.timeout_eq, h.limit_eq,
      (mode_eq_iff.1 h.mode_eq).trans (either_flag_iff ..), h.pacing_eq, h.output_eq,
      (Bool.eq_iff_iff.1 h.insecure_eq).trans (either_flag_iff ..)⟩
  · intro h
    exact ⟨h.trace_eq, h.buckets_eq.trans buckets_onTopOf.symm, h.prompts_eq,
      Layer.target_eq_ok_iff.2 ⟨h.target_of_url, h.target_of_action⟩, h.auth_eq, h.scale_eq,
      h.validateScale_eq, h.timeout_eq, h.limit_eq,
      mode_eq_iff.2 (h.blocking_iff.trans (either_flag_iff ..).symm), h.pacing_eq, h.output_eq,
      Bool.eq_iff_iff.2 (h.insecure_iff.trans (either_flag_iff ..).symm)⟩

theorem replaySettings_eq_ok_iff {disk : Disk} {s : ReplaySettings}
    (hfile : Layer.ofFile disk c.configPath = .ok file) :
    c.replaySettings disk = .ok s ↔ c.Settles file s := by
  rw [replaySettings_eq (merged_eq_ok hfile), ReplaySettings.ofLayer_eq_ok_iff, isOf_onTopOf_iff]

/-! ## Two files -/

/-- Two files say the same about every setting that the command line does not give. What the target
is made of counts where there is no URL. -/
structure AgreeBelow (c : CommandLine) (a b : Layer) : Prop where
  trace_eq : c.value? .trace = none → a.trace = b.trace
  buckets_eq : c.value? .fixedBuckets = none → a.buckets = b.buckets
  prompts_eq : c.value? .prompts = none → a.prompts = b.prompts
  url_eq : c.value? .url = none → a.url = b.url
  apiHost_eq : (c.value? .url).or a.url = none → c.value? .apiHost = none → a.apiHost = b.apiHost
  namespaceName_eq : (c.value? .url).or a.url = none → c.value? .namespaceName = none →
    a.namespaceName = b.namespaceName
  action_eq : (c.value? .url).or a.url = none → c.value? .action = none → a.action = b.action
  auth_eq : c.value? .auth = none → a.auth = b.auth
  timeout_eq : c.value? .timeout = none → a.timeout = b.timeout
  scale_eq : c.value? .scale = none → a.scale = b.scale
  limit_eq : c.value? .limit = none → a.limit = b.limit
  blocking_eq : c.value? .blocking = none → a.blocking = b.blocking
  pacing_eq : c.value? .pacing = none → a.pacing = b.pacing
  output_eq : c.value? .output = none → a.output = b.output
  insecure_eq : c.value? .insecure = none → a.insecure = b.insecure

theorem or_congr_of_open {α : Type} {given x y : Option α} (h : given = none → x = y) :
    given.or x = given.or y := by
  cases given with
  | none => rw [h rfl]
  | some value => rfl

theorem either_congr_of_open {given : Option String} {x y : Option Bool}
    (h : given = none → x = y) :
    Layer.either (given.map fun _ => true) x = Layer.either (given.map fun _ => true) y := by
  cases given with
  | none => rw [h rfl]
  | some value => simp [Layer.either]

/-- A number, a limit and a pacing are checked to be readable. -/
theorem or_congr_of_checked {α : Type} {o : CommandOption} {read? : String → Option α}
    {x y : Option α} (hc : Checked c.given)
    (hread : ∀ value, o.check value = .ok () → (read? value).isSome = true)
    (h : c.value? o = none → x = y) :
    ((c.value? o).bind read?).or x = ((c.value? o).bind read?).or y :=
  or_congr_of_open fun hopen => h ((bind_value?_eq_none_iff hc hread).1 hopen)

/-- On top of two files that agree below it, a command line differs at most in what the target is
made of. -/
theorem onTopOf_eq_of_agreeBelow (hc : Checked c.given) (h : c.AgreeBelow a b) :
    c.layer.onTopOf b =
      { c.layer.onTopOf a with
        apiHost := (c.layer.onTopOf b).apiHost
        namespaceName := (c.layer.onTopOf b).namespaceName
        action := (c.layer.onTopOf b).action } := by
  -- a value that cannot be read would leave its setting to the file, but it was refused
  have htimeout : c.layer.timeout.or a.timeout = c.layer.timeout.or b.timeout :=
    or_congr_of_checked hc (fun _ hcheck => eq_true_of_known hcheck) h.timeout_eq
  have hscale : c.layer.scale.or a.scale = c.layer.scale.or b.scale :=
    or_congr_of_checked hc (fun _ hcheck => eq_true_of_known hcheck) h.scale_eq
  have hlimit : c.layer.limit.or a.limit = c.layer.limit.or b.limit :=
    or_congr_of_checked hc (fun _ hcheck => eq_true_of_known hcheck) h.limit_eq
  have hpacing : c.layer.pacing.or a.pacing = c.layer.pacing.or b.pacing :=
    or_congr_of_checked hc (fun _ hcheck => isSome_of_check_pacing hcheck) h.pacing_eq
  have hbuckets : c.layer.buckets.or a.buckets = c.layer.buckets.or b.buckets :=
    or_congr_of_open fun hopen => h.buckets_eq (by simpa [layer, flag?] using hopen)
  simp only [layer, Layer.onTopOf, Layer.mk.injEq, true_and]
  exact ⟨(or_congr_of_open h.trace_eq).symm, (or_congr_of_open h.prompts_eq).symm,
    (or_congr_of_open h.url_eq).symm, (or_congr_of_open h.auth_eq).symm, htimeout.symm, hscale.symm,
    hlimit.symm, (either_congr_of_open h.blocking_eq).symm, hpacing.symm,
    (or_congr_of_open h.output_eq).symm, (either_congr_of_open h.insecure_eq).symm, hbuckets.symm⟩

/-- Two files that agree below a command line lead to the same target, or to the same error. -/
theorem target_eq_of_agreeBelow (h : c.AgreeBelow a b) :
    ReplaySettings.target (c.layer.onTopOf b) = ReplaySettings.target (c.layer.onTopOf a) := by
  have hurl : (c.layer.onTopOf a).url = (c.layer.onTopOf b).url := or_congr_of_open h.url_eq
  cases hopen : (c.layer.onTopOf a).url with
  | some text =>
    simp only [ReplaySettings.target, hopen, ← hurl]
  | none =>
    have hhost : (c.layer.onTopOf a).apiHost = (c.layer.onTopOf b).apiHost :=
      or_congr_of_open (h.apiHost_eq hopen)
    have hnamespace : (c.layer.onTopOf a).namespaceName = (c.layer.onTopOf b).namespaceName :=
      or_congr_of_open (h.namespaceName_eq hopen)
    have haction : (c.layer.onTopOf a).action = (c.layer.onTopOf b).action :=
      or_congr_of_open (h.action_eq hopen)
    simp only [ReplaySettings.target, hurl, hhost, hnamespace, haction]

theorem replaySettings_eq_of_agreeBelow {disk disk' : Disk} (hc : Checked c.given)
    (ha : Layer.ofFile disk c.configPath = .ok a) (hb : Layer.ofFile disk' c.configPath = .ok b)
    (h : c.AgreeBelow a b) : c.replaySettings disk = c.replaySettings disk' := by
  have hlayer := onTopOf_eq_of_agreeBelow hc h
  have htarget := target_eq_of_agreeBelow h
  rw [replaySettings_eq (merged_eq_ok ha), replaySettings_eq (merged_eq_ok hb)]
  rw [hlayer] at htarget ⊢
  exact (ReplaySettings.ofLayer_retarget htarget).symm

/-- The settings of a replay come from the arguments, else from the environment, else from the
configuration file, else from the defaults, and a file has no say in what is given above it: two
files that agree on the rest lead to the same settings, or to the same error. -/
theorem layers_noninterfering {environment : List (String × String)} {args : List String}
    (hread : read environment args = .ok c) :
    (∃ own, read [] args = .ok own ∧ own.subcommand = c.subcommand ∧
      ∀ o ∈ CommandOption.allowed c.subcommand,
        c.value? o = (own.value? o).or (o.standIn? environment)) ∧
    (∀ disk file, Layer.ofFile disk c.configPath = .ok file →
      ∀ s, c.replaySettings disk = .ok s ↔ c.Settles file s) ∧
    ∀ disk disk' a b, Layer.ofFile disk c.configPath = .ok a →
      Layer.ofFile disk' c.configPath = .ok b → c.AgreeBelow a b →
        c.replaySettings disk = c.replaySettings disk' := by
  refine ⟨value?_of_read hread, fun disk file hfile s => replaySettings_eq_ok_iff hfile, ?_⟩
  intro disk disk' a b ha hb h
  exact replaySettings_eq_of_agreeBelow (checked_read hread) ha hb h

/-- A command line that leaves the pacing open. -/
def pacedArguments : List String :=
  ["replay", "--prompts", "p.json", "--url", "http://h/x", "--scale", "2", "--limit", "0",
    "--blocking"]

/-- What the arguments say, with a trace from the environment. -/
def pacedLine : CommandLine :=
  { subcommand := .replay
    given := [(.prompts, "p.json"), (.url, "http://h/x"), (.scale, "2"), (.limit, "0"),
      (.blocking, ""), (.trace, "t.csv")] }

/-- A file that sets the pacing, and a scale and a limit. -/
def brisk : String := "scale = 3\nlimit = 7\npacing = \"concurrent\"\n"

/-- A file that sets the pacing, and another target. -/
def elsewhere : String :=
  "url = \"http://staging.example/invoke\"\naction = \"hello\"\npacing = \"concurrent\"\n"

/-- A disk with nothing but a configuration file. -/
def diskWith (text : String) : Disk :=
  { entries := [(["trace-replay.toml"], .file (Utf8.encode text.toList))] }

/-- What the first file says. -/
def briskLayer : Layer :=
  { Layer.empty with scale := some (Double.ofNat 3), limit := some 7, pacing := some .concurrent }

/-- What the second file says. -/
def elsewhereLayer : Layer :=
  { Layer.empty with
    url := some "http://staging.example/invoke", action := some "hello"
    pacing := some .concurrent }

theorem ofFile_brisk : Layer.ofFile (diskWith brisk) pacedLine.configPath = .ok briskLayer :=
  Except.toOption_eq_some_iff.1 (by decide +kernel)

theorem ofFile_elsewhere :
    Layer.ofFile (diskWith elsewhere) pacedLine.configPath = .ok elsewhereLayer :=
  Except.toOption_eq_some_iff.1 (by decide +kernel)

theorem read_pacedArguments :
    read [("TRACE_REPLAY_TRACE", "t.csv")] pacedArguments = .ok pacedLine :=
  Except.toOption_eq_some_iff.1 (by decide)

theorem exists_ofText_paced : ∃ url, Target.ofText "http://h/x" = .ok url := by
  have h : (Target.ofText "http://h/x").toOption.map (·.text) = some "http://h/x" := by
    decide +kernel
  obtain ⟨url, hurl, -⟩ := Option.map_eq_some_iff.1 h
  exact ⟨url, Except.toOption_eq_some_iff.1 hurl⟩

/-- The settings of the command line with either file. -/
def pacedSettings (url : Url) (scale : Double) : ReplaySettings :=
  { source := ⟨"t.csv", .quantile⟩
    prompts := "p.json"
    limit := none
    options :=
      { ReplayOptions.ofUrl url with
        scale, mode := .blocking, pacing := .concurrent } }

theorem settles_brisk {url : Url} {scale : Double} (hurl : Target.ofText "http://h/x" = .ok url)
    (hscale : Double.ofText? "2" = some scale) (hvalid : validateScale scale = .ok ()) :
    pacedLine.Settles briskLayer (pacedSettings url scale) where
  trace_eq := rfl
  buckets_eq := rfl
  prompts_eq := rfl
  target_of_url := by
    rintro text ⟨⟩
    exact hurl
  target_of_action := nofun
  auth_eq := rfl
  scale_eq := by
    show scale = ((Double.ofText? "2").or briskLayer.scale).getD 1
    rw [hscale]
    rfl
  validateScale_eq := hvalid
  timeout_eq := show timeoutOfSeconds 1 = .ok Duration.second from
    Except.toOption_eq_some_iff.1 (by decide +kernel)
  limit_eq := show none = ReplaySettings.limitOf
    ((((pacedLine.value? .limit).bind CommandOption.limitOf?).or briskLayer.limit).getD
      defaultLimit) by decide +kernel
  blocking_iff := iff_of_true rfl (.inl (by decide))
  pacing_eq := rfl
  output_eq := rfl
  insecure_iff := iff_of_false Bool.false_ne_true (by decide)

theorem exists_settles_brisk : ∃ url scale, Target.ofText "http://h/x" = .ok url ∧
    Double.ofText? "2" = some scale ∧ pacedLine.Settles briskLayer (pacedSettings url scale) := by
  have hscale : Double.ofText? "2" = some (Double.ofNat 2) := by decide +kernel
  have hvalid : validateScale (Double.ofNat 2) = .ok () := by decide +kernel
  obtain ⟨url, hurl⟩ := exists_ofText_paced
  exact ⟨url, _, hurl, hscale, settles_brisk hurl hscale hvalid⟩

theorem agreeBelow_paced : pacedLine.AgreeBelow briskLayer elsewhereLayer := by
  constructor <;> decide

/-- Both files set the pacing, and neither has a say in the rest: the command line sends the replay
to its own URL and lifts the limit. -/
theorem layers_noninterfering_sample :
    ∃ c url s, read [("TRACE_REPLAY_TRACE", "t.csv")] pacedArguments = .ok c ∧
      Target.ofText "http://h/x" = .ok url ∧
      c.replaySettings (diskWith brisk) = .ok s ∧ c.replaySettings (diskWith elsewhere) = .ok s ∧
      s.source.trace = "t.csv" ∧ s.limit = none ∧ s.options.url = url ∧
      Double.ofText? "2" = some s.options.scale ∧ s.options.pacing = .concurrent := by
  obtain ⟨url, scale, hurl, hscale, hpaced⟩ := exists_settles_brisk
  obtain ⟨-, hsettles, hsame⟩ := layers_noninterfering read_pacedArguments
  have hbrisk := (hsettles _ _ ofFile_brisk _).2 hpaced
  have hsettings := hsame _ _ _ _ ofFile_brisk ofFile_elsewhere agreeBelow_paced
  exact ⟨pacedLine, url, pacedSettings url scale, read_pacedArguments, hurl, hbrisk,
    hsettings.symm.trans hbrisk, rfl, rfl, rfl, hscale, rfl⟩

end LoadReplay.CommandLine
