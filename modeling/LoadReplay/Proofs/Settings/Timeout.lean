import LoadReplay.Proofs.Command.Inspection
import LoadReplay.Proofs.Session.Fatal
import LoadReplay.Proofs.Settings.Layers

/-!
# Timeouts that round to zero

A number of seconds is checked to be positive before it is rounded to nanoseconds, and a replay
refuses a timeout of zero afterwards. Between the two checks fall the positive numbers of less than
half a nanosecond (`timeoutOfSeconds_eq_zero_iff`): settings with such a timeout are accepted, the
trace is loaded and the banner printed, and then the replay is refused. In all other cases accepted
settings can be run (`CommandLine.accepted_runs_iff`).
-/

namespace LoadReplay

open Double (roundHalfEven quanta unit)

/-! ## Rounding to nanoseconds -/

namespace Duration

/-- Half a nanosecond in seconds; the double is a little more, so that it rounds to a whole one. -/
def halfNanosecond : Double := 5e-10

/-- The rank of half a nanosecond. -/
def halfNanosecondRank : Fin Double.infiniteRank := ⟨4467902934002620053, by decide⟩

theorem halfNanosecond_eq : halfNanosecond = .finite false halfNanosecondRank := by
  decide +kernel

/-- The least number of seconds that is too long for a duration. -/
def tooLong : Double := Double.ofNat maxSeconds

/-- The rank of that number. -/
def tooLongRank : Fin Double.infiniteRank := ⟨4895412794951729152, by decide⟩

theorem tooLong_eq : tooLong = .finite false tooLongRank := by
  decide +kernel

theorem quanta_tooLongRank : quanta tooLongRank = maxSeconds * unit := by
  decide

/-- The ranks below that of half a nanosecond round to zero, and no others. -/
theorem roundHalfEven_second_eq_zero_iff {rank : Nat} :
    roundHalfEven (quanta rank * second) unit = 0 ↔ rank < halfNanosecondRank.val := by
  have hbelow : 2 * (quanta (halfNanosecondRank.val - 1) * second) ≤ unit := by decide
  have habove : unit < 2 * (quanta halfNanosecondRank.val * second) := by decide
  rw [Double.roundHalfEven_eq_zero_iff Double.unit_pos]
  constructor
  · intro hle
    by_contra hge
    have hmono : quanta halfNanosecondRank.val ≤ quanta rank :=
      Double.quanta_strictMono.monotone (Nat.not_lt.1 hge)
    have hmul := Nat.mul_le_mul_right second hmono
    omega
  · intro hlt
    have hmono : quanta rank ≤ quanta (halfNanosecondRank.val - 1) :=
      Double.quanta_strictMono.monotone (Nat.le_sub_one_of_lt hlt)
    have hmul := Nat.mul_le_mul_right second hmono
    omega

theorem ofSeconds?_of_pos {rank : Fin Double.infiniteRank} (h : 0 < rank.val) :
    ofSeconds? (.finite false rank) =
      if tooLongRank.val ≤ rank.val then none
      else some (roundHalfEven (quanta rank * second) unit) := by
  rw [ofSeconds?, if_neg h.ne', ← quanta_tooLongRank]
  simp only [Bool.false_eq_true, if_false, Double.quanta_strictMono.le_iff_le]

end Duration

/-! ## Timeouts -/

open Duration (halfNanosecond tooLong)

variable {seconds : Double} {timeout : Duration}

/-- The timeouts are the durations of the positive numbers of seconds that are not too long. -/
theorem timeoutOfSeconds_eq_ok_iff : timeoutOfSeconds seconds = .ok timeout ↔
    ∃ rank, seconds = .finite false rank ∧ 0 < rank.val ∧ rank.val < Duration.tooLongRank.val ∧
      timeout = roundHalfEven (quanta rank * Duration.second) unit := by
  unfold timeoutOfSeconds
  constructor
  · intro h
    split at h
    next hpos =>
      rw [Bool.and_eq_true, decide_eq_true_eq] at hpos
      obtain ⟨negative, rank, rfl⟩ := Double.exists_of_isFinite hpos.1
      obtain ⟨rfl, hrank⟩ := Double.pos_finite_iff.1 hpos.2
      rw [Duration.ofSeconds?_of_pos hrank] at h
      split at h
      next timeout' hsome =>
        split_ifs at hsome with hlong
        cases h
        exact ⟨rank, rfl, hrank, Nat.not_le.1 hlong, (Option.some.inj hsome).symm⟩
      next => cases h
    next => cases h
  · rintro ⟨rank, rfl, hrank, hlong, rfl⟩
    have hpos : (0 : Double) < .finite false rank := Double.pos_finite_iff.2 ⟨rfl, hrank⟩
    simp [Double.isFinite, hpos, Duration.ofSeconds?_of_pos hrank, Nat.not_le.2 hlong]

/-- A number of seconds has a timeout when it is positive and not too long. -/
theorem exists_timeoutOfSeconds_iff :
    (∃ timeout, timeoutOfSeconds seconds = .ok timeout) ↔ 0 < seconds ∧ seconds < tooLong := by
  rw [Duration.tooLong_eq, Double.between_iff]
  simp only [timeoutOfSeconds_eq_ok_iff]
  constructor
  · rintro ⟨timeout, rank, heq, hrank, hlong, -⟩
    exact ⟨rank, heq, hrank, hlong⟩
  · rintro ⟨rank, heq, hrank, hlong⟩
    exact ⟨_, rank, heq, hrank, hlong, rfl⟩

/-- A timeout is zero when its number of seconds is below half a nanosecond. -/
theorem timeout_eq_zero_iff (h : timeoutOfSeconds seconds = .ok timeout) :
    timeout = 0 ↔ seconds < halfNanosecond := by
  obtain ⟨rank, rfl, -, -, rfl⟩ := timeoutOfSeconds_eq_ok_iff.1 h
  rw [Duration.roundHalfEven_second_eq_zero_iff, Duration.halfNanosecond_eq,
    Double.finite_lt_finite_iff]

/-- The positive numbers of seconds below half a nanosecond are those with a timeout of zero. -/
theorem timeoutOfSeconds_eq_zero_iff :
    timeoutOfSeconds seconds = .ok 0 ↔ 0 < seconds ∧ seconds < halfNanosecond := by
  constructor
  · intro h
    exact ⟨(exists_timeoutOfSeconds_iff.1 ⟨0, h⟩).1, (timeout_eq_zero_iff h).1 rfl⟩
  · intro h
    rw [Duration.halfNanosecond_eq, Double.between_iff] at h
    obtain ⟨rank, heq, hrank, hlt⟩ := h
    have hhalf : Duration.halfNanosecondRank.val < Duration.tooLongRank.val := by decide
    exact timeoutOfSeconds_eq_ok_iff.2 ⟨rank, heq, hrank, hlt.trans hhalf,
      (Duration.roundHalfEven_second_eq_zero_iff.2 hlt).symm⟩

/-! ## Refusals -/

theorem ReplayOptions.validate_eq {o : ReplayOptions} (h : validateScale o.scale = .ok ()) :
    o.validate = if o.timeout = 0 then .error .timeoutZero else .ok () := by
  rw [validate, h]
  rfl

theorem Session.run_of_refused {options : ReplayOptions} {fault : ConfigurationFault}
    (h : options.validate = .error fault) (disk : Disk) (events : List Event)
    (endpoint : Endpoint) (cancelAt : Option Time) :
    run disk events options endpoint cancelAt =
      ⟨[], .error ⟨.configuration fault, [], disk⟩⟩ := by
  rw [run, h]

/-- With a scale that is passed a session is refused for its options when the timeout is zero, and
for nothing else. -/
theorem Session.run_eq_configuration_iff {options : ReplayOptions} {fault : ConfigurationFault}
    (h : validateScale options.scale = .ok ()) (disk : Disk) (events : List Event)
    (endpoint : Endpoint) (cancelAt : Option Time) :
    (run disk events options endpoint cancelAt).value.mapError (·.error) =
        .error (.configuration fault) ↔
      fault = .timeoutZero ∧ options.timeout = 0 := by
  have hvalidate := ReplayOptions.validate_eq h
  by_cases hzero : options.timeout = 0
  · rw [if_pos hzero] at hvalidate
    simp [run_of_refused hvalidate, Except.mapError, hzero, eq_comm]
  · rw [if_neg hzero] at hvalidate
    refine iff_of_false ?_ fun hfault => hzero hfault.2
    rw [Except.mapError_eq_error_iff]
    rintro ⟨failure, hrun, hfailure⟩
    rw [run, hvalidate] at hrun
    cases hevents : Event.validate events with
    | error fault =>
      rw [hevents] at hrun
      cases hrun
      cases hfailure
    | ok =>
      rw [hevents] at hrun
      obtain ⟨hfatal, -, -⟩ := runWith_eq_error_iff.1 hrun
      rw [hfailure] at hfatal
      obtain ⟨hscale⟩ := hfatal
      exact hscale (validateScale_eq_ok_iff.1 h)

/-- What becomes of settings that were accepted with so many seconds for the timeout: their scale
stands every later check, and so does their timeout unless it is below half a nanosecond. -/
structure ReplaySettings.AcceptedWith (seconds : Double) (s : ReplaySettings) : Prop where
  seconds_pos : 0 < seconds
  seconds_lt : seconds < tooLong
  validateScale_eq : validateScale s.options.scale = .ok ()
  validate_iff : s.options.validate = .ok () ↔ ¬ seconds < halfNanosecond
  refused_iff : ∀ disk events endpoint cancelAt fault,
    (Session.run disk events s.options endpoint cancelAt).value.mapError (·.error) =
        .error (.configuration fault) ↔
      fault = .timeoutZero ∧ seconds < halfNanosecond
  replay_eq : seconds < halfNanosecond → ∀ disk loaded endpoint cancelAt,
    (Trace.load disk s.source.trace s.prompts s.source.buckets s.limit).value = .ok loaded →
      Command.replay disk s endpoint cancelAt =
        .failed disk (Command.bannerLines s.options loaded) (.replay (.configuration .timeoutZero))

theorem ReplaySettings.acceptedWith {l : Layer} {s : ReplaySettings} (h : IsOf l s) :
    AcceptedWith (l.timeout.getD 1) s := by
  obtain ⟨hpos, hlong⟩ := exists_timeoutOfSeconds_iff.1 ⟨_, h.timeout_eq⟩
  have hzero := timeout_eq_zero_iff h.timeout_eq
  refine ⟨hpos, hlong, h.validateScale_eq, ?_, ?_, ?_⟩
  · rw [← hzero, ReplayOptions.validate_eq h.validateScale_eq]
    split_ifs with hif <;> simp [hif]
  · intro disk events endpoint cancelAt fault
    rw [← hzero]
    exact Session.run_eq_configuration_iff h.validateScale_eq disk events endpoint cancelAt
  · intro hlt disk loaded endpoint cancelAt hload
    have hvalidate := ReplayOptions.validate_eq h.validateScale_eq
    rw [if_pos (hzero.2 hlt)] at hvalidate
    simp only [Command.replay, hload, Session.run_of_refused hvalidate]
    rfl

namespace CommandLine

/-- Accepted settings can be run, unless their timeout is positive but below half a nanosecond. -/
theorem accepted_runs_iff (c : CommandLine) (disk : Disk) :
    (∀ s, c.replaySettings disk = .ok s →
        ∃ l, c.merged disk = .ok l ∧ ReplaySettings.AcceptedWith (l.timeout.getD 1) s) ∧
      ∀ seconds, timeoutOfSeconds seconds = .ok 0 ↔ 0 < seconds ∧ seconds < halfNanosecond := by
  refine ⟨fun s h => ?_, fun seconds => timeoutOfSeconds_eq_zero_iff⟩
  obtain ⟨l, hmerged, hl⟩ := Except.bind_eq_ok_iff.1 h
  exact ⟨l, hmerged, ReplaySettings.acceptedWith (ReplaySettings.ofLayer_eq_ok_iff.1 hl)⟩

/-- Settings with a timeout of a second can be run. -/
theorem accepted_runs_iff_sample :
    ∃ s, pacedLine.replaySettings (diskWith brisk) = .ok s ∧ s.options.validate = .ok () := by
  obtain ⟨url, scale, -, -, hpaced⟩ := exists_settles_brisk
  have hsettings := (replaySettings_eq_ok_iff ofFile_brisk).2 hpaced
  obtain ⟨l, hmerged, haccepted⟩ := (accepted_runs_iff _ _).1 _ hsettings
  obtain rfl := Except.ok.inj ((merged_eq_ok ofFile_brisk).symm.trans hmerged)
  exact ⟨_, hsettings, haccepted.validate_iff.2 (by decide +kernel)⟩

/-- A command line with a timeout of a tenth of a nanosecond. -/
def hurriedArguments : List String :=
  ["replay", "--trace", "t.csv", "--prompts", "p.json", "--url", "http://h/x", "--limit", "0",
    "--timeout", "1e-10"]

/-- What the arguments say. -/
def hurriedLine : CommandLine :=
  { subcommand := .replay
    given := [(.trace, "t.csv"), (.prompts, "p.json"), (.url, "http://h/x"), (.limit, "0"),
      (.timeout, "1e-10")] }

theorem read_hurriedArguments : read [] hurriedArguments = .ok hurriedLine :=
  Except.toOption_eq_some_iff.1 (by decide)

/-- The settings that are accepted. -/
def hurriedSettings (url : Url) : ReplaySettings :=
  { source := ⟨"t.csv", .quantile⟩
    prompts := "p.json"
    limit := none
    options := { ReplayOptions.ofUrl url with timeout := 0 } }

theorem settles_hurried {url : Url} (hurl : Target.ofText "http://h/x" = .ok url) :
    hurriedLine.Settles Layer.empty (hurriedSettings url) where
  trace_eq := rfl
  buckets_eq := rfl
  prompts_eq := rfl
  target_of_url := by
    rintro text ⟨⟩
    exact hurl
  target_of_action := nofun
  auth_eq := rfl
  scale_eq := rfl
  validateScale_eq := show validateScale 1 = .ok () by decide +kernel
  timeout_eq := show timeoutOfSeconds ((((hurriedLine.value? .timeout).bind Double.ofText?).or
      Layer.empty.timeout).getD 1) = .ok 0 from
    Except.toOption_eq_some_iff.1 (by decide +kernel)
  limit_eq := show none = ReplaySettings.limitOf
    ((((hurriedLine.value? .limit).bind CommandOption.limitOf?).or Layer.empty.limit).getD
      defaultLimit) by decide +kernel
  blocking_iff := iff_of_false nofun (by decide)
  pacing_eq := rfl
  output_eq := rfl
  insecure_iff := iff_of_false Bool.false_ne_true (by decide)

/-- The settings are accepted, and the replay is refused after its banner. -/
theorem hurried_refused :
    ∃ c s, read [] hurriedArguments = .ok c ∧ c.replaySettings Command.quartileDisk = .ok s ∧
      s.options.validate ≠ .ok () ∧
      ∀ endpoint cancelAt,
        (Command.run Command.quartileDisk [] hurriedArguments endpoint cancelAt).error =
            some (.replay (.configuration .timeoutZero)) ∧
          "Trace Replay" ∈
            (Command.run Command.quartileDisk [] hurriedArguments endpoint cancelAt).output := by
  have hfile : Layer.ofFile Command.quartileDisk hurriedLine.configPath = .ok Layer.empty :=
    Except.toOption_eq_some_iff.1 (by decide +kernel)
  have hlt : (hurriedLine.layer.onTopOf Layer.empty).timeout.getD 1 < halfNanosecond := by
    decide +kernel
  obtain ⟨url, hurl⟩ := exists_ofText_paced
  have hsettings := (replaySettings_eq_ok_iff hfile).2 (settles_hurried hurl)
  have haccepted := ReplaySettings.acceptedWith (isOf_onTopOf_iff.2 (settles_hurried hurl))
  refine ⟨hurriedLine, hurriedSettings url, read_hurriedArguments, hsettings,
    fun hvalid => haccepted.validate_iff.1 hvalid hlt, fun endpoint cancelAt => ?_⟩
  have hrun : Command.run Command.quartileDisk [] hurriedArguments endpoint cancelAt =
      Command.replay Command.quartileDisk (hurriedSettings url) endpoint cancelAt := by
    rw [Command.run, read_hurriedArguments]
    simp only [Command.runParsed, hsettings]
    rfl
  rw [hrun, haccepted.replay_eq hlt _ _ endpoint cancelAt Command.load_quartileDisk]
  exact ⟨rfl, List.mem_cons_self⟩

end CommandLine

end LoadReplay
