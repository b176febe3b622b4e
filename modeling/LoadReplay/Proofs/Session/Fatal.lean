import LoadReplay.Command.Replay
import LoadReplay.Proofs.Replay.Safety

/-!
# What ends a session

A session fails before anything is dispatched or not at all. `FatalError` lists the errors in the
order in which they are looked for: a scale that is not finite and positive, events that are
refused, and the first event whose time the clock cannot tell. `Session.fails_before_dispatch` says
that these are the errors of a session, whatever the dispatches do and whenever it is cancelled,
that a session that fails has called nothing, logged nothing and left the disk as it was, and that
all other sessions come to a summary, whatever becomes of their report.
-/

namespace LoadReplay

/-- The errors of a session. -/
inductive FatalError (scale : Double) (events : List Event) : Error → Prop where
  | scale (h : ¬ (scale.isFinite = true ∧ 0 < scale)) :
    FatalError scale events (.configuration (.scale scale))
  | events {fault : EventFault} (hscale : scale.isFinite = true ∧ 0 < scale)
    (h : Event.validate events = .error fault) :
    FatalError scale events (.trace (.events fault))
  | outOfRange {i : Nat} {event : Event} (hscale : scale.isFinite = true ∧ 0 < scale)
    (hevents : Event.validate events = .ok ())
    (h : Departure.FirstOutOfRange scale events i event) :
    FatalError scale events (.trace (.events (.outOfRange i (event.offset * scale))))

/-! ## Checks -/

namespace Replay

variable {scale : Double} {events : List Event} {e : Error}

theorem departures_eq_error_iff :
    departures scale events = .error e ↔ FatalError scale events e := by
  simp only [departures, Except.bind_eq_error_iff, Except.mapError_eq_error_iff,
    Except.mapError_eq_ok_iff]
  constructor
  · rintro (⟨fault, h, rfl⟩ | ⟨_, hscale, ⟨fault, h, rfl⟩ | ⟨_, hevents, fault, h, rfl⟩⟩)
    · obtain ⟨hscale, rfl⟩ := validateScale_eq_error_iff.1 h
      exact .scale hscale
    · exact .events (validateScale_eq_ok_iff.1 hscale) h
    · obtain ⟨i, event, hfirst, rfl⟩ := Departure.ofEvents_eq_error_iff.1 h
      rw [Nat.zero_add]
      exact .outOfRange (validateScale_eq_ok_iff.1 hscale) hevents hfirst
  · rintro (h | ⟨hscale, h⟩ | ⟨hscale, hevents, h⟩)
    · exact .inl ⟨_, validateScale_eq_error_iff.2 ⟨h, rfl⟩, rfl⟩
    · exact .inr ⟨_, validateScale_eq_ok_iff.2 hscale, .inl ⟨_, h, rfl⟩⟩
    · refine .inr ⟨_, validateScale_eq_ok_iff.2 hscale, .inr ⟨_, hevents, _, ?_, rfl⟩⟩
      exact Departure.ofEvents_eq_error_iff.2 ⟨_, _, h, by rw [Nat.zero_add]⟩

/-- Dispatching never fails: the errors of a replay are those of its checks, before any call. -/
theorem run_eq_error_iff {pacing : Pacing} {dispatcher : Dispatcher} {cancelAt : Option Time}
    {failure : Failure} :
    run scale pacing dispatcher cancelAt events = .error failure ↔
      FatalError scale events failure.error ∧ failure.calls = [] ∧ failure.log = [] := by
  rw [run_eq, ← departures_eq_error_iff]
  obtain ⟨e, calls, log⟩ := failure
  cases departures scale events with
  | error fault => simp [Except.mapError, Except.map, eq_comm]
  | ok ds => simp [Except.mapError, Except.map]

theorem run_of_fatal (h : FatalError scale events e) (pacing : Pacing) (dispatcher : Dispatcher)
    (cancelAt : Option Time) :
    run scale pacing dispatcher cancelAt events = .error ⟨e, [], []⟩ :=
  run_eq_error_iff.2 ⟨h, rfl, rfl⟩

end Replay

/-! ## Reports -/

/-- A report fails when it is to be written and cannot be. -/
theorem Report.emit_eq_failed_iff {disk : Disk} {mode : Mode} {output : Option String}
    {records : List Measurement} {e : Error} :
    (emit disk mode output records).2.value = .failed e ↔
      mode = .blocking ∧ records ≠ [] ∧ ∃ path fault, output = some path ∧
        (write disk path records).2 = .error fault ∧ e = .report path fault := by
  unfold emit
  cases mode with
  | fireAndForget => simp
  | blocking =>
    cases output with
    | none => simp
    | some path =>
      cases records with
      | nil => simp
      | cons record records =>
        rcases hwrite : write disk path (record :: records) with ⟨written, fault | _⟩
        · simp [hwrite, eq_comm]
        · simp [hwrite]

/-! ## Sessions -/

namespace Session

variable {disk : Disk} {events : List Event} {options : ReplayOptions} {dispatcher : Dispatcher}
  {cancelAt : Option Time} {e : Error}

/-- A session that fails has done nothing by then. -/
theorem runWith_of_fatal (h : FatalError options.scale events e) :
    runWith disk events options dispatcher cancelAt = ⟨[], .error ⟨e, [], disk⟩⟩ := by
  rw [runWith, Replay.run_of_fatal h]

/-- A session comes to the summary of its replay, whatever becomes of its report. -/
structure Completed (disk : Disk) (options : ReplayOptions) (f : Replay.Finished) (s : Session) :
    Prop where
  outcome_eq : s.outcome = f.outcome
  calls_eq : s.calls = f.calls
  summary_eq : s.summary = .of f.outcome
  report_failed_iff : ∀ e, s.report = .failed e ↔
    options.mode = .blocking ∧ f.outcome.records ≠ [] ∧ ∃ path fault, options.output = some path ∧
      (Report.write disk path f.outcome.records).2 = .error fault ∧ e = .report path fault

theorem exists_completed (disk : Disk) (options : ReplayOptions) {r : Logged Replay.Finished}
    (h : Replay.run options.scale options.pacing dispatcher cancelAt events = .ok r) :
    ∃ s, (runWith disk events options dispatcher cancelAt).value = .ok s ∧
      Completed disk options r.value s := by
  rw [runWith, h]
  exact ⟨_, rfl, rfl, rfl, rfl, fun e => Report.emit_eq_failed_iff⟩

theorem runWith_eq_error_iff {failure : Failure} :
    (runWith disk events options dispatcher cancelAt).value = .error failure ↔
      FatalError options.scale events failure.error ∧ failure.calls = [] ∧
        failure.disk = disk := by
  constructor
  · intro h
    cases hrun : Replay.run options.scale options.pacing dispatcher cancelAt events with
    | error stopped =>
      rw [runWith, hrun] at h
      cases h
      obtain ⟨hfatal, hcalls, -⟩ := Replay.run_eq_error_iff.1 hrun
      exact ⟨hfatal, hcalls, rfl⟩
    | ok r =>
      obtain ⟨s, hs, -⟩ := exists_completed disk options hrun
      rw [hs] at h
      cases h
  · obtain ⟨e, calls, left⟩ := failure
    rintro ⟨hfatal, rfl, rfl⟩
    rw [runWith_of_fatal hfatal]

/-- Where its events cannot be replayed, a session fails without a call and leaves the disk as it
was, be it for its options or for its events. -/
theorem run_of_fatal (disk : Disk) (endpoint : Endpoint) (cancelAt : Option Time)
    (h : FatalError options.scale events e) :
    ∃ failure, (run disk events options endpoint cancelAt).value = .error failure ∧
      failure.calls = [] ∧ failure.disk = disk := by
  unfold run
  split
  · exact ⟨_, rfl, rfl, rfl⟩
  · exact ⟨_, rfl, rfl, rfl⟩
  · exact ⟨⟨e, [], disk⟩, runWith_eq_error_iff.2 ⟨h, rfl, rfl⟩, rfl, rfl⟩

end Session

/-- A command whose replay fails leaves the disk as it was and sends nothing. -/
theorem Command.replay_of_fatal {disk : Disk} {settings : ReplaySettings} {endpoint : Endpoint}
    {cancelAt : Option Time} {loaded : Trace.Loaded} {e : Error}
    (hload : (Trace.load disk settings.source.trace settings.prompts settings.source.buckets
      settings.limit).value = .ok loaded)
    (h : FatalError settings.options.scale loaded.events e) :
    (replay disk settings endpoint cancelAt).error.isSome = true ∧
      (replay disk settings endpoint cancelAt).disk = disk ∧
      (replay disk settings endpoint cancelAt).requests = [] := by
  obtain ⟨failure, hfailure, hcalls, hdisk⟩ := Session.run_of_fatal disk endpoint cancelAt h
  simp only [replay, hload, hfailure]
  refine ⟨rfl, hdisk, ?_⟩
  rw [hcalls]
  rfl

namespace Session

/-- A session fails with a fatal error, without a call and with the disk as it was, whatever the
dispatches would do, and otherwise it comes to a summary that does not depend on its report. -/
theorem fails_before_dispatch (events : List Event) (options : ReplayOptions) :
    (∀ disk dispatcher cancelAt failure,
        (runWith disk events options dispatcher cancelAt).value = .error failure ↔
          FatalError options.scale events failure.error ∧ failure.calls = [] ∧
            failure.disk = disk) ∧
      (∀ e, FatalError options.scale events e →
        (∀ disk dispatcher cancelAt,
          runWith disk events options dispatcher cancelAt = ⟨[], .error ⟨e, [], disk⟩⟩) ∧
        ∀ disk settings endpoint cancelAt loaded, settings.options = options →
          loaded.events = events →
          (Trace.load disk settings.source.trace settings.prompts settings.source.buckets
            settings.limit).value = .ok loaded →
          (Command.replay disk settings endpoint cancelAt).error.isSome = true ∧
            (Command.replay disk settings endpoint cancelAt).disk = disk ∧
            (Command.replay disk settings endpoint cancelAt).requests = []) ∧
      ((∀ e, ¬ FatalError options.scale events e) → ∀ dispatcher cancelAt, ∃ f, ∀ disk output, ∃ s,
        (runWith disk events { options with output } dispatcher cancelAt).value = .ok s ∧
          Completed disk { options with output } f s) := by
  refine ⟨fun _ _ _ _ => runWith_eq_error_iff, fun e h => ⟨fun _ _ _ => runWith_of_fatal h, ?_⟩,
    fun h dispatcher cancelAt => ?_⟩
  · rintro disk settings endpoint cancelAt loaded rfl rfl hload
    exact Command.replay_of_fatal hload h
  · cases hrun : Replay.run options.scale options.pacing dispatcher cancelAt events with
    | error failure => exact absurd (Replay.run_eq_error_iff.1 hrun).1 (h failure.error)
    | ok r =>
      exact ⟨r.value, fun disk output =>
        exists_completed disk { options with output } hrun⟩

/-- More seconds than the clock can tell. -/
def lateSeconds : Nat := 10000000000000000000

/-- Two events, the second of which is further away than the clock can tell. -/
def lateEvents : List Event := [Replay.sampleEvent 0, Replay.sampleEvent lateSeconds]

/-- Options without a report. -/
def sampleOptions : ReplayOptions :=
  .ofUrl
    { scheme := .http
      username := ""
      password := ""
      host := .domain "localhost"
      port := none
      path := [""]
      query := none
      fragment := none }

theorem firstOutOfRange_lateEvents :
    Departure.FirstOutOfRange 1 lateEvents 1 (Replay.sampleEvent lateSeconds) where
  event_eq := rfl
  not_inRange := by
    rintro ⟨deadline, hdeadline, hlt⟩
    have hlate : Duration.ofSeconds? ((Replay.sampleEvent lateSeconds).offset * 1) =
        some (lateSeconds * Duration.second) := by decide +kernel
    rw [hlate, Option.some.injEq] at hdeadline
    exact absurd (hdeadline ▸ hlt) (by decide)
  inRange_of_lt := by
    intro j hj earlier hearlier
    obtain rfl : j = 0 := Nat.lt_one_iff.1 hj
    cases hearlier
    exact ⟨0, by decide +kernel, by decide⟩

/-- A trace with an event that is too far away is refused, whatever the dispatches would do. -/
theorem fails_before_dispatch_sample :
    FatalError sampleOptions.scale lateEvents
        (.trace (.events (.outOfRange 1 ((Replay.sampleEvent lateSeconds).offset * 1)))) ∧
      ∀ disk dispatcher cancelAt, runWith disk lateEvents sampleOptions dispatcher cancelAt =
        ⟨[], .error
          ⟨.trace (.events (.outOfRange 1 ((Replay.sampleEvent lateSeconds).offset * 1))), [],
            disk⟩⟩ := by
  have hscale : (1 : Double).isFinite = true ∧ (0 : Double) < 1 := by decide +kernel
  have hevents : Event.validate lateEvents = .ok () := by decide +kernel
  have hfatal := FatalError.outOfRange hscale hevents firstOutOfRange_lateEvents
  obtain ⟨-, hfails, -⟩ := fails_before_dispatch lateEvents sampleOptions
  exact ⟨hfatal, (hfails _ hfatal).1⟩

end Session

end LoadReplay
