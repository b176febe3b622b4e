import LoadReplay.Proofs.Replay.Punctuality

/-!
# Panics and the log

A concurrent replay logs that a dispatch panicked when it notices that the dispatch has ended: just
before it hands over the next departure, and once all are handed over as soon as they end. So the
log tells of the panics up to the last look (`lastLook`): all of them if the replay is not
cancelled, those before the last departure if it is cancelled in a wait (`Replay.panics_logged`).
Of a dispatch that panicked after the last look nothing is told (`Replay.panic_untold`).
-/

namespace LoadReplay

/-- Whether a call ends in a panic. -/
def Dispatcher.panics (dispatcher : Dispatcher) (call : Call) : Bool :=
  decide ((dispatcher call.departure).ending = .panicked)

/-- How many of the calls panic before a time. -/
def Dispatcher.panicsBefore (dispatcher : Dispatcher) (t : Time) (calls : List Call) : Nat :=
  calls.countP fun call => dispatcher.panics call && decide (dispatcher.ends call < t)

/-- How many of the calls panic by a time. -/
def Dispatcher.panicsBy (dispatcher : Dispatcher) (t : Time) (calls : List Call) : Nat :=
  calls.countP fun call => dispatcher.panics call && decide (dispatcher.ends call ≤ t)

namespace Concurrent.State

variable {dispatcher : Dispatcher} {outer : Option Time} {table handed : List Call} {s : State}
  {t : Time}

/-! ## The last look -/

/-- The flights were looked at for the last time at `t`: those that ended before are noticed, and
only those that ended by then. -/
structure LookedAt (t : Time) (s : State) : Prop where
  landed_le : ∀ f ∈ s.landed, f.ends ≤ t
  le_flying : ∀ f ∈ s.flying, t ≤ f.ends

theorem Sound.countP_calls (h : Sound dispatcher outer handed s) (p : Flight → Bool) :
    s.course.calls.countP (p ∘ flight dispatcher) = s.landed.countP p + s.flying.countP p := by
  rw [← List.countP_append, h.flights_perm.countP_eq, List.countP_map]

/-- The log tells of the panics up to the last look. -/
theorem LookedAt.count_log (hlooked : s.LookedAt t) (h : Sound dispatcher outer handed s)
    (hdiscreet : dispatcher.Discreet) :
    dispatcher.panicsBefore t s.course.calls ≤ s.course.log.count .panicked ∧
      s.course.log.count .panicked ≤ dispatcher.panicsBy t s.course.calls := by
  rw [h.count_log hdiscreet]
  constructor
  · have hflying : s.flying.countP (fun f => f.panicked && decide (f.ends < t)) = 0 := by
      refine List.countP_eq_zero.2 fun f hf hcounted => ?_
      obtain ⟨-, hlt⟩ := Bool.and_eq_true_iff.1 hcounted
      exact absurd (hlooked.le_flying f hf) (of_decide_eq_true hlt).not_ge
    calc dispatcher.panicsBefore t s.course.calls
        = s.landed.countP (fun f => f.panicked && decide (f.ends < t)) +
            s.flying.countP (fun f => f.panicked && decide (f.ends < t)) :=
          h.countP_calls fun f => f.panicked && decide (f.ends < t)
      _ = s.landed.countP (fun f => f.panicked && decide (f.ends < t)) := by
          rw [hflying, Nat.add_zero]
      _ ≤ s.landed.countP Flight.panicked :=
          List.countP_mono_left fun f _ hf => (Bool.and_eq_true_iff.1 hf).1
  · calc s.landed.countP Flight.panicked
        ≤ s.landed.countP (fun f => f.panicked && decide (f.ends ≤ t)) :=
          List.countP_mono_left fun f hf hpanicked =>
            Bool.and_eq_true_iff.2 ⟨hpanicked, decide_eq_true (hlooked.landed_le f hf)⟩
      _ ≤ s.landed.countP (fun f => f.panicked && decide (f.ends ≤ t)) +
            s.flying.countP (fun f => f.panicked && decide (f.ends ≤ t)) := Nat.le_add_right _ _
      _ = dispatcher.panicsBy t s.course.calls :=
          (h.countP_calls fun f => f.panicked && decide (f.ends ≤ t)).symm

/-- The log tells of all panics when no flight is left. -/
theorem Sound.count_log_of_landed (h : Sound dispatcher outer handed s)
    (hdiscreet : dispatcher.Discreet) (hflying : s.flying = []) :
    s.course.log.count .panicked = s.course.calls.countP dispatcher.panics := by
  have hcalls : s.course.calls.countP dispatcher.panics = _ := h.countP_calls Flight.panicked
  rw [hcalls, hflying, List.countP_nil, Nat.add_zero, h.count_log hdiscreet]

/-! ## Waiting for the last ones -/

/-- While nothing is handed over the replay looks all the time. -/
theorem Sound.lookedAt_now (h : Sound dispatcher outer handed s)
    (hflying : ∀ f ∈ s.flying, s.course.now ≤ f.ends) : s.LookedAt s.course.now :=
  ⟨h.landed_le_now, hflying⟩

/-- No flight is left that ended before a departure was handed over. -/
theorem Sound.now_le_flying (h : Sound dispatcher outer table s)
    (hnow : table ≠ [] → ∃ call ∈ table, call.start = s.course.now) :
    ∀ f ∈ s.flying, s.course.now ≤ f.ends := by
  intro f hf
  obtain ⟨made, hmade, -⟩ := h.mem_flights.1 (List.mem_append_right _ hf)
  obtain ⟨call, hcall, hstart⟩ := hnow (List.ne_nil_of_mem (h.calls_prefix.subset hmade))
  exact hstart ▸ h.start_le_ends call hcall f hf

theorem now_lt_flying_land (s : State) : ∀ f ∈ s.land.flying, s.course.now < f.ends := by
  intro f hf
  have hlate := (List.mem_filter.1 hf).2
  rw [Bool.not_eq_true', decide_eq_false_iff_not] at hlate
  exact not_le.1 hlate

/-- Flights that are left when others have landed end later than they. -/
theorem flying_foldl_pass (times : List Time) (s : State)
    (h : ∀ f ∈ s.flying, s.course.now < f.ends) :
    ∀ f ∈ (times.foldl (fun s t => (s.advance t).land) s).flying,
      f ∈ s.flying ∧ times.getLastD s.course.now < f.ends := by
  induction times generalizing s with
  | nil => exact fun f hf => ⟨hf, h f hf⟩
  | cons t times ih =>
    intro f hf
    rw [List.getLastD_cons]
    obtain ⟨hmem, hlt⟩ := ih _ (now_lt_flying_land (s.advance t)) f hf
    exact ⟨(List.mem_filter.1 hmem).1, hlt⟩

/-- A flight that is left ends after all of the endings at which others landed. -/
theorem not_mem_of_flying {times : List Time} (htimes : times.Pairwise (· ≤ ·)) {s : State}
    (h : ∀ f ∈ s.flying, s.course.now < f.ends) {f : Flight}
    (hf : f ∈ (times.foldl (fun s t => (s.advance t).land) s).flying) :
    f ∈ s.flying ∧ f.ends ∉ times := by
  obtain ⟨hmem, hlt⟩ := flying_foldl_pass times s h f hf
  exact ⟨hmem, fun hends => absurd (le_getLastD htimes hends s.course.now) hlt.not_ge⟩

theorem settle_flying (h : ∀ f ∈ s.flying, s.course.now < f.ends) :
    (∀ f ∈ s.settle.1.flying, s.settle.1.course.now ≤ f.ends) ∧
      (s.settle.2 = false → s.settle.1.flying = []) := by
  have hends : ∀ f ∈ s.flying, f.ends ∈ s.endings := fun f hf =>
    mem_endings.2 ⟨⟨f, hf, rfl⟩, h f hf⟩
  cases hby : s.course.cancelledBy (s.endings.getLastD s.course.now) with
  | some t =>
    simp only [State.settle, hby]
    refine ⟨fun f hf => ?_, fun hopen => Bool.noConfusion hopen⟩
    obtain ⟨hmem, hnot⟩ := not_mem_of_flying (s.pairwise_endings.filter (· < t)) h hf
    exact not_lt.1 fun hlt => hnot (List.mem_filter.2 ⟨hends f hmem, decide_eq_true hlt⟩)
  | none =>
    have hnil : (s.endings.foldl (fun s t => (s.advance t).land) s).flying = [] := by
      refine List.eq_nil_iff_forall_not_mem.2 fun f hf => ?_
      obtain ⟨hmem, hnot⟩ := not_mem_of_flying s.pairwise_endings h hf
      exact hnot (hends f hmem)
    simp only [State.settle, hby]
    refine ⟨?_, fun _ => hnil⟩
    rw [hnil]
    exact List.forall_mem_nil _

/-- While it waits for the last flights the replay looks all the time, and it leaves none if it is
not cancelled. -/
theorem Sound.drain_flying (h : Sound dispatcher outer table s)
    (hnow : table ≠ [] → ∃ call ∈ table, call.start = s.course.now) :
    (∀ f ∈ (State.drain dispatcher s).1.flying,
        (State.drain dispatcher s).1.course.now ≤ f.ends) ∧
      ((State.drain dispatcher s).2 = false → (State.drain dispatcher s).1.flying = []) := by
  have hlaunch := h.land.launchAll true
  have hlaunched : (State.launchAll dispatcher true s.land).course.now = s.course.now :=
    now_launchAll dispatcher true s.land
  rw [drain_eq]
  split
  next => exact ⟨h.now_le_flying hnow, nofun⟩
  next =>
    split
    next => exact ⟨hlaunch.now_le_flying (hlaunched.symm ▸ hnow), nofun⟩
    next => exact settle_flying (now_lt_flying_land _)

/-- Before everything is handed over, the last look is when the last departure was handed over. -/
theorem Sound.lookedAt_of_handed (h : Sound dispatcher outer handed s)
    (hlanded : ∀ f ∈ s.landed, ∃ call ∈ handed, f.ends ≤ call.start)
    (hle : ∀ call ∈ handed, call.start ≤ t)
    (hlast : handed ≠ [] → ∃ call ∈ handed, call.start = t) : s.LookedAt t where
  landed_le f hf := by
    obtain ⟨call, hcall, hends⟩ := hlanded f hf
    exact hends.trans (hle call hcall)
  le_flying f hf := by
    obtain ⟨made, hmade, -⟩ := h.mem_flights.1 (List.mem_append_right _ hf)
    obtain ⟨call, hcall, hstart⟩ := hlast (List.ne_nil_of_mem (h.calls_prefix.subset hmade))
    exact hstart ▸ h.start_le_ends call hcall f hf

end Concurrent.State

namespace Replay

/-! ## Whole replays -/

/-- When a replay looked for the last time for dispatches that had ended: at its end if everything
was dispatched by then, and otherwise when the last of the departures was. -/
def lastLook (ds : List Departure) (o : Outcome) : Time :=
  if o.dispatched < ds.length then wakeAt ds (o.dispatched - 1) else o.elapsed

/-- What the log of a concurrent replay tells about panics. -/
structure PanicsLogged (dispatcher : Dispatcher) (ds : List Departure) (r : Logged Finished) :
    Prop where
  calls_prefix : r.value.calls <+: ds.map Departure.onTime
  panicsBefore_le :
    dispatcher.panicsBefore (lastLook ds r.value.outcome) r.value.calls ≤ r.log.count .panicked
  le_panicsBy :
    r.log.count .panicked ≤ dispatcher.panicsBy (lastLook ds r.value.outcome) r.value.calls
  count_eq_of_open : r.value.outcome.cancelled = false →
    r.log.count .panicked = (ds.map Departure.onTime).countP dispatcher.panics

variable {scale : Double} {dispatcher : Dispatcher} {outer : Option Time} {ds : List Departure}
  {handed : List Call}

theorem wakeAt_mono (hds : ds.Pairwise fun a b => a.deadline ≤ b.deadline) {i j : Nat}
    (hij : i ≤ j) (hj : j < ds.length) : wakeAt ds i ≤ wakeAt ds j := by
  rcases hij.eq_or_lt with rfl | hlt
  · exact le_rfl
  · rw [wakeAt, wakeAt, deadlineAt, deadlineAt, List.getElem?_eq_getElem (hlt.trans hj),
      List.getElem?_eq_getElem hj]
    exact Time.wake_mono (List.pairwise_iff_getElem.1 hds i j (hlt.trans hj) hj hlt)

theorem start_of_onTime {i : Nat} {call : Call} (h : (ds.map Departure.onTime)[i]? = some call) :
    call.start = wakeAt ds i := by
  rw [List.getElem?_map, Option.map_eq_some_iff] at h
  obtain ⟨d, hd, rfl⟩ := h
  rw [wakeAt, deadlineAt, hd]
  rfl

/-- The last of the first calls starts last. -/
theorem start_le_wakeAt (hds : ds.Pairwise fun a b => a.deadline ≤ b.deadline)
    (hhanded : handed <+: ds.map Departure.onTime) :
    (∀ call ∈ handed, call.start ≤ wakeAt ds (handed.length - 1)) ∧
      (handed ≠ [] → ∃ call ∈ handed, call.start = wakeAt ds (handed.length - 1)) := by
  have hlength : handed.length ≤ ds.length := by simpa using hhanded.length_le
  have hstart : ∀ (i : Nat) (h : i < handed.length), handed[i].start = wakeAt ds i :=
    fun i h => start_of_onTime (List.prefix_iff_getElem?.1 hhanded i h)
  constructor
  · intro call hcall
    obtain ⟨i, hi, rfl⟩ := List.mem_iff_getElem.1 hcall
    rw [hstart i hi]
    exact wakeAt_mono hds (by omega) (by omega)
  · intro hne
    have hpos := List.length_pos_iff.2 hne
    have hlast : handed.length - 1 < handed.length := Nat.sub_lt hpos one_pos
    exact ⟨_, List.getElem_mem hlast, hstart _ hlast⟩

/-- The state that a concurrent replay leaves was looked at for the last time when everything was
dispatched, or when the last departure was. -/
theorem lookedAt_run (dispatcher : Dispatcher) (total : Nat) (outer : Option Time)
    (hds : ds.Pairwise fun a b => a.deadline ≤ b.deadline) :
    let s := (Concurrent.run dispatcher total outer ds).1
    (∃ handed, s.Sound dispatcher outer handed) ∧
      s.LookedAt (if s.course.dispatched < ds.length then wakeAt ds (s.course.dispatched - 1)
        else s.course.now) ∧
      ((Concurrent.run dispatcher total outer ds).2 = false → s.flying = []) := by
  have htable : timetable Call.start 0 ds = ds.map Departure.onTime :=
    plan_concurrent_eq dispatcher hds
  rcases Concurrent.State.handOverAll_ended total ds (Concurrent.State.sound_start dispatcher outer)
    htable (fun h => absurd rfl h) (by simp [Concurrent.State.start]) with
    ⟨s, handed, hrun, hsound, hended, hlt, hlanded⟩ | ⟨s, hrun, hsound, hnow⟩
  · obtain ⟨hle, hlast⟩ := start_le_wakeAt hds hended.handed_prefix
    rw [List.length_map, ← hsound.dispatched_eq] at hlt
    rw [← hsound.dispatched_eq] at hle hlast
    rw [Concurrent.run, hrun]
    refine ⟨⟨handed, hsound⟩, ?_, fun hopen => Bool.noConfusion hopen⟩
    rw [if_pos hlt]
    exact hsound.lookedAt_of_handed hlanded hle hlast
  · obtain ⟨hdrain, -⟩ := hsound.drain hnow
    obtain ⟨hflying, hopen⟩ := hsound.drain_flying hnow
    have hall : ¬ (s.drain dispatcher).1.course.dispatched < ds.length := by
      rw [hdrain.dispatched_eq, List.length_map]
      exact lt_irrefl _
    rw [Concurrent.run, hrun]
    refine ⟨⟨_, hdrain⟩, ?_, hopen⟩
    rw [if_neg hall]
    exact hdrain.lookedAt_now hflying

theorem panicsLogged_runConcurrent (hdiscreet : dispatcher.Discreet) (outer : Option Time)
    (hds : ds.Pairwise fun a b => a.deadline ≤ b.deadline) :
    PanicsLogged dispatcher ds (runConcurrent dispatcher outer ds) := by
  obtain ⟨⟨handed, hsound⟩, hlooked, hopen⟩ := lookedAt_run dispatcher ds.length outer hds
  have hcount : (runConcurrent dispatcher outer ds).log.count .panicked =
      (Concurrent.run dispatcher ds.length outer ds).1.course.log.count .panicked := by
    simp only [runConcurrent, finish, List.count_append]
    split <;> simp
  have hchronicle := chronicle_runConcurrent dispatcher outer ds
  rw [plan_concurrent_eq dispatcher hds] at hchronicle
  obtain ⟨hlow, hhigh⟩ := hlooked.count_log hsound hdiscreet
  rw [← hcount] at hlow hhigh
  refine ⟨hchronicle.calls_prefix_table, hlow, hhigh, fun hc => ?_⟩
  rw [← hchronicle.calls_eq_table hc]
  exact hcount.trans (hsound.count_log_of_landed hdiscreet (hopen hc))

/-- Two events, a second apart. -/
def sampleEventPair : List Event := [sampleEvent 0, sampleEvent 1]

/-- Dispatches that panic after a tenth of a second. -/
def panicScript : Script :=
  { mode := .blocking
    steps :=
      [{ Script.idle with
          delay := 100000000
          panics := true }]
    cancelOn := none }

/-- The log of every concurrent replay tells of the panics up to the last look, and of all of them
if the replay is not cancelled. -/
theorem panics_logged (scale : Double) (events : List Event) (hscale : validateScale scale = .ok ())
    (hevents : Event.validate events = .ok ()) :
    (∃ ds, ds.length = events.length ∧
        (∀ (i : Nat) (d : Departure), ds[i]? = some d → d.IsFor scale events i) ∧
        ∀ dispatcher cancelAt, dispatcher.Discreet → ∃ r,
          run scale .concurrent dispatcher cancelAt events = .ok r ∧
          PanicsLogged dispatcher ds r) ∨
      ∃ i event, events[i]? = some event ∧ ¬ Departure.InRange (event.offset * scale) ∧
        ∀ dispatcher cancelAt, run scale .concurrent dispatcher cancelAt events =
          .error ⟨.trace (.events (.outOfRange i (event.offset * scale))), [], []⟩ := by
  rcases departures_cases hscale hevents with ⟨ds, hds⟩ | ⟨i, event, hi, hrange, hds⟩
  · refine .inl ⟨ds, length_departures hds, fun _ _ => isFor_of_departures hds, ?_⟩
    intro dispatcher cancelAt hdiscreet
    exact ⟨_, run_eq_ok hds .concurrent dispatcher cancelAt,
      panicsLogged_runConcurrent hdiscreet cancelAt (pairwise_deadline_departures hds)⟩
  · exact .inr ⟨i, event, hi, hrange, run_eq_error hds .concurrent⟩

/-- The first dispatch panics, which is noticed before the second one, during which the replay is
cancelled. -/
theorem panics_logged_sample :
    validateScale 1 = .ok () ∧ Event.validate sampleEventPair = .ok () ∧
      panicScript.dispatcher.Discreet ∧
      ∃ ds r, ds.length = 2 ∧
        run 1 .concurrent panicScript.dispatcher (some 1050000000) sampleEventPair = .ok r ∧
        PanicsLogged panicScript.dispatcher ds r ∧ r.log.count .panicked = 1 := by
  have hscale : validateScale 1 = .ok () := by decide +kernel
  have hevents : Event.validate sampleEventPair = .ok () := by decide +kernel
  have hcount : (run 1 .concurrent panicScript.dispatcher (some 1050000000)
      sampleEventPair).toOption.any (decide <| ·.log.count .panicked = 1) = true := by
    decide +kernel
  have hdiscreet := panicScript.discreet_dispatcher
  refine ⟨hscale, hevents, hdiscreet, ?_⟩
  rcases panics_logged 1 sampleEventPair hscale hevents with
    ⟨ds, hlength, -, hruns⟩ | ⟨i, event, -, -, herror⟩
  · obtain ⟨r, hr, hlogged⟩ := hruns _ (some 1050000000) hdiscreet
    rw [hr] at hcount
    exact ⟨ds, r, hlength, hr, hlogged, of_decide_eq_true hcount⟩
  · rw [herror] at hcount
    cases hcount

/-- The first of two dispatches panics, the replay is cancelled before the second one, and the log
tells nothing of the panic. -/
theorem panic_untold :
    ∃ r, run 1 .concurrent panicScript.dispatcher (some 500000000) sampleEventPair = .ok r ∧
      panicScript.dispatcher.panicsBefore r.value.outcome.elapsed r.value.calls = 1 ∧
      r.log.count .panicked = 0 := by
  have hlost : (run 1 .concurrent panicScript.dispatcher (some 500000000)
      sampleEventPair).toOption.any (fun r =>
        decide (panicScript.dispatcher.panicsBefore r.value.outcome.elapsed r.value.calls = 1 ∧
          r.log.count .panicked = 0)) = true := by decide +kernel
  cases hrun : run 1 .concurrent panicScript.dispatcher (some 500000000) sampleEventPair with
  | error fault =>
    rw [hrun] at hlost
    cases hlost
  | ok r =>
    rw [hrun] at hlost
    exact ⟨r, rfl, of_decide_eq_true hlost⟩

end Replay

end LoadReplay
