import LoadReplay.Proofs.Replay.Punctuality

/-!
# The peak of concurrent replays

A concurrent replay counts the dispatches in flight just after it hands one over, and it notices
those that have ended just before. `Dispatcher.peak` tells the greatest of these counts by the
calls alone: a call is in flight from its start to its end, whether that is a panic or not, and a
call that takes no time is in flight just when it starts. Between two hand-overs flights only end,
so no greater number is in flight at any other time (`Dispatcher.isGreatest_peak`), and
`Replay.inflight_peak` says that every replay reports this number.
-/

namespace LoadReplay

/-! ## Whole milliseconds -/

theorem Time.wake_le_iff {t u : Time} (ht : Duration.millisecond ∣ t) : wake u ≤ t ↔ u ≤ t :=
  ⟨(le_wake u).trans, wake_le_of_dvd ht⟩

theorem Time.dvd_due {now : Time} (h : Duration.millisecond ∣ now) (deadline : Time) :
    Duration.millisecond ∣ due now deadline := by
  unfold due
  split
  · exact dvd_wake deadline
  · exact h

/-- On whole milliseconds a call has ended when its delay is over. -/
theorem Dispatcher.ends_le_iff (dispatcher : Dispatcher) {call : Call} {t : Time}
    (hstart : Duration.millisecond ∣ call.start) (ht : Duration.millisecond ∣ t) :
    dispatcher.ends call ≤ t ↔ call.start + (dispatcher call.departure).delay ≤ t := by
  rw [dispatcher.ends_eq_add_wake hstart, ← Time.wake_add_of_dvd hstart, Time.wake_le_iff ht]

/-! ## Calls in flight -/

namespace Dispatcher

variable (dispatcher : Dispatcher)

/-- Whether a call is in flight at a time: it starts just then, or it started before and has not
ended. -/
def inFlightAt (t : Time) (call : Call) : Bool :=
  decide (call.start = t ∨ call.start ≤ t ∧ t < call.start + (dispatcher call.departure).delay)

/-- How many of the calls are in flight at a time. -/
def inFlight (calls : List Call) (t : Time) : Nat := calls.countP (dispatcher.inFlightAt t)

/-- The greatest number of calls that are in flight when one of them starts, out of those up to
it. -/
def peak (calls : List Call) : Nat :=
  (Finset.range calls.length).sup fun i =>
    dispatcher.inFlight (calls.take (i + 1)) ((calls[i]?.map (·.start)).getD 0)

variable {dispatcher} {calls : List Call} {call : Call} {t : Time}

theorem inFlightAt_start (call : Call) : dispatcher.inFlightAt call.start call = true :=
  decide_eq_true (.inl rfl)

theorem start_le_of_inFlightAt (h : dispatcher.inFlightAt t call = true) : call.start ≤ t :=
  (of_decide_eq_true h).elim le_of_eq And.left

/-- A call that is in flight was so at any time since its start. -/
theorem inFlightAt_of_le {u : Time} (h : dispatcher.inFlightAt t call = true)
    (hstart : call.start ≤ u) (hu : u ≤ t) : dispatcher.inFlightAt u call = true := by
  refine decide_eq_true ?_
  rcases of_decide_eq_true h with rfl | ⟨-, hends⟩
  · exact .inl (le_antisymm hstart hu)
  · exact .inr ⟨hstart, hu.trans_lt hends⟩

theorem inFlight_append (calls others : List Call) (t : Time) :
    dispatcher.inFlight (calls ++ others) t =
      dispatcher.inFlight calls t + dispatcher.inFlight others t :=
  List.countP_append

theorem inFlight_le_append (calls others : List Call) (t : Time) :
    dispatcher.inFlight calls t ≤ dispatcher.inFlight (calls ++ others) t :=
  (Nat.le_add_right _ _).trans_eq (inFlight_append calls others t).symm

theorem peak_nil : dispatcher.peak [] = 0 := rfl

theorem peak_concat (calls : List Call) (call : Call) :
    dispatcher.peak (calls ++ [call]) =
      max (dispatcher.peak calls) (dispatcher.inFlight (calls ++ [call]) call.start) := by
  have hstart : ((calls ++ [call])[calls.length]?.map (·.start)).getD 0 = call.start := by simp
  have hall : (calls ++ [call]).take (calls.length + 1) = calls ++ [call] :=
    List.take_of_length_le (by simp)
  rw [peak, List.length_append, List.length_singleton, Finset.range_add_one, Finset.sup_insert,
    hstart, hall, max_comm]
  refine congrArg (max · _) (Finset.sup_congr rfl fun i hi => ?_)
  have hlt := Finset.mem_range.1 hi
  rw [List.getElem?_append_left hlt, List.take_append_of_le_length hlt]

/-- Between the starts of calls no more are in flight than at the last start. -/
theorem inFlight_le_peak (hcalls : calls.Pairwise fun a b => a.start ≤ b.start) (t : Time) :
    dispatcher.inFlight calls t ≤ dispatcher.peak calls := by
  induction calls using List.reverseRecOn with
  | nil => exact le_rfl
  | append_singleton calls call ih =>
    obtain ⟨hcalls, -, hlast⟩ := List.pairwise_append.1 hcalls
    rw [peak_concat]
    by_cases hstart : call.start ≤ t
    · refine le_max_of_le_right (List.countP_mono_left fun other hother h => ?_)
      refine inFlightAt_of_le h ?_ hstart
      rcases List.mem_append.1 hother with hother | hother
      · exact hlast other hother call (List.mem_singleton_self call)
      · exact (List.mem_singleton.1 hother ▸ le_rfl)
    · have hnot : dispatcher.inFlight [call] t = 0 :=
        List.countP_eq_zero.2 fun other hother h =>
          hstart (List.mem_singleton.1 hother ▸ start_le_of_inFlightAt h)
      rw [inFlight_append, hnot]
      exact le_max_of_le_left (ih hcalls)

/-- The peak is reached at the start of a call. -/
theorem exists_inFlight_eq_peak (dispatcher : Dispatcher)
    (hcalls : calls.Pairwise fun a b => a.start ≤ b.start) (hne : calls ≠ []) :
    ∃ call ∈ calls, dispatcher.inFlight calls call.start = dispatcher.peak calls := by
  induction calls using List.reverseRecOn with
  | nil => exact absurd rfl hne
  | append_singleton calls call ih =>
    have hmem : call ∈ calls ++ [call] := List.mem_append_right _ (List.mem_singleton_self call)
    rcases le_total (dispatcher.peak calls)
      (dispatcher.inFlight (calls ++ [call]) call.start) with hle | hle
    · exact ⟨call, hmem, by rw [peak_concat, max_eq_right hle]⟩
    · -- an earlier call has reached the peak, and the last one does not make it greater
      have hearly : calls ≠ [] := by
        rintro rfl
        have hone : dispatcher.inFlight ([] ++ [call]) call.start = 1 :=
          List.countP_singleton.trans (if_pos (inFlightAt_start call))
        rw [hone, peak_nil] at hle
        exact absurd hle (by decide)
      obtain ⟨other, hother, heq⟩ := ih (List.pairwise_append.1 hcalls).1 hearly
      refine ⟨other, List.mem_append_left _ hother,
        le_antisymm (inFlight_le_peak hcalls _) ?_⟩
      rw [peak_concat, max_eq_left hle, ← heq]
      exact inFlight_le_append calls [call] other.start

/-- The peak is the greatest number of calls in flight at any time up to one by which all of them
have started. -/
theorem isGreatest_peak (dispatcher : Dispatcher)
    (hcalls : calls.Pairwise fun a b => a.start ≤ b.start)
    (ht : ∀ call ∈ calls, call.start ≤ t) :
    IsGreatest {n | ∃ u ≤ t, n = dispatcher.inFlight calls u} (dispatcher.peak calls) := by
  constructor
  · rcases eq_or_ne calls [] with rfl | hne
    · exact ⟨0, Nat.zero_le t, rfl⟩
    · obtain ⟨call, hcall, heq⟩ := exists_inFlight_eq_peak dispatcher hcalls hne
      exact ⟨call.start, ht call hcall, heq.symm⟩
  · rintro n ⟨u, -, rfl⟩
    exact inFlight_le_peak hcalls u

end Dispatcher

/-! ## The count of a replay -/

namespace Concurrent

namespace State

variable {dispatcher : Dispatcher} {outer : Option Time} {handed handed' : List Call} {s : State}

/-- The calls that were handed over are told by the state. -/
theorem Sound.unique (h : Sound dispatcher outer handed s) (h' : Sound dispatcher outer handed' s) :
    handed = handed' :=
  h.handed_eq.trans h'.handed_eq.symm

theorem maxInflight_launchAll (dispatcher : Dispatcher) (landing : Bool) (s : State) :
    (launchAll dispatcher landing s).maxInflight = s.maxInflight :=
  launchAll_induction (motive := fun t => t.maxInflight = s.maxInflight)
    (fun t h => turn_induction (motive := fun u => u.maxInflight = s.maxInflight)
      (fun _ _ h => h) t h)
    (fun _ _ h => h) s rfl

/-- What a wait does: it ends with the cancellation, at the wake-up of its deadline or at once. -/
theorem wait_cases (dispatcher : Dispatcher) (s : State) (deadline : Time) :
    wait dispatcher s deadline = (s, false) ∨
      (∃ launched t, launchAll dispatcher false s = launched ∧
        wait dispatcher s deadline = (launched.advance t, false)) ∨
      (∃ launched later, launchAll dispatcher false s = launched ∧ s.course.now < deadline ∧
        later = launched.advance (Time.wake deadline) ∧
        wait dispatcher s deadline =
          ({ later with course := later.course.lagging deadline }, true)) ∨
      wait dispatcher s deadline = ({ s with course := s.course.lagging deadline }, true) := by
  by_cases hc : s.course.isCancelled = true
  · exact .inl (by rw [wait, if_pos hc])
  by_cases hlt : s.course.now < deadline
  · generalize hs : launchAll dispatcher false s = launched
    cases hby : launched.course.cancelledBy (Time.wake deadline) with
    | some t =>
      refine .inr (.inl ⟨launched, t, rfl, ?_⟩)
      simp only [wait, if_neg hc, if_pos hlt, hs, hby]
    | none =>
      refine .inr (.inr (.inl ⟨launched, _, rfl, hlt, rfl, ?_⟩))
      simp only [wait, if_neg hc, if_pos hlt, hs, hby]
  · exact .inr (.inr (.inr (by rw [wait, if_neg hc, if_neg hlt])))

theorem maxInflight_advance (s : State) (t : Time) : (s.advance t).maxInflight = s.maxInflight :=
  rfl

theorem calls_advance (s : State) (t : Time) : (s.advance t).course.calls = s.course.calls := rfl

theorem maxInflight_wait (dispatcher : Dispatcher) (s : State) (deadline : Time) :
    (wait dispatcher s deadline).1.maxInflight = s.maxInflight := by
  have hlaunch := maxInflight_launchAll dispatcher false s
  rcases wait_cases dispatcher s deadline with
    h | ⟨launched, t, hs, h⟩ | ⟨launched, later, hs, -, hlater, h⟩ | h
  · rw [h]
  · rw [h, ← hlaunch, hs]
    exact maxInflight_advance launched t
  · rw [h, ← hlaunch, hs]
    exact (congrArg State.maxInflight hlater).trans (maxInflight_advance launched _)
  · rw [h]

theorem maxInflight_foldl_pass (times : List Time) (s : State) :
    (times.foldl (fun s t => (s.advance t).land) s).maxInflight = s.maxInflight :=
  List.foldlRecOn times _ (motive := fun t : State => t.maxInflight = s.maxInflight) rfl
    fun _ h _ _ => h

theorem maxInflight_settle (s : State) : s.settle.1.maxInflight = s.maxInflight := by
  unfold settle
  dsimp only
  split
  · exact maxInflight_foldl_pass _ s
  · exact maxInflight_foldl_pass _ s

theorem maxInflight_drain (dispatcher : Dispatcher) (s : State) :
    (drain dispatcher s).1.maxInflight = s.maxInflight := by
  have hlaunch : (launchAll dispatcher true s.land).maxInflight = s.maxInflight :=
    maxInflight_launchAll dispatcher true s.land
  rw [drain_eq]
  generalize launchAll dispatcher true s.land = s₁ at hlaunch ⊢
  split
  · rfl
  · split
    · exact hlaunch
    · exact (maxInflight_settle _).trans hlaunch

/-- What holds of a replay between two departures: it has counted the calls that were handed over,
and none of those that were made started just now. -/
structure Counted (dispatcher : Dispatcher) (handed : List Call) (s : State) : Prop where
  maxInflight_eq : s.maxInflight = dispatcher.peak handed
  start_lt_now : ∀ call ∈ s.course.calls, call.start < s.course.now
  dvd_now : Duration.millisecond ∣ s.course.now
  dvd_start : ∀ call ∈ handed, Duration.millisecond ∣ call.start

/-- After a wait the calls that were made started before. -/
theorem Sound.start_lt_of_wait (h : Sound dispatcher outer handed s)
    (hstart : ∀ call ∈ s.course.calls, call.start < s.course.now) (deadline : Time)
    (hwait : (State.wait dispatcher s deadline).2 = true) :
    ∀ call ∈ (State.wait dispatcher s deadline).1.course.calls,
      call.start < (State.wait dispatcher s deadline).1.course.now := by
  rcases wait_cases dispatcher s deadline with
    heq | ⟨launched, t, hs, heq⟩ | ⟨launched, later, hs, hlt, hlater, heq⟩ | heq
  · rw [heq] at hwait
    cases hwait
  · rw [heq] at hwait
    cases hwait
  · have hlaunch := h.launchAll false
    have hnow := now_launchAll dispatcher false s
    rw [hs] at hlaunch hnow
    have hcalls : later.course.calls = launched.course.calls := by
      rw [hlater, calls_advance]
    have hlate : s.course.now < later.course.now := by
      rw [hlater, now_advance]
      exact hlt.trans_le (Time.le_wake deadline)
    rw [heq]
    intro call hcall
    have hmem : call ∈ launched.course.calls := hcalls ▸ hcall
    have hle := hlaunch.start_le_now call (hlaunch.calls_prefix.subset hmem)
    exact (hle.trans_eq hnow).trans_lt hlate
  · rw [heq]
    exact hstart

/-- Those of the calls that were made which are in flight are flying, and those that still wait in
the queue start now. -/
theorem Sound.inFlight_eq (h : Sound dispatcher outer handed s)
    (hcounted : Counted dispatcher handed s) :
    dispatcher.inFlight handed s.course.now = s.queue.length + s.land.flying.length := by
  have hqueue : dispatcher.inFlight (s.queue.map fun d => Call.mk d s.course.now) s.course.now =
      s.queue.length := by
    rw [Dispatcher.inFlight, List.countP_eq_length.2, List.length_map]
    intro call hcall
    obtain ⟨d, -, rfl⟩ := List.mem_map.1 hcall
    exact Dispatcher.inFlightAt_start ⟨d, s.course.now⟩
  have hcalls : dispatcher.inFlight s.course.calls s.course.now =
      (s.course.calls.map (flight dispatcher)).countP fun f => !decide (f.ends ≤ s.course.now) := by
    rw [List.countP_map]
    refine List.countP_congr fun call hcall => ?_
    have hlt := hcounted.start_lt_now call hcall
    have hends := dispatcher.ends_le_iff (hcounted.dvd_start call (h.calls_prefix.subset hcall))
      hcounted.dvd_now
    simp only [Dispatcher.inFlightAt, Function.comp_apply, flight, Bool.not_eq_true',
      decide_eq_true_eq, decide_eq_false_iff_not, hends, not_le, hlt.ne, hlt.le, false_or, true_and]
  have hlanded : (s.landed.countP fun f => !decide (f.ends ≤ s.course.now)) = 0 :=
    List.countP_eq_zero.2 fun f hf => by simpa using h.landed_le_now f hf
  rw [h.handed_eq, Dispatcher.inFlight_append, hqueue, hcalls, ← h.flights_perm.countP_eq,
    List.countP_append, hlanded, Nat.zero_add, List.countP_eq_length_filter, Nat.add_comm]
  rfl

/-- Handing a departure over counts it with the calls in flight. -/
theorem Counted.handOver (hcounted : Counted dispatcher handed s)
    (h : Sound dispatcher outer handed s) (total : Nat) (d : Departure) :
    Counted dispatcher (handed ++ [⟨d, s.course.now⟩])
      (State.handOver total { s with course := s.course.lagging d.deadline } d) where
  maxInflight_eq := by
    have hone : dispatcher.inFlight [⟨d, s.course.now⟩] s.course.now = 1 :=
      List.countP_singleton.trans (if_pos (Dispatcher.inFlightAt_start ⟨d, s.course.now⟩))
    rw [Dispatcher.peak_concat, Dispatcher.inFlight_append, hone, h.inFlight_eq hcounted,
      ← hcounted.maxInflight_eq]
    change max s.maxInflight ((s.queue ++ [d]).length + s.land.flying.length) = _
    rw [List.length_append, List.length_singleton, Nat.add_right_comm]
  start_lt_now := hcounted.start_lt_now
  dvd_now := hcounted.dvd_now
  dvd_start := List.forall_mem_append.2
    ⟨hcounted.dvd_start, List.forall_mem_singleton.2 hcounted.dvd_now⟩

theorem handOverAll_counted (total : Nat) (ds : List Departure)
    (h : Sound dispatcher outer handed s) (hcounted : Counted dispatcher handed s) :
    ∃ handed', Sound dispatcher outer handed' (handOverAll dispatcher total s ds).1 ∧
      (handOverAll dispatcher total s ds).1.maxInflight = dispatcher.peak handed' := by
  induction ds generalizing s handed with
  | nil => exact ⟨handed, h, hcounted.maxInflight_eq⟩
  | cons d ds ih =>
    have hmax := maxInflight_wait dispatcher s d.deadline
    have hstart := h.start_lt_of_wait hcounted.start_lt_now d.deadline
    rw [handOverAll]
    rcases h.wait d.deadline with ⟨s', hwait, hs', -⟩ | ⟨s', hwait, hs', hopen, hdue⟩
    · rw [hwait] at hmax ⊢
      exact ⟨handed, hs', hmax.trans hcounted.maxInflight_eq⟩
    · rw [hwait] at hmax hstart ⊢
      refine ih (hs'.handOver hopen total d) (Counted.handOver ?_ hs' total d)
      exact
        { maxInflight_eq := hmax.trans hcounted.maxInflight_eq
          start_lt_now := hstart rfl
          dvd_now := hdue ▸ Time.dvd_due hcounted.dvd_now d.deadline
          dvd_start := hcounted.dvd_start }

end State

/-- A replay reports the peak of the calls that it handed over. -/
theorem run_counted (dispatcher : Dispatcher) (total : Nat) (outer : Option Time)
    (ds : List Departure) :
    ∃ handed, (run dispatcher total outer ds).1.Sound dispatcher outer handed ∧
      (run dispatcher total outer ds).1.maxInflight = dispatcher.peak handed := by
  have hsound := State.sound_start dispatcher outer
  have hcounted : State.Counted dispatcher [] (State.start outer) :=
    { maxInflight_eq := rfl
      start_lt_now := by simp [State.start, Course.start]
      dvd_now := Nat.dvd_zero _
      dvd_start := by simp }
  obtain ⟨handed, hhanded, hmax⟩ := State.handOverAll_counted total ds hsound hcounted
  rcases State.handOverAll_ended total ds hsound rfl (fun h => absurd rfl h)
    (by simp [State.start]) with ⟨s, _, hrun, -⟩ | ⟨s, hrun, hs, hnow⟩
  · rw [hrun] at hhanded hmax
    rw [run, hrun]
    exact ⟨handed, hhanded, hmax⟩
  · rw [hrun] at hhanded hmax
    rw [run, hrun]
    refine ⟨_, (hs.drain hnow).1, (State.maxInflight_drain dispatcher s).trans ?_⟩
    rw [hmax, hhanded.unique hs]

end Concurrent

/-! ## Whole replays -/

namespace Replay

/-- A finished replay that dispatched calls reports the greatest number of them in flight at any
time of the replay. -/
structure PeakReported (dispatcher : Dispatcher) (dispatched : List Call) (f : Finished) :
    Prop where
  calls_prefix : f.calls <+: dispatched
  calls_eq_of_open : f.outcome.cancelled = false → f.calls = dispatched
  maxInflight_eq : f.outcome.maxInflight = dispatcher.peak dispatched
  isGreatest : IsGreatest {n | ∃ t ≤ f.outcome.elapsed, n = dispatcher.inFlight dispatched t}
    f.outcome.maxInflight

variable {scale : Double} {dispatcher : Dispatcher} {ds : List Departure}

theorem peakReported_runConcurrent (dispatcher : Dispatcher) (outer : Option Time)
    (hds : ds.Pairwise fun a b => a.deadline ≤ b.deadline) :
    PeakReported dispatcher
      ((ds.take (runConcurrent dispatcher outer ds).value.outcome.dispatched).map Departure.onTime)
      (runConcurrent dispatcher outer ds).value := by
  have hchronicle := chronicle_runConcurrent dispatcher outer ds
  have hmax : (runConcurrent dispatcher outer ds).value.outcome.maxInflight = dispatcher.peak
      ((plan .concurrent dispatcher ds).take
        (runConcurrent dispatcher outer ds).value.outcome.dispatched) := by
    obtain ⟨handed, hsound, hended⟩ := Concurrent.run_ended dispatcher ds.length outer ds
    obtain ⟨handed', hsound', hmax⟩ := Concurrent.run_counted dispatcher ds.length outer ds
    refine hmax.trans (congrArg dispatcher.peak ?_)
    rw [hsound'.unique hsound, List.prefix_iff_eq_take.1 hended.handed_prefix,
      ← hended.dispatched_eq]
    rfl
  have hplan : (plan .concurrent dispatcher ds).Pairwise fun a b => a.start ≤ b.start :=
    pairwise_start_plan
  have hgreatest := Dispatcher.isGreatest_peak dispatcher
    (hplan.sublist
      (List.take_sublist (runConcurrent dispatcher outer ds).value.outcome.dispatched _))
    hchronicle.start_le_elapsed
  rw [← hmax, plan_concurrent_eq dispatcher hds, ← List.map_take] at hgreatest
  rw [plan_concurrent_eq dispatcher hds] at hchronicle hmax
  rw [← List.map_take] at hmax
  exact
    { calls_prefix := List.map_take ▸ hchronicle.calls_prefix
      calls_eq_of_open := fun hc => (hchronicle.calls_eq_of_open hc).trans List.map_take.symm
      maxInflight_eq := hmax
      isGreatest := hgreatest }

/-- Every concurrent replay reports the peak of the calls that it dispatched, each on time. -/
theorem inflight_peak (scale : Double) (events : List Event) (hscale : validateScale scale = .ok ())
    (hevents : Event.validate events = .ok ()) :
    (∃ ds : List Departure, ds.length = events.length ∧
        (∀ (i : Nat) (d : Departure), ds[i]? = some d → d.IsFor scale events i) ∧
        ∀ dispatcher cancelAt, ∃ r,
          run scale .concurrent dispatcher cancelAt events = .ok r ∧
          PeakReported dispatcher
            ((ds.take r.value.outcome.dispatched).map Departure.onTime) r.value) ∨
      ∃ i event, events[i]? = some event ∧ ¬ Departure.InRange (event.offset * scale) ∧
        ∀ dispatcher cancelAt, run scale .concurrent dispatcher cancelAt events =
          .error ⟨.trace (.events (.outOfRange i (event.offset * scale))), [], []⟩ := by
  rcases departures_cases hscale hevents with ⟨ds, hds⟩ | ⟨i, event, hi, hrange, hds⟩
  · refine .inl ⟨ds, length_departures hds, fun _ _ => isFor_of_departures hds, ?_⟩
    intro dispatcher cancelAt
    exact ⟨_, run_eq_ok hds .concurrent dispatcher cancelAt,
      peakReported_runConcurrent dispatcher cancelAt (pairwise_deadline_departures hds)⟩
  · exact .inr ⟨i, event, hi, hrange, run_eq_error hds .concurrent⟩

/-- Two slow dispatches at once, during which the replay is cancelled in the wait for the third. -/
theorem inflight_peak_sample :
    validateScale (Double.ofNat 2) = .ok () ∧ Event.validate sampleEvents = .ok () ∧
      ∃ (ds : List Departure) (r : Logged Finished), ds.length = 3 ∧
        run (Double.ofNat 2) .concurrent slowScript.dispatcher (some 1000000000) sampleEvents =
          .ok r ∧
        PeakReported slowScript.dispatcher
          ((ds.take r.value.outcome.dispatched).map Departure.onTime) r.value ∧
        r.value.outcome.dispatched = 2 ∧ r.value.outcome.maxInflight = 2 := by
  have hpeak : (run (Double.ofNat 2) .concurrent slowScript.dispatcher (some 1000000000)
      sampleEvents).toOption.any (fun r =>
        decide (r.value.outcome.dispatched = 2 ∧ r.value.outcome.maxInflight = 2)) = true := by
    decide +kernel
  refine ⟨validateScale_two, validate_sampleEvents, ?_⟩
  rcases inflight_peak (Double.ofNat 2) sampleEvents validateScale_two validate_sampleEvents with
    ⟨ds, hlength, -, hruns⟩ | ⟨i, event, -, -, herror⟩
  · obtain ⟨r, hr, hreported⟩ := hruns slowScript.dispatcher (some 1000000000)
    rw [hr] at hpeak
    exact ⟨ds, r, hlength, hr, hreported, of_decide_eq_true hpeak⟩
  · rw [herror] at hpeak
    cases hpeak

end Replay

end LoadReplay
