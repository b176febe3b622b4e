import LoadReplay.Proofs.Event.Accepted
import LoadReplay.Proofs.Replay.Drift

/-!
# The punctuality of concurrent replays

A concurrent replay starts every dispatch when its deadline has come, whatever the others do. The
deadlines of accepted events do not decrease (`Replay.pairwise_deadline_departures`), so no wait
begins after the wake-up that it waits for, and the timetable has a closed form that does not
mention the dispatcher (`timetable_start_eq`). `Replay.concurrent_punctual` says that a replay that
is not cancelled keeps to it and lasts until the last dispatch has ended.
-/

namespace LoadReplay

/-! ## Wake-ups -/

namespace Time

theorem wake_mono {t u : Time} (h : t ≤ u) : wake t ≤ wake u :=
  wake_le_of_dvd (dvd_wake u) (h.trans (le_wake u))

/-- From a whole millisecond on, a wait wakes up as it would from the start. -/
theorem wake_add_of_dvd {t : Time} (h : Duration.millisecond ∣ t) (d : Duration) :
    wake (t + d) = t + wake d := by
  obtain ⟨k, rfl⟩ := h
  simp only [wake, Duration.millisecond]
  lia

theorem wake_zero : wake 0 = 0 := rfl

theorem wake_sub_lt (t : Time) : wake t - t < Duration.millisecond := by
  have hle : wake t ≤ t + (Duration.millisecond - 1) := Nat.div_mul_le_self _ _
  have hlt : Duration.millisecond - 1 < Duration.millisecond := by decide
  exact Nat.sub_lt_left_of_lt_add (le_wake t) (hle.trans_lt (Nat.add_lt_add_left hlt t))

end Time

/-- On whole milliseconds a call ends at the wake-up of its delay. -/
theorem Dispatcher.ends_eq_add_wake (dispatcher : Dispatcher) {call : Call}
    (h : Duration.millisecond ∣ call.start) :
    dispatcher.ends call = call.start + Time.wake (dispatcher call.departure).delay := by
  unfold Dispatcher.ends
  split
  next hzero => rw [hzero, Time.wake_zero, Nat.add_zero]
  next => exact Time.wake_add_of_dvd h _

/-- The call of a departure that starts on time. -/
def Departure.onTime (d : Departure) : Call := ⟨d, Time.wake d.deadline⟩

/-- If the clock stands still during calls and the deadlines do not decrease, then every call starts
on time. -/
theorem timetable_start_eq {now : Time} {ds : List Departure} (hnow : Duration.millisecond ∣ now)
    (hle : ∀ d ∈ ds, now ≤ Time.wake d.deadline)
    (hds : ds.Pairwise fun a b => a.deadline ≤ b.deadline) :
    timetable Call.start now ds = ds.map Departure.onTime := by
  induction ds generalizing now with
  | nil => rfl
  | cons d ds ih =>
    obtain ⟨hd, hds⟩ := List.pairwise_cons.1 hds
    have hdue : Time.due now d.deadline = Time.wake d.deadline := by
      rw [Time.due_eq_max hnow, Nat.max_eq_right (hle d (List.mem_cons_self ..))]
    rw [timetable, List.map_cons, hdue]
    exact congrArg _ (ih (Time.dvd_wake _) (fun e he => Time.wake_mono (hd e he)) hds)

/-! ## Deadlines -/

namespace Replay

variable {scale : Double} {events : List Event} {ds : List Departure}

/-- The deadlines of accepted events do not decrease. -/
theorem pairwise_deadline_departures (h : departures scale events = .ok ds) :
    ds.Pairwise fun a b => a.deadline ≤ b.deadline := by
  obtain ⟨hscale, hevents, -⟩ := departures_eq_ok_iff.1 h
  obtain ⟨hfinite, hpos⟩ := validateScale_eq_ok_iff.1 hscale
  obtain ⟨-, hall, hpair⟩ := Event.validate_eq_ok_iff.1 hevents
  rw [List.pairwise_iff_getElem]
  intro i j hi hj hij
  have hfst := isFor_of_departures h (List.getElem?_eq_getElem hi)
  have hsnd := isFor_of_departures h (List.getElem?_eq_getElem hj)
  have hle : ds[i].event.offset ≤ ds[j].event.offset := by
    obtain ⟨hi', heq⟩ := List.getElem?_eq_some_iff.1 hfst.event_eq
    obtain ⟨hj', heq'⟩ := List.getElem?_eq_some_iff.1 hsnd.event_eq
    have := List.pairwise_iff_getElem.1 hpair i j (by simpa using hi') (by simpa using hj') hij
    simpa only [List.getElem_map, heq, heq'] using this
  have hscaled := Double.mul_le_mul_of_pos
    (hall _ (List.mem_of_getElem? hfst.event_eq)).isFinite_offset
    (hall _ (List.mem_of_getElem? hsnd.event_eq)).isFinite_offset hfinite hpos hle
  rw [← hfst.offset_eq, ← hsnd.offset_eq] at hscaled
  exact Duration.le_of_ofSeconds? hscaled hfst.deadline_eq hsnd.deadline_eq

/-- How a concurrent replay of departures that is not cancelled keeps to their deadlines. -/
structure Punctual (dispatcher : Dispatcher) (ds : List Departure) (f : Finished) : Prop where
  dispatched_eq : f.outcome.dispatched = ds.length
  calls_eq : f.calls = ds.map Departure.onTime
  maxLag_eq : f.outcome.maxLag =
    (Finset.range ds.length).sup fun i => wakeAt ds i - deadlineAt ds i
  maxLag_lt : f.outcome.maxLag < Duration.millisecond
  elapsed_eq : f.outcome.elapsed = (Finset.range ds.length).sup fun i =>
    wakeAt ds i + Time.wake (delayAt dispatcher ds i)
  elapsed_eq_of_dvd : (∀ d ∈ ds, Duration.millisecond ∣ (dispatcher d).delay) →
    f.outcome.elapsed = (Finset.range ds.length).sup fun i =>
      wakeAt ds i + delayAt dispatcher ds i

variable {dispatcher : Dispatcher} {cancelAt : Option Time} {f : Finished}

theorem plan_concurrent_eq (dispatcher : Dispatcher)
    (hds : ds.Pairwise fun a b => a.deadline ≤ b.deadline) :
    plan .concurrent dispatcher ds = ds.map Departure.onTime :=
  timetable_start_eq (Nat.dvd_zero _) (fun _ _ => Nat.zero_le _) hds

/-- The call at an index, once started on time, ends when its delay is over. -/
theorem ends_onTime (dispatcher : Dispatcher) {i : Nat} {d : Departure} (h : ds[i]? = some d) :
    dispatcher.ends d.onTime = wakeAt ds i + Time.wake (delayAt dispatcher ds i) := by
  rw [dispatcher.ends_eq_add_wake (Time.dvd_wake _), wakeAt, deadlineAt, delayAt, h]
  rfl

/-- A replay lasts until the last of its calls has ended. -/
theorem Chronicle.elapsed_eq_sup (hne : ds ≠ [])
    (h : Chronicle .concurrent dispatcher cancelAt (ds.map Departure.onTime) f)
    (hopen : f.outcome.cancelled = false) :
    f.outcome.elapsed = (Finset.range ds.length).sup fun i =>
      wakeAt ds i + Time.wake (delayAt dispatcher ds i) := by
  refine le_antisymm ?_ (Finset.sup_le fun i hi => ?_)
  · obtain ⟨call, hcall, hends⟩ := h.ends_eq_elapsed hopen (by simpa using hne)
    obtain ⟨d, hd, rfl⟩ := List.mem_map.1 hcall
    obtain ⟨i, hi⟩ := List.getElem?_of_mem hd
    rw [← hends, ends_onTime dispatcher hi]
    exact Finset.le_sup (f := fun i => wakeAt ds i + Time.wake (delayAt dispatcher ds i))
      (Finset.mem_range.2 (List.getElem?_eq_some_iff.1 hi).1)
  · have hd := List.getElem?_eq_getElem (Finset.mem_range.1 hi)
    rw [← ends_onTime dispatcher hd]
    exact h.ends_le_elapsed hopen _ (List.mem_map_of_mem (List.mem_of_getElem? hd))

theorem Chronicle.punctual (hne : ds ≠ [])
    (h : Chronicle .concurrent dispatcher cancelAt (ds.map Departure.onTime) f)
    (hopen : f.outcome.cancelled = false) : Punctual dispatcher ds f := by
  have hlag : f.outcome.maxLag =
      (Finset.range ds.length).sup fun i => wakeAt ds i - deadlineAt ds i := by
    rw [h.maxLag_eq, h.dispatched_eq hopen, List.take_length, greatestLag_eq_sup, List.length_map]
    refine Finset.sup_congr rfl fun i hi => ?_
    rw [List.getElem?_map, wakeAt, deadlineAt, List.getElem?_eq_getElem (Finset.mem_range.1 hi)]
    rfl
  have helapsed := h.elapsed_eq_sup hne hopen
  refine
    { dispatched_eq := (h.dispatched_eq hopen).trans (List.length_map ..)
      calls_eq := h.calls_eq_table hopen
      maxLag_eq := hlag
      maxLag_lt := ?_
      elapsed_eq := helapsed
      elapsed_eq_of_dvd := fun hdelay => ?_ }
  · rw [hlag, Finset.sup_lt_iff (by decide)]
    exact fun i _ => Time.wake_sub_lt (deadlineAt ds i)
  · rw [helapsed]
    refine Finset.sup_congr rfl fun i hi => ?_
    have hd := List.getElem?_eq_getElem (Finset.mem_range.1 hi)
    have hdvd : Duration.millisecond ∣ delayAt dispatcher ds i := by
      rw [delayAt, hd]
      exact hdelay _ (List.mem_of_getElem? hd)
    rw [Time.wake_of_dvd hdvd]

/-- A concurrent replay that is not cancelled starts every dispatch on time, and its calls and lags
do not depend on what the dispatches do. It lasts until the last of them has ended. -/
theorem concurrent_punctual (scale : Double) (events : List Event)
    (hscale : validateScale scale = .ok ()) (hevents : Event.validate events = .ok ()) :
    (∃ ds, ds.length = events.length ∧
        (∀ (i : Nat) (d : Departure), ds[i]? = some d → d.IsFor scale events i) ∧
        ds.Pairwise (fun a b => a.deadline ≤ b.deadline) ∧
        (∀ dispatcher cancelAt, ∃ r,
          run scale .concurrent dispatcher cancelAt events = .ok r ∧
          (r.value.outcome.cancelled = false → Punctual dispatcher ds r.value)) ∧
        ∀ dispatcher cancelAt r dispatcher' cancelAt' r',
          run scale .concurrent dispatcher cancelAt events = .ok r →
          run scale .concurrent dispatcher' cancelAt' events = .ok r' →
          r.value.outcome.cancelled = false → r'.value.outcome.cancelled = false →
          r.value.calls = r'.value.calls ∧
            r.value.outcome.maxLag = r'.value.outcome.maxLag) ∨
      ∃ i event, events[i]? = some event ∧ ¬ Departure.InRange (event.offset * scale) ∧
        ∀ dispatcher cancelAt, run scale .concurrent dispatcher cancelAt events =
          .error ⟨.trace (.events (.outOfRange i (event.offset * scale))), [], []⟩ := by
  rcases departures_cases hscale hevents with ⟨ds, hds⟩ | ⟨i, event, hi, hrange, hds⟩
  · have hpair := pairwise_deadline_departures hds
    have hrun := run_eq_ok hds .concurrent
    have hpunctual : ∀ dispatcher cancelAt r,
        run scale .concurrent dispatcher cancelAt events = .ok r →
        r.value.outcome.cancelled = false → Punctual dispatcher ds r.value := by
      intro dispatcher cancelAt r hr hopen
      have h := chronicle .concurrent dispatcher cancelAt ds
      rw [plan_concurrent_eq dispatcher hpair] at h
      rw [hrun, Except.ok.injEq] at hr
      subst hr
      exact h.punctual (ne_nil_of_departures hds hevents) hopen
    refine .inl ⟨ds, length_departures hds, fun _ _ => isFor_of_departures hds, hpair,
      fun dispatcher cancelAt => ⟨_, hrun .., hpunctual _ _ _ (hrun ..)⟩, ?_⟩
    intro dispatcher cancelAt r dispatcher' cancelAt' r' hr hr' hopen hopen'
    have h := hpunctual dispatcher cancelAt r hr hopen
    have h' := hpunctual dispatcher' cancelAt' r' hr' hopen'
    exact ⟨h.calls_eq.trans h'.calls_eq.symm, h.maxLag_eq.trans h'.maxLag_eq.symm⟩
  · exact .inr ⟨i, event, hi, hrange, run_eq_error hds .concurrent⟩

/-- Dispatches that panic start when slow ones do. -/
theorem concurrent_punctual_sample :
    validateScale (Double.ofNat 2) = .ok () ∧ Event.validate sampleEvents = .ok () ∧
      ∃ ds r r', ds.length = 3 ∧
        run (Double.ofNat 2) .concurrent (sampleScript none).dispatcher (some 3000000000)
          sampleEvents = .ok r ∧
        run (Double.ofNat 2) .concurrent slowScript.dispatcher none sampleEvents = .ok r' ∧
        Punctual (sampleScript none).dispatcher ds r.value ∧
        r.value.calls = r'.value.calls := by
  have hopen : (run (Double.ofNat 2) .concurrent (sampleScript none).dispatcher
      (some 3000000000) sampleEvents).toOption.any (!·.value.outcome.cancelled) = true := by
    decide +kernel
  have hopen' : (run (Double.ofNat 2) .concurrent slowScript.dispatcher none
      sampleEvents).toOption.any (!·.value.outcome.cancelled) = true := by
    decide +kernel
  refine ⟨validateScale_two, validate_sampleEvents, ?_⟩
  rcases concurrent_punctual (Double.ofNat 2) sampleEvents validateScale_two
    validate_sampleEvents with ⟨ds, hlength, -, -, hruns, hsame⟩ | ⟨i, event, -, -, herror⟩
  · obtain ⟨r, hr, hpunctual⟩ := hruns (sampleScript none).dispatcher (some 3000000000)
    obtain ⟨r', hr', -⟩ := hruns slowScript.dispatcher none
    rw [hr] at hopen
    rw [hr'] at hopen'
    have hr_open := Bool.not_eq_true' _ ▸ hopen
    have hr_open' := Bool.not_eq_true' _ ▸ hopen'
    exact ⟨ds, r, r', hlength, hr, hr', hpunctual hr_open,
      (hsame _ _ _ _ _ _ hr hr' hr_open hr_open').1⟩
  · rw [herror] at hopen
    cases hopen

end Replay

end LoadReplay
