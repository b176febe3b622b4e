import LoadReplay.Proofs.Replay.Concurrent
import LoadReplay.Proofs.Replay.Departures
import LoadReplay.Proofs.Replay.Sequential

/-!
# Chronicles

What a finished replay leaves behind, in both pacings, told by its timetable: the events dispatched
are the first ones of the timetable, the calls are those of the events dispatched except where one
of them cancelled the replay before others could start, the replay lasted until its end or its
cancellation, and the records are those of the calls that had ended by then. `Replay.chronicle`
proves it for every dispatcher and every cancellation, from the loops of the two pacings.
-/

namespace LoadReplay.Replay

/-- The calls that departures are due to: those of a replay that is not cancelled. -/
def plan (pacing : Pacing) (dispatcher : Dispatcher) (ds : List Departure) : List Call :=
  timetable (pacing.after dispatcher) 0 ds

section

variable {pacing : Pacing} {dispatcher : Dispatcher} {ds : List Departure}

theorem map_departure_plan : (plan pacing dispatcher ds).map (·.departure) = ds :=
  map_departure_timetable ds

theorem length_plan : (plan pacing dispatcher ds).length = ds.length := length_timetable ds

theorem plan_ne_nil (h : ds ≠ []) : plan pacing dispatcher ds ≠ [] := by
  rw [← List.length_pos_iff, length_plan]
  exact List.length_pos_iff.2 h

theorem pairwise_start_plan : (plan pacing dispatcher ds).Pairwise fun a b => a.start ≤ b.start :=
  pairwise_start_timetable (pacing.start_le_after dispatcher) ds

theorem deadline_le_of_mem_plan {call : Call} (h : call ∈ plan pacing dispatcher ds) :
    call.departure.deadline ≤ call.start :=
  deadline_le_of_mem_timetable h

/-- The calls are due for the departures one by one. -/
theorem getElem?_departure_of_plan {i : Nat} {call : Call}
    (h : (plan pacing dispatcher ds)[i]? = some call) : ds[i]? = some call.departure := by
  have hget : ((plan pacing dispatcher ds).map (·.departure))[i]? = ds[i]? := by
    rw [map_departure_plan]
  rw [← hget, List.getElem?_map, h, Option.map_some]

theorem pairwise_index_plan (h : ds.Pairwise fun a b => a.index < b.index) :
    (plan pacing dispatcher ds).Pairwise fun a b => a.departure.index < b.departure.index := by
  have hmap : ((plan pacing dispatcher ds).map (·.departure)).Pairwise
      fun a b => a.index < b.index := map_departure_plan.symm ▸ h
  rwa [List.pairwise_map] at hmap

end

/-- Dispatches departures with a pacing. -/
def runPaced (pacing : Pacing) (dispatcher : Dispatcher) (cancelAt : Option Time)
    (ds : List Departure) : Logged Finished :=
  match pacing with
  | .sequential => runSequential dispatcher cancelAt ds
  | .concurrent => runConcurrent dispatcher cancelAt ds

/-- What a finished replay left behind whose calls were due as `table` lists them. -/
structure Chronicle (pacing : Pacing) (dispatcher : Dispatcher) (outer : Option Time)
    (table : List Call) (f : Finished) : Prop where
  total_eq : f.outcome.total = table.length
  dispatched_le : f.outcome.dispatched ≤ table.length
  calls_prefix : f.calls <+: table.take f.outcome.dispatched
  calls_eq_of_sequential : pacing = .sequential → f.calls = table.take f.outcome.dispatched
  calls_eq_of_open : f.outcome.cancelled = false → f.calls = table.take f.outcome.dispatched
  calls_eq_of_quiet : (∀ call ∈ f.calls, (dispatcher call.departure).cancels = false) →
    f.calls = table.take f.outcome.dispatched
  maxLag_eq : f.outcome.maxLag = greatestLag (table.take f.outcome.dispatched)
  start_le_elapsed : ∀ call ∈ table.take f.outcome.dispatched, call.start ≤ f.outcome.elapsed
  start_lt_outer : ∀ call ∈ table.take f.outcome.dispatched, ∀ t ∈ outer, call.start < t
  elapsed_le_outer : ∀ t ∈ outer, f.outcome.elapsed ≤ t
  elapsed_le_of_cancels : ∀ call ∈ f.calls, (dispatcher call.departure).cancels = true →
    f.outcome.elapsed ≤ call.start
  cancel_source : f.outcome.cancelled = true → outer = some f.outcome.elapsed ∨
    ∃ call ∈ f.calls, (dispatcher call.departure).cancels = true ∧
      call.start = f.outcome.elapsed
  elapsed_le_start : f.outcome.cancelled = true →
    ∀ call ∈ table.drop f.outcome.dispatched, f.outcome.elapsed ≤ call.start
  elapsed_le_ends : f.outcome.cancelled = true → table ≠ [] →
    ∃ call ∈ table, f.outcome.elapsed ≤ dispatcher.ends call
  dispatched_eq : f.outcome.cancelled = false → f.outcome.dispatched = table.length
  ends_le_elapsed : f.outcome.cancelled = false →
    ∀ call ∈ table, dispatcher.ends call ≤ f.outcome.elapsed
  ends_lt_outer : f.outcome.cancelled = false →
    ∀ call ∈ table, ∀ t ∈ outer, dispatcher.ends call < t
  ends_eq_elapsed : f.outcome.cancelled = false → table ≠ [] →
    ∃ call ∈ table, dispatcher.ends call = f.outcome.elapsed
  records_eq : dispatcher.Faithful →
    (table.Pairwise fun a b => a.departure.index < b.departure.index) →
      f.outcome.records = dispatcher.recordsOf (f.calls.filter fun call =>
        pacing.counts outer f.outcome.elapsed (dispatcher.ends call))
  maxInflight_eq : pacing = .sequential → f.outcome.maxInflight = min f.outcome.dispatched 1

variable {pacing : Pacing} {dispatcher : Dispatcher} {outer : Option Time}
  {table handed : List Call} {c : Course} {cancelled : Bool}

/-- The end of a course is told by its chronicle. -/
theorem chronicle_of_ended {records : List Measurement} {maxInflight : Nat}
    (h : c.Ended dispatcher outer table handed cancelled)
    (hsequential : pacing = .sequential →
      c.calls = handed ∧ maxInflight = min c.dispatched 1)
    (hrecords : dispatcher.Faithful →
      (table.Pairwise fun a b => a.departure.index < b.departure.index) →
        records = dispatcher.recordsOf (c.calls.filter fun call =>
          pacing.counts outer c.now (dispatcher.ends call))) :
    Chronicle pacing dispatcher outer table
      (finish table.length c records maxInflight cancelled).value := by
  have htake : table.take c.dispatched = handed := by
    rw [h.dispatched_eq]
    exact (List.prefix_iff_eq_take.1 h.handed_prefix).symm
  have hquiet : (∀ call ∈ c.calls, (dispatcher call.departure).cancels = false) →
      c.calls = handed := by
    intro hquiet
    refine h.calls_eq_or.resolve_right ?_
    rintro ⟨hc, held, hheld, hstart⟩
    obtain ⟨call, hcall, hcancels⟩ :=
      h.cancels_of_held (h.isCancelled hc) hheld hstart
    rw [hquiet call hcall] at hcancels
    cases hcancels
  have hopen : cancelled = false → c.calls = handed := by
    rintro rfl
    exact h.calls_eq_or.resolve_right fun hc => nomatch hc.1
  have houter : ∀ t ∈ outer, c.now ≤ t := by
    intro t ht
    obtain ⟨u, hu, hut⟩ := h.cancel_le_outer t ht
    exact (h.now_le_cancel u hu).trans hut
  exact
    { total_eq := rfl
      dispatched_le := h.dispatched_eq.trans_le h.handed_prefix.length_le
      calls_prefix := htake ▸ h.calls_prefix
      calls_eq_of_sequential := fun hp => htake ▸ (hsequential hp).1
      calls_eq_of_open := fun hc => htake ▸ hopen hc
      calls_eq_of_quiet := fun hq => htake ▸ hquiet hq
      maxLag_eq := htake ▸ h.maxLag_eq
      start_le_elapsed := htake ▸ h.start_le_now
      start_lt_outer := htake ▸ h.start_lt_outer
      elapsed_le_outer := houter
      elapsed_le_of_cancels := fun call hcall hcancels =>
        h.now_le_cancel _ (h.cancel_of_call call hcall hcancels)
      cancel_source := fun hc => h.cancel_source _ (h.cancelAt_eq (h.isCancelled hc))
      elapsed_le_start := by
        intro hc call hcall
        change call ∈ table.drop c.dispatched at hcall
        exact h.now_le_start hc call (h.dispatched_eq ▸ hcall)
      elapsed_le_ends := h.now_le_ends
      dispatched_eq := fun hc => h.dispatched_eq.trans (congrArg List.length (h.handed_eq hc))
      ends_le_elapsed := h.ends_le_now
      ends_lt_outer := h.ends_lt_outer
      ends_eq_elapsed := h.ends_eq_now
      records_eq := hrecords
      maxInflight_eq := fun hp => (hsequential hp).2 }

theorem chronicle_runSequential (dispatcher : Dispatcher) (outer : Option Time)
    (ds : List Departure) :
    Chronicle .sequential dispatcher outer (plan .sequential dispatcher ds)
      (runSequential dispatcher outer ds).value := by
  have h := Sequential.run_ended ds.length ds (Sequential.steady_start dispatcher outer)
    rfl
  have hlength : (plan .sequential dispatcher ds).length = ds.length := length_plan
  rw [runSequential, ← hlength]
  rw [← hlength] at h
  exact chronicle_of_ended h.toEnded (fun _ => ⟨rfl, rfl⟩) fun _ _ => h.records_eq

theorem chronicle_runConcurrent (dispatcher : Dispatcher) (outer : Option Time)
    (ds : List Departure) :
    Chronicle .concurrent dispatcher outer (plan .concurrent dispatcher ds)
      (runConcurrent dispatcher outer ds).value := by
  obtain ⟨handed, hsound, hended⟩ := Concurrent.run_ended dispatcher ds.length outer ds
  have hlength : (plan .concurrent dispatcher ds).length = ds.length := length_plan
  rw [runConcurrent, ← hlength]
  rw [← hlength] at hsound hended
  refine chronicle_of_ended hended (fun hp => nomatch hp) fun hfaithful hindex => ?_
  refine hsound.records_eq hfaithful (hindex.sublist ?_)
  exact (hsound.calls_prefix.trans hended.handed_prefix).sublist

/-- Every replay leaves behind what its chronicle tells. -/
theorem chronicle (pacing : Pacing) (dispatcher : Dispatcher) (outer : Option Time)
    (ds : List Departure) :
    Chronicle pacing dispatcher outer (plan pacing dispatcher ds)
      (runPaced pacing dispatcher outer ds).value := by
  cases pacing with
  | sequential => exact chronicle_runSequential dispatcher outer ds
  | concurrent => exact chronicle_runConcurrent dispatcher outer ds

/-- A replay dispatches the departures of its events, if they can be replayed, and fails before its
first call if they cannot. -/
theorem run_eq (scale : Double) (pacing : Pacing) (dispatcher : Dispatcher)
    (cancelAt : Option Time) (events : List Event) :
    run scale pacing dispatcher cancelAt events =
      ((departures scale events).mapError fun e => ⟨e, [], []⟩).map
        (runPaced pacing dispatcher cancelAt) := by
  cases pacing <;> cases h : departures scale events <;> simp only [run, h] <;> rfl

theorem run_eq_ok {scale : Double} {events : List Event} {ds : List Departure}
    (hds : departures scale events = .ok ds) (pacing : Pacing) (dispatcher : Dispatcher)
    (cancelAt : Option Time) : run scale pacing dispatcher cancelAt events =
      .ok (runPaced pacing dispatcher cancelAt ds) := by
  rw [run_eq, hds]
  rfl

theorem run_eq_error {scale : Double} {events : List Event} {e : Error}
    (hds : departures scale events = .error e) (pacing : Pacing) (dispatcher : Dispatcher)
    (cancelAt : Option Time) : run scale pacing dispatcher cancelAt events = .error ⟨e, [], []⟩ := by
  rw [run_eq, hds]
  rfl

/-- Accepted events are replayed, unless the clock cannot tell the deadline of one of them. -/
theorem run_cases {scale : Double} {events : List Event} (hscale : validateScale scale = .ok ())
    (hevents : Event.validate events = .ok ()) (pacing : Pacing) (dispatcher : Dispatcher)
    (cancelAt : Option Time) :
    (∃ ds, departures scale events = .ok ds ∧
        run scale pacing dispatcher cancelAt events =
          .ok (runPaced pacing dispatcher cancelAt ds)) ∨
      ∃ i event, events[i]? = some event ∧ ¬ Departure.InRange (event.offset * scale) ∧
        run scale pacing dispatcher cancelAt events =
          .error ⟨.trace (.events (.outOfRange i (event.offset * scale))), [], []⟩ := by
  rcases departures_cases hscale hevents with ⟨ds, hds⟩ | ⟨i, event, hi, hrange, hds⟩
  · exact .inl ⟨ds, hds, run_eq_ok hds pacing dispatcher cancelAt⟩
  · exact .inr ⟨i, event, hi, hrange, run_eq_error hds pacing dispatcher cancelAt⟩

end LoadReplay.Replay
