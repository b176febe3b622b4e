import LoadReplay.Proofs.Replay.Cancellation
import Mathlib.Algebra.BigOperators.Intervals
import Mathlib.Order.Lattice.Nat

/-!
# The drift of sequential replays

A sequential replay never makes up for a delay: what a dispatch is late by is handed on to the next
one, and only an idle wait takes it up. `drift` is the closed form of this recurrence, the greatest
sum of a wake-up and the delays from it on, and `Replay.sequential_drifts` says that a sequential
replay with delays of whole milliseconds starts its calls, and ends, exactly then.
-/

namespace LoadReplay

/-! ## The recurrence -/

/-- The latest of the first `n` wake-ups, each put off by the delays from it up to `i`. -/
def drift (wakes delays : Nat → Nat) (n i : Nat) : Nat :=
  (Finset.range n).sup fun j => wakes j + ∑ k ∈ Finset.Ico j i, delays k

section

variable (wakes delays : Nat → Nat)

theorem drift_one_zero : drift wakes delays 1 0 = wakes 0 := by
  simp [drift]

/-- A delay puts off what went before. -/
theorem drift_add {n i : Nat} (hn : 0 < n) (hni : n ≤ i + 1) :
    drift wakes delays n (i + 1) = drift wakes delays n i + delays i := by
  have hmono : Monotone fun t : Nat => t + delays i := fun a b h => Nat.add_le_add_right h _
  unfold drift
  rw [Finset.apply_sup_eq_sup_comp_of_nonempty hmono (Finset.nonempty_range_iff.2 hn.ne')]
  refine Finset.sup_congr rfl fun j hj => ?_
  have hji : j ≤ i := Nat.le_of_lt_succ ((Finset.mem_range.1 hj).trans_le hni)
  rw [Finset.sum_Ico_succ_top hji, Function.comp_apply, Nat.add_assoc]

/-- The next wake-up comes when it is due, if nothing has put off the clock beyond it. -/
theorem drift_succ (n : Nat) :
    drift wakes delays (n + 1) n = max (drift wakes delays n n) (wakes n) := by
  unfold drift
  rw [Finset.range_add_one, Finset.sup_insert, Finset.Ico_self, Finset.sum_empty, Nat.add_zero]
  exact max_comm _ _

/-- Wake-ups every two units and delays of three: the third delay ends at nine. -/
example : drift (fun i => 2 * i) (fun _ => 3) 3 3 = 9 := by decide

end

/-! ## Lags -/

theorem greatestLag_eq_sup (calls : List Call) :
    greatestLag calls =
      (Finset.range calls.length).sup fun i => (calls[i]?.map Call.lag).getD 0 := by
  induction calls using List.reverseRecOn with
  | nil => rfl
  | append_singleton calls call ih =>
    have hlag : ((calls ++ [call])[calls.length]?.map Call.lag).getD 0 = call.lag := by simp
    rw [greatestLag_concat, List.length_append, List.length_singleton, Finset.range_add_one,
      Finset.sup_insert, hlag, ih, max_comm]
    refine congrArg (max _) (Finset.sup_congr rfl fun i hi => ?_)
    rw [List.getElem?_append_left (Finset.mem_range.1 hi)]

/-! ## Sequential timetables -/

/-- The deadline of the departure at an index. -/
def deadlineAt (ds : List Departure) (i : Nat) : Time := (ds[i]?.map (·.deadline)).getD 0

/-- The wake-up for the departure at an index. -/
def wakeAt (ds : List Departure) (i : Nat) : Time := Time.wake (deadlineAt ds i)

/-- How long the dispatch of the departure at an index takes. -/
def delayAt (dispatcher : Dispatcher) (ds : List Departure) (i : Nat) : Duration :=
  (ds[i]?.map fun d => (dispatcher d).delay).getD 0

namespace Replay

/-- How a sequential replay of departures drifts behind their deadlines. -/
structure Drifts (dispatcher : Dispatcher) (ds : List Departure) (f : Finished) : Prop where
  cancelled : f.outcome.cancelled = false
  dispatched_eq : f.outcome.dispatched = ds.length
  departures_eq : f.calls.map (·.departure) = ds
  deadline_le_start : ∀ call ∈ f.calls, call.departure.deadline ≤ call.start
  start_eq : ∀ (i : Nat) (call : Call), f.calls[i]? = some call →
    call.start = drift (wakeAt ds) (delayAt dispatcher ds) (i + 1) i
  start_succ : ∀ (i : Nat) (call next : Call), f.calls[i]? = some call →
    f.calls[i + 1]? = some next →
    next.start = max (call.start + (dispatcher call.departure).delay)
      (Time.wake next.departure.deadline)
  elapsed_eq : f.outcome.elapsed =
    drift (wakeAt ds) (delayAt dispatcher ds) ds.length ds.length
  maxLag_eq : f.outcome.maxLag = (Finset.range ds.length).sup fun i =>
    drift (wakeAt ds) (delayAt dispatcher ds) (i + 1) i - deadlineAt ds i
  maxInflight_eq : f.outcome.maxInflight = 1

variable {pacing : Pacing} {dispatcher : Dispatcher} {ds : List Departure} {i : Nat}
  {call next : Call}

theorem deadlineAt_of_plan (h : (plan pacing dispatcher ds)[i]? = some call) :
    deadlineAt ds i = call.departure.deadline := by
  rw [deadlineAt, getElem?_departure_of_plan h]
  rfl

theorem wakeAt_of_plan (h : (plan pacing dispatcher ds)[i]? = some call) :
    wakeAt ds i = Time.wake call.departure.deadline := by
  rw [wakeAt, deadlineAt_of_plan h]

theorem delayAt_of_plan (h : (plan pacing dispatcher ds)[i]? = some call) :
    delayAt dispatcher ds i = (dispatcher call.departure).delay := by
  rw [delayAt, getElem?_departure_of_plan h]
  rfl

theorem dvd_start_of_mem_plan (h : call ∈ plan .sequential dispatcher ds) :
    Duration.millisecond ∣ call.start :=
  dvd_start_of_mem_timetable (fun _ => dispatcher.dvd_ends) (Nat.dvd_zero _) h

/-- The last dispatch is the last one to end. -/
theorem ends_le_ends_last {last : Call} (hcall : call ∈ plan .sequential dispatcher ds)
    (hlast : (plan .sequential dispatcher ds)[ds.length - 1]? = some last) :
    dispatcher.ends call ≤ dispatcher.ends last := by
  obtain ⟨i, hi⟩ := List.getElem?_of_mem hcall
  obtain ⟨hlt, rfl⟩ := List.getElem?_eq_some_iff.1 hi
  obtain ⟨hlt', rfl⟩ := List.getElem?_eq_some_iff.1 hlast
  rcases Nat.lt_or_ge i (ds.length - 1) with hbefore | hafter
  · have hpair := List.pairwise_iff_getElem.1
      (pairwise_after_timetable dispatcher.start_le_ends ds) i (ds.length - 1) hlt hlt' hbefore
    exact hpair.trans (dispatcher.start_le_ends _)
  · have : i = ds.length - 1 := by
      rw [length_plan] at hlt
      omega
    subst this
    exact le_rfl

section

variable (hdelay : ∀ d, Duration.millisecond ∣ (dispatcher d).delay)
include hdelay

theorem ends_of_mem_plan (h : call ∈ plan .sequential dispatcher ds) :
    dispatcher.ends call = call.start + (dispatcher call.departure).delay :=
  dispatcher.ends_of_dvd (dvd_start_of_mem_plan h) (hdelay _)

/-- A dispatch starts when the one before has ended and its own wake-up has come. -/
theorem start_succ_of_plan (hcall : (plan .sequential dispatcher ds)[i]? = some call)
    (hnext : (plan .sequential dispatcher ds)[i + 1]? = some next) :
    next.start = max (call.start + (dispatcher call.departure).delay)
      (Time.wake next.departure.deadline) := by
  have hmem : call ∈ plan .sequential dispatcher ds := List.mem_of_getElem? hcall
  have hstart : next.start = Time.due (dispatcher.ends call) next.departure.deadline :=
    start_of_getElem?_succ hcall hnext
  rw [hstart, Time.due_eq_max (dispatcher.dvd_ends (dvd_start_of_mem_plan hmem)),
    ends_of_mem_plan hdelay hmem]

theorem start_of_plan (hcall : (plan .sequential dispatcher ds)[i]? = some call) :
    call.start = drift (wakeAt ds) (delayAt dispatcher ds) (i + 1) i := by
  induction i generalizing call with
  | zero =>
    have hstart : call.start = Time.due 0 call.departure.deadline := start_of_getElem?_zero hcall
    rw [drift_one_zero, wakeAt_of_plan hcall, hstart, Time.due_eq_max (Nat.dvd_zero _)]
    exact Nat.zero_max _
  | succ i ih =>
    obtain ⟨hlt, -⟩ := List.getElem?_eq_some_iff.1 hcall
    have hprev := List.getElem?_eq_getElem (Nat.lt_of_succ_lt hlt)
    rw [start_succ_of_plan hdelay hprev hcall, ih hprev, ← delayAt_of_plan hprev,
      ← wakeAt_of_plan hcall, drift_succ _ _ (i + 1), drift_add _ _ (Nat.succ_pos i) le_rfl]

/-- The dispatch at an index ends when all wake-ups up to it are put off by all delays. -/
theorem ends_of_plan (hcall : (plan .sequential dispatcher ds)[i]? = some call) :
    dispatcher.ends call = drift (wakeAt ds) (delayAt dispatcher ds) (i + 1) (i + 1) := by
  rw [ends_of_mem_plan hdelay (List.mem_of_getElem? hcall), start_of_plan hdelay hcall,
    ← delayAt_of_plan hcall, drift_add _ _ (Nat.succ_pos i) le_rfl]

theorem Chronicle.drifts {f : Finished} (hquiet : dispatcher.Quiet) (hds : ds ≠ [])
    (h : Chronicle .sequential dispatcher none (plan .sequential dispatcher ds) f) :
    Drifts dispatcher ds f := by
  have hopen := h.open_of_quiet hquiet
  have hcalls := h.calls_eq_table hopen
  have hdispatched : f.outcome.dispatched = ds.length := (h.dispatched_eq hopen).trans length_plan
  have hpos : 0 < ds.length := List.length_pos_iff.2 hds
  refine
    { cancelled := hopen
      dispatched_eq := hdispatched
      departures_eq := by rw [hcalls, map_departure_plan]
      deadline_le_start := fun call hcall => deadline_le_of_mem_plan (hcalls ▸ hcall)
      start_eq := fun i call hcall => start_of_plan hdelay (hcalls ▸ hcall)
      start_succ := fun i call next hcall hnext =>
        start_succ_of_plan hdelay (hcalls ▸ hcall) (hcalls ▸ hnext)
      elapsed_eq := ?_
      maxLag_eq := ?_
      maxInflight_eq := ?_ }
  · have hlt : ds.length - 1 < (plan .sequential dispatcher ds).length := by
      rw [length_plan]
      omega
    have hlast := List.getElem?_eq_getElem hlt
    have hends := ends_of_plan hdelay hlast
    rw [Nat.sub_add_cancel hpos] at hends
    obtain ⟨call, hcall, helapsed⟩ := h.ends_eq_elapsed hopen (plan_ne_nil hds)
    rw [← hends]
    refine le_antisymm ?_ (h.ends_le_elapsed hopen _ (List.getElem_mem hlt))
    rw [← helapsed]
    exact ends_le_ends_last hcall hlast
  · rw [h.maxLag_eq, h.dispatched_eq hopen, List.take_length, greatestLag_eq_sup, length_plan]
    refine Finset.sup_congr rfl fun i hi => ?_
    have hlt : i < (plan .sequential dispatcher ds).length := by
      rw [length_plan]
      exact Finset.mem_range.1 hi
    have hget := List.getElem?_eq_getElem hlt
    rw [hget, ← start_of_plan hdelay hget, deadlineAt_of_plan hget]
    rfl
  · rw [h.maxInflight_eq rfl, hdispatched]
    exact Nat.min_eq_right hpos

end

/-- A sequential replay that nobody cancels drifts behind its deadlines by the delays of its
dispatches, as far as no idle wait takes them up. -/
theorem sequential_drifts (scale : Double) (dispatcher : Dispatcher) (events : List Event)
    (hscale : validateScale scale = .ok ()) (hevents : Event.validate events = .ok ())
    (hquiet : dispatcher.Quiet)
    (hdelay : ∀ d, Duration.millisecond ∣ (dispatcher d).delay) :
    (∃ ds r, ds.length = events.length ∧
        (∀ (i : Nat) (d : Departure), ds[i]? = some d → d.IsFor scale events i) ∧
        run scale .sequential dispatcher none events = .ok r ∧ Drifts dispatcher ds r.value) ∨
      ∃ i event, events[i]? = some event ∧ ¬ Departure.InRange (event.offset * scale) ∧
        run scale .sequential dispatcher none events =
          .error ⟨.trace (.events (.outOfRange i (event.offset * scale))), [], []⟩ := by
  refine (run_cases hscale hevents .sequential dispatcher none).imp_left ?_
  rintro ⟨ds, hds, hrun⟩
  have h := chronicle .sequential dispatcher none ds
  exact ⟨ds, _, length_departures hds, fun _ _ => isFor_of_departures hds, hrun,
    h.drifts hdelay hquiet (ne_nil_of_departures hds hevents)⟩

/-- Dispatches that last for two seconds and a half. -/
def slowScript : Script :=
  { mode := .blocking
    steps :=
      [{ Script.idle with
          delay := 2500000000
          status := some 200 }]
    cancelOn := none }

/-- Every dispatch lasts longer than the gap behind it. -/
theorem sequential_drifts_sample :
    validateScale (Double.ofNat 2) = .ok () ∧ Event.validate sampleEvents = .ok () ∧
      slowScript.dispatcher.Quiet ∧
      (∀ d, Duration.millisecond ∣ (slowScript.dispatcher d).delay) ∧
      ∃ ds r, ds.length = 3 ∧
        run (Double.ofNat 2) .sequential slowScript.dispatcher none sampleEvents = .ok r ∧
        Drifts slowScript.dispatcher ds r.value := by
  have hquiet := Script.quiet_dispatcher (s := slowScript) rfl
  have hdelay := Script.dvd_delay_dispatcher (s := slowScript)
    (show ∀ step ∈ slowScript.steps, Duration.millisecond ∣ step.delay by decide)
  have hok : (run (Double.ofNat 2) .sequential slowScript.dispatcher none sampleEvents).isOk =
      true := by decide +kernel
  refine ⟨validateScale_two, validate_sampleEvents, hquiet, hdelay, ?_⟩
  rcases sequential_drifts (Double.ofNat 2) _ _ validateScale_two validate_sampleEvents hquiet
    hdelay with ⟨ds, r, hlength, -, hrun, hdrifts⟩ | ⟨i, event, -, -, herror⟩
  · exact ⟨ds, r, hlength, hrun, hdrifts⟩
  · rw [herror] at hok
    cases hok

end Replay

end LoadReplay
