import LoadReplay.Proofs.Replay.Chronicle

/-!
# The calls of a replay

`Replay.calls_safe` is about the calls of every replay: they are for the first events, in order and
each once, at times that do not decrease, none before its deadline and none after the cancellation,
whether that comes from outside or from a call.
-/

namespace LoadReplay.Replay

/-- What the calls of a finished replay of events keep to. -/
structure SafeCalls (scale : Double) (pacing : Pacing) (dispatcher : Dispatcher)
    (cancelAt : Option Time) (events : List Event) (f : Finished) : Prop where
  isFor : ∀ (i : Nat) (call : Call), f.calls[i]? = some call → call.departure.IsFor scale events i
  deadline_le_start : ∀ call ∈ f.calls, call.departure.deadline ≤ call.start
  pairwise_start : f.calls.Pairwise fun a b => a.start ≤ b.start
  start_lt_cancelAt : ∀ call ∈ f.calls, ∀ t ∈ cancelAt, call.start < t
  start_le_cancelling : ∀ call ∈ f.calls, ∀ other ∈ f.calls,
    (dispatcher other.departure).cancels = true → call.start ≤ other.start
  calls_le_dispatched : f.calls.length ≤ f.outcome.dispatched
  dispatched_le_total : f.outcome.dispatched ≤ f.outcome.total
  total_eq : f.outcome.total = events.length
  calls_eq_dispatched : pacing = .sequential ∨ f.outcome.cancelled = false →
    f.calls.length = f.outcome.dispatched

variable {scale : Double} {pacing : Pacing} {dispatcher : Dispatcher} {cancelAt : Option Time}
  {events : List Event} {ds : List Departure} {f : Finished}

/-- The calls are among those of the timetable. -/
theorem Chronicle.calls_prefix_table {table : List Call}
    (h : Chronicle pacing dispatcher cancelAt table f) : f.calls <+: table :=
  h.calls_prefix.trans (List.take_prefix _ _)

theorem Chronicle.safeCalls
    (h : Chronicle pacing dispatcher cancelAt (plan pacing dispatcher ds) f)
    (hds : departures scale events = .ok ds) :
    SafeCalls scale pacing dispatcher cancelAt events f where
  isFor i call hcall := by
    obtain ⟨rest, hrest⟩ := h.calls_prefix_table
    obtain ⟨hi, -⟩ := List.getElem?_eq_some_iff.1 hcall
    have hplan : (plan pacing dispatcher ds)[i]? = some call := by
      rw [← hrest, List.getElem?_append_left hi, hcall]
    exact isFor_of_departures hds (getElem?_departure_of_plan hplan)
  deadline_le_start call hcall :=
    deadline_le_of_mem_plan (h.calls_prefix_table.subset hcall)
  pairwise_start := pairwise_start_plan.sublist h.calls_prefix_table.sublist
  start_lt_cancelAt call hcall := h.start_lt_outer call (h.calls_prefix.subset hcall)
  start_le_cancelling call hcall other hother hcancels :=
    (h.start_le_elapsed call (h.calls_prefix.subset hcall)).trans
      (h.elapsed_le_of_cancels other hother hcancels)
  calls_le_dispatched := h.calls_prefix.length_le.trans (List.length_take_le _ _)
  dispatched_le_total := h.dispatched_le.trans_eq h.total_eq.symm
  total_eq := by rw [h.total_eq, length_plan, length_departures hds]
  calls_eq_dispatched hor := by
    have hcalls := hor.elim h.calls_eq_of_sequential h.calls_eq_of_open
    rw [hcalls, List.length_take, Nat.min_eq_left h.dispatched_le]

theorem SafeCalls.exists_isFor (h : SafeCalls scale pacing dispatcher cancelAt events f)
    {call : Call} (hcall : call ∈ f.calls) :
    ∃ i < f.outcome.dispatched, call.departure.IsFor scale events i := by
  obtain ⟨i, hi⟩ := List.getElem?_of_mem hcall
  obtain ⟨hlt, -⟩ := List.getElem?_eq_some_iff.1 hi
  exact ⟨i, hlt.trans_le h.calls_le_dispatched, h.isFor i call hi⟩

/-- An event at a whole second. -/
def sampleEvent (seconds : Nat) : Event :=
  { offset := Double.ofNat seconds
    bucket := "small"
    prompt := "hello"
    contextTokens := 5
    generatedTokens := 7 }

/-- Two events at once and one a second later. -/
def sampleEvents : List Event := [sampleEvent 0, sampleEvent 0, sampleEvent 1]

theorem validate_sampleEvents : Event.validate sampleEvents = .ok () := by decide +kernel

theorem validateScale_two : validateScale (Double.ofNat 2) = .ok () := by decide +kernel

/-- Dispatches that last for one and a half milliseconds; every second one panics. -/
def sampleScript (cancelOn : Option Nat) : Script :=
  { mode := .blocking
    steps :=
      [{ Script.idle with
          delay := 1500000
          status := some 200 },
        { Script.idle with
          delay := 1500000
          panics := true }]
    cancelOn }

/-- The calls of every replay are for the first events, in order and in time; only a deadline that
the clock cannot tell keeps accepted events from being replayed. -/
theorem calls_safe (scale : Double) (pacing : Pacing) (dispatcher : Dispatcher)
    (cancelAt : Option Time) (events : List Event) (hscale : validateScale scale = .ok ())
    (hevents : Event.validate events = .ok ()) :
    (∃ r, run scale pacing dispatcher cancelAt events = .ok r ∧
        SafeCalls scale pacing dispatcher cancelAt events r.value) ∨
      ∃ i event, events[i]? = some event ∧ ¬ Departure.InRange (event.offset * scale) ∧
        run scale pacing dispatcher cancelAt events =
          .error ⟨.trace (.events (.outOfRange i (event.offset * scale))), [], []⟩ := by
  refine (run_cases hscale hevents pacing dispatcher cancelAt).imp_left ?_
  rintro ⟨ds, hds, hrun⟩
  exact ⟨_, hrun, (chronicle pacing dispatcher cancelAt ds).safeCalls hds⟩

/-- Events side by side, the second of which asks for the cancellation. -/
theorem calls_safe_sample :
    validateScale (Double.ofNat 2) = .ok () ∧ Event.validate sampleEvents = .ok () ∧
      ∃ r, run (Double.ofNat 2) .concurrent (sampleScript (some 1)).dispatcher (some 3000000000)
          sampleEvents = .ok r ∧
        SafeCalls (Double.ofNat 2) .concurrent (sampleScript (some 1)).dispatcher
          (some 3000000000) sampleEvents r.value := by
  have hok : (run (Double.ofNat 2) .concurrent (sampleScript (some 1)).dispatcher
      (some 3000000000) sampleEvents).isOk = true := by decide +kernel
  refine ⟨validateScale_two, validate_sampleEvents,
    (calls_safe _ _ _ _ _ validateScale_two validate_sampleEvents).resolve_right ?_⟩
  rintro ⟨i, event, -, -, herror⟩
  rw [herror] at hok
  cases hok

end LoadReplay.Replay
