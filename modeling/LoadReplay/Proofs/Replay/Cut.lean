import LoadReplay.Proofs.Replay.Records

/-!
# What a cancellation cuts off

A cancellation cuts a replay (`Replay.Cut`) if some event is not dispatched, or some dispatch that
was started does not run to its end. A sequential replay is called cancelled if and only if it was
cut. A concurrent one looks at the cancellation once more when all is dispatched, before it notices
that dispatches have ended, so it is called cancelled as soon as it is cancelled by its end
(`Replay.cancelled_flag_iff`): also when the cancellation comes just when the last dispatch ends,
and nothing is cut (`Replay.cancelled_uncut`).
-/

namespace LoadReplay

/-! ## Dispatches that run to their end -/

namespace Sequential

/-- The departures whose dispatches run to their end, when they are dispatched in order from a state
on. -/
def completed (dispatcher : Dispatcher) (total : Nat) : List Departure → State → List Departure
  | [], _ => []
  | d :: ds, s =>
    let waited := wait s.course d.deadline
    let left := dispatch dispatcher total { s with course := waited.1 } d
    if waited.2 && left.2 then d :: completed dispatcher total ds left.1 else []

variable {dispatcher : Dispatcher} {total : Nat}

theorem completed_prefix (ds : List Departure) (s : State) :
    completed dispatcher total ds s <+: ds := by
  induction ds generalizing s with
  | nil => exact List.prefix_rfl
  | cons d ds ih =>
    rw [completed]
    split
    · exact (List.prefix_cons_inj d).2 (ih _)
    · exact List.nil_prefix

/-- A sequential replay goes on as long as its dispatches run to their end. -/
theorem run_eq_false_iff (ds : List Departure) (s : State) :
    (run dispatcher total s ds).2 = false ↔ completed dispatcher total ds s = ds := by
  induction ds generalizing s with
  | nil => exact iff_of_true rfl rfl
  | cons d ds ih =>
    rw [run, completed]
    rcases hwait : wait s.course d.deadline with ⟨c, _ | _⟩
    · simp
    · rcases hdispatch : dispatch dispatcher total { s with course := c } d with ⟨next, _ | _⟩
      · simp [hdispatch]
      · simpa [hdispatch] using ih next

end Sequential

namespace Concurrent

variable {dispatcher : Dispatcher} {outer : Option Time} {handed : List Call}

/-- The departures whose dispatches have ended. -/
def State.completed (s : State) : List Departure := (s.landed ++ s.ended).map (·.departure)

/-- The dispatches that have ended are those of the calls that have. -/
theorem State.Sound.mem_completed {s : State} (h : s.Sound dispatcher outer handed)
    {d : Departure} : d ∈ s.completed ↔
      ∃ call ∈ s.course.calls, dispatcher.ends call ≤ s.course.now ∧ call.departure = d := by
  rw [State.completed, (h.ended_perm.map (·.departure)).mem_iff]
  simp [Pacing.counts, flight, and_assoc]

theorem State.Sound.settle_open {s : State} (h : s.Sound dispatcher outer handed)
    (hqueue : s.queue = []) (hopen : s.settle.2 = false) :
    s.settle.1.course.isCancelled = false := by
  cases hby : s.course.cancelledBy (s.endings.getLastD s.course.now) with
  | some t =>
    simp only [State.settle, hby] at hopen
    cases hopen
  | none =>
    have hlate := Course.cancelledBy_eq_none.1 hby
    obtain ⟨-, -, hcancelAt, hnow⟩ := h.foldl_pass s.endings hqueue s.pairwise_now_endings
      fun t ht u hu => (State.le_getLastD s.pairwise_endings ht _).trans (hlate u hu).le
    simp only [State.settle, hby]
    rw [Course.isCancelled_eq_false_iff, hcancelAt, hnow]
    exact hlate

/-- A concurrent replay is not called cancelled only if it is not cancelled by its end. -/
theorem run_open {total : Nat} {ds : List Departure}
    (hopen : (run dispatcher total outer ds).2 = false) :
    (run dispatcher total outer ds).1.course.isCancelled = false := by
  rcases State.handOverAll_ended total ds (State.sound_start dispatcher outer) rfl
    (fun h => absurd rfl h) (by simp [State.start]) with ⟨s, _, hrun, -⟩ | ⟨s, hrun, hs, -⟩
  · rw [run, hrun] at hopen
    cases hopen
  · rw [run, hrun] at hopen ⊢
    have hlaunch := hs.land.launchAll true
    have hqueue := State.queue_launchAll dispatcher true s.land
    dsimp only at hopen ⊢
    rw [State.drain_eq] at hopen ⊢
    split at hopen
    · cases hopen
    · rw [if_neg ‹_›]
      split at hopen
      · cases hopen
      · rw [if_neg ‹_›]
        exact hlaunch.land.settle_open (hqueue.resolve_right ‹_›) hopen

end Concurrent

/-! ## Cut replays -/

namespace Replay

/-- The departures whose dispatches run to their end in a replay. -/
def completed (pacing : Pacing) (dispatcher : Dispatcher) (cancelAt : Option Time)
    (ds : List Departure) : List Departure :=
  match pacing with
  | .sequential => Sequential.completed dispatcher ds.length ds ⟨Course.start cancelAt, []⟩
  | .concurrent => (Concurrent.run dispatcher ds.length cancelAt ds).1.completed

/-- Some departure was not dispatched, or some dispatch that was started did not run to its end. -/
def Cut (pacing : Pacing) (dispatcher : Dispatcher) (cancelAt : Option Time) (ds : List Departure)
    (f : Finished) : Prop :=
  (∃ d ∈ ds, d ∉ f.calls.map (·.departure)) ∨
    ∃ call ∈ f.calls, call.departure ∉ completed pacing dispatcher cancelAt ds

instance (pacing : Pacing) (dispatcher : Dispatcher) (cancelAt : Option Time) (ds : List Departure)
    (f : Finished) : Decidable (Cut pacing dispatcher cancelAt ds f) :=
  inferInstanceAs (Decidable ((∃ d ∈ ds, d ∉ f.calls.map (·.departure)) ∨
    ∃ call ∈ f.calls, call.departure ∉ completed pacing dispatcher cancelAt ds))

/-- The replay was cancelled at a time, from outside or by a dispatch that started then. -/
def CancelledAt (dispatcher : Dispatcher) (cancelAt : Option Time) (t : Time) (f : Finished) :
    Prop :=
  cancelAt = some t ∨
    ∃ call ∈ f.calls, (dispatcher call.departure).cancels = true ∧ call.start = t

variable {pacing : Pacing} {dispatcher : Dispatcher} {cancelAt : Option Time}
  {ds : List Departure} {f : Finished} {d : Departure}

/-- A departure whose dispatch does not run to its end is cut, whether it was dispatched or not. -/
theorem cut_of_not_mem_completed (hd : d ∈ ds)
    (hnot : d ∉ completed pacing dispatcher cancelAt ds) :
    Cut pacing dispatcher cancelAt ds f := by
  by_cases hcalled : d ∈ f.calls.map (·.departure)
  · obtain ⟨call, hcall, rfl⟩ := List.mem_map.1 hcalled
    exact .inr ⟨call, hcall, hnot⟩
  · exact .inl ⟨d, hd, hcalled⟩

/-- In a replay that is not cancelled all dispatches run to their end. -/
theorem mem_completed_of_open
    (hopen : (runPaced pacing dispatcher cancelAt ds).value.outcome.cancelled = false)
    (hd : d ∈ ds) : d ∈ completed pacing dispatcher cancelAt ds := by
  cases pacing with
  | sequential =>
    have hall : Sequential.completed dispatcher ds.length ds ⟨Course.start cancelAt, []⟩ = ds :=
      (Sequential.run_eq_false_iff ds _).1 hopen
    rw [completed, hall]
    exact hd
  | concurrent =>
    have hchronicle := chronicle .concurrent dispatcher cancelAt ds
    obtain ⟨handed, hsound, -⟩ := Concurrent.run_ended dispatcher ds.length cancelAt ds
    have hcalls := hchronicle.calls_eq_table hopen
    have hplan : (plan .concurrent dispatcher ds).map (·.departure) = ds := map_departure_plan
    rw [← hplan] at hd
    obtain ⟨call, hcall, rfl⟩ := List.mem_map.1 hd
    have hmade : call ∈ (runPaced .concurrent dispatcher cancelAt ds).value.calls := hcalls ▸ hcall
    exact hsound.mem_completed.2 ⟨call, hmade, hchronicle.ends_le_elapsed hopen call hcall, rfl⟩

/-- A replay that is cut is called cancelled. -/
theorem cancelled_of_cut
    (hcut : Cut pacing dispatcher cancelAt ds (runPaced pacing dispatcher cancelAt ds).value) :
    (runPaced pacing dispatcher cancelAt ds).value.outcome.cancelled = true := by
  have hchronicle := chronicle pacing dispatcher cancelAt ds
  by_contra hopen
  rw [Bool.not_eq_true] at hopen
  have hcalls := hchronicle.calls_eq_table hopen
  rcases hcut with ⟨d, hd, hnot⟩ | ⟨call, hcall, hnot⟩
  · rw [hcalls, map_departure_plan] at hnot
    exact hnot hd
  · refine hnot (mem_completed_of_open hopen ?_)
    have hplan : (plan pacing dispatcher ds).map (·.departure) = ds := map_departure_plan
    rw [← hplan]
    exact List.mem_map_of_mem (hcalls ▸ hcall)

/-! ## Sequential replays -/

/-- A sequential replay is called cancelled only if it is cut. -/
theorem cut_of_sequential (hds : ds.Nodup)
    (hc : (runPaced .sequential dispatcher cancelAt ds).value.outcome.cancelled = true) :
    Cut .sequential dispatcher cancelAt ds f := by
  have hprefix : Sequential.completed dispatcher ds.length ds ⟨Course.start cancelAt, []⟩ <+: ds :=
    Sequential.completed_prefix ds _
  obtain ⟨rest, hrest⟩ := hprefix
  cases rest with
  | nil =>
    rw [List.append_nil] at hrest
    have hopen : (runPaced .sequential dispatcher cancelAt ds).value.outcome.cancelled = false :=
      (Sequential.run_eq_false_iff ds _).2 hrest
    rw [hopen] at hc
    cases hc
  | cons d rest =>
    have hd : d ∈ ds := hrest ▸ List.mem_append_right _ (List.mem_cons_self ..)
    refine cut_of_not_mem_completed hd fun hmem => ?_
    rw [← hrest] at hds
    exact List.disjoint_of_nodup_append hds hmem (List.mem_cons_self ..)

/-! ## Concurrent replays -/

/-- A concurrent replay is called cancelled if and only if it is cancelled by its end. -/
theorem cancelled_concurrent_iff :
    (runPaced .concurrent dispatcher cancelAt ds).value.outcome.cancelled = true ↔
      CancelledAt dispatcher cancelAt
        (runPaced .concurrent dispatcher cancelAt ds).value.outcome.elapsed
        (runPaced .concurrent dispatcher cancelAt ds).value := by
  refine ⟨(chronicle .concurrent dispatcher cancelAt ds).cancel_source, fun hat => ?_⟩
  by_contra hopen
  rw [Bool.not_eq_true] at hopen
  obtain ⟨handed, hsound, -⟩ := Concurrent.run_ended dispatcher ds.length cancelAt ds
  have hlate := Course.isCancelled_eq_false_iff.1 (Concurrent.run_open hopen)
  rcases hat with houter | ⟨call, hcall, hcancels, hstart⟩
  · obtain ⟨u, hu, hle⟩ := hsound.cancel_le_outer _ houter
    exact absurd (hlate u hu) hle.not_gt
  · exact absurd (hlate _ (hsound.cancel_of_call call hcall hcancels)) hstart.le.not_gt

/-- If nothing is cut of a cancelled replay, then it is cancelled just when a last dispatch ends. -/
theorem exists_ends_eq_of_not_cut (hds : ds.Pairwise fun a b => a.index < b.index) (hne : ds ≠ [])
    (hc : (runPaced .concurrent dispatcher cancelAt ds).value.outcome.cancelled = true)
    (hcut : ¬ Cut .concurrent dispatcher cancelAt ds
      (runPaced .concurrent dispatcher cancelAt ds).value) :
    ∃ call ∈ (runPaced .concurrent dispatcher cancelAt ds).value.calls,
      dispatcher.ends call =
        (runPaced .concurrent dispatcher cancelAt ds).value.outcome.elapsed := by
  have hchronicle := chronicle .concurrent dispatcher cancelAt ds
  obtain ⟨handed, hsound, -⟩ := Concurrent.run_ended dispatcher ds.length cancelAt ds
  obtain ⟨call, hcall, hle⟩ := hchronicle.elapsed_le_ends hc (plan_ne_nil hne)
  have hmem : call.departure ∈ ds := by
    have := List.mem_map_of_mem (f := (·.departure)) hcall
    rwa [map_departure_plan] at this
  have hcompleted : call.departure ∈ completed .concurrent dispatcher cancelAt ds := by
    by_contra hnot
    exact hcut (cut_of_not_mem_completed hmem hnot)
  obtain ⟨other, hother, hends, heq⟩ := hsound.mem_completed.1 hcompleted
  -- no two calls of the timetable are for one departure
  have hindex : (plan .concurrent dispatcher ds).Pairwise
      fun a b => a.departure.index < b.departure.index := pairwise_index_plan hds
  have hinj := List.inj_on_of_nodup_map (List.pairwise_map.2 (hindex.imp ne_of_lt))
  obtain rfl := hinj (hchronicle.calls_prefix_table.subset hother) hcall
    (congrArg Departure.index heq)
  exact ⟨other, hother, le_antisymm hends hle⟩

/-! ## Whole replays -/

/-- What it means that a finished replay of departures is called cancelled or not. -/
structure FlagTold (pacing : Pacing) (dispatcher : Dispatcher) (cancelAt : Option Time)
    (ds : List Departure) (f : Finished) : Prop where
  cancelled_iff : f.outcome.cancelled = true ↔ Cut pacing dispatcher cancelAt ds f ∨
    pacing = .concurrent ∧ CancelledAt dispatcher cancelAt f.outcome.elapsed f
  ends_eq_of_not_cut : f.outcome.cancelled = true → ¬ Cut pacing dispatcher cancelAt ds f →
    ∃ call ∈ f.calls, dispatcher.ends call = f.outcome.elapsed

/-- A replay is called cancelled if it is cut, and only then with sequential pacing; with concurrent
pacing also if the cancellation comes just when the last dispatch ends. -/
theorem cancelled_flag_iff (scale : Double) (pacing : Pacing) (dispatcher : Dispatcher)
    (cancelAt : Option Time) (events : List Event) (hscale : validateScale scale = .ok ())
    (hevents : Event.validate events = .ok ()) :
    (∃ ds r, departures scale events = .ok ds ∧
        run scale pacing dispatcher cancelAt events = .ok r ∧
        FlagTold pacing dispatcher cancelAt ds r.value) ∨
      ∃ i event, events[i]? = some event ∧ ¬ Departure.InRange (event.offset * scale) ∧
        run scale pacing dispatcher cancelAt events =
          .error ⟨.trace (.events (.outOfRange i (event.offset * scale))), [], []⟩ := by
  refine (run_cases hscale hevents pacing dispatcher cancelAt).imp_left ?_
  rintro ⟨ds, hds, hrun⟩
  have hindex := pairwise_index_departures hds
  have hnodup : ds.Nodup := hindex.imp fun hlt heq => hlt.ne (congrArg Departure.index heq)
  refine ⟨ds, _, hds, hrun, ?_⟩
  cases pacing with
  | sequential =>
    exact
      { cancelled_iff := ⟨fun hc => .inl (cut_of_sequential hnodup hc),
          fun h => h.elim cancelled_of_cut fun hconcurrent => nomatch hconcurrent.1⟩
        ends_eq_of_not_cut := fun hc hcut => absurd (cut_of_sequential hnodup hc) hcut }
  | concurrent =>
    exact
      { cancelled_iff := ⟨fun hc => .inr ⟨rfl, cancelled_concurrent_iff.1 hc⟩,
          fun h => h.elim cancelled_of_cut fun hat => cancelled_concurrent_iff.2 hat.2⟩
        ends_eq_of_not_cut :=
          exists_ends_eq_of_not_cut hindex (ne_nil_of_departures hds hevents) }

/-- A dispatch that takes no time and asks for the replay to be cancelled. -/
def hastyScript : Script := { mode := .blocking, steps := [], cancelOn := some 0 }

/-- Two events at once, the first of which cancels a sequential replay before the second one. -/
theorem cancelled_flag_iff_sample :
    validateScale (Double.ofNat 2) = .ok () ∧ Event.validate sampleEvents = .ok () ∧
      ∃ ds r, departures (Double.ofNat 2) sampleEvents = .ok ds ∧
        run (Double.ofNat 2) .sequential hastyScript.dispatcher none sampleEvents = .ok r ∧
        FlagTold .sequential hastyScript.dispatcher none ds r.value ∧
        r.value.outcome.cancelled = true ∧ r.value.outcome.dispatched = 1 := by
  have hcancelled : (run (Double.ofNat 2) .sequential hastyScript.dispatcher none
      sampleEvents).toOption.any (fun r =>
        decide (r.value.outcome.cancelled = true ∧ r.value.outcome.dispatched = 1)) = true := by
    decide +kernel
  refine ⟨validateScale_two, validate_sampleEvents, ?_⟩
  rcases cancelled_flag_iff (Double.ofNat 2) .sequential hastyScript.dispatcher none sampleEvents
    validateScale_two validate_sampleEvents with
    ⟨ds, r, hds, hrun, htold⟩ | ⟨i, event, -, -, herror⟩
  · rw [hrun] at hcancelled
    exact ⟨ds, r, hds, hrun, htold, of_decide_eq_true hcancelled⟩
  · rw [herror] at hcancelled
    cases hcancelled

/-- The only dispatch cancels a concurrent replay and ends at once: the replay is called cancelled,
and nothing was cut. -/
theorem cancelled_uncut :
    ∃ ds r, departures 1 [sampleEvent 0] = .ok ds ∧
      run 1 .concurrent hastyScript.dispatcher none [sampleEvent 0] = .ok r ∧
      r.value.outcome.cancelled = true ∧
      ¬ Cut .concurrent hastyScript.dispatcher none ds r.value := by
  have huncut : (departures 1 [sampleEvent 0]).toOption.any (fun ds =>
      (run 1 .concurrent hastyScript.dispatcher none [sampleEvent 0]).toOption.any fun r =>
        decide (r.value.outcome.cancelled = true ∧
          ¬ Cut .concurrent hastyScript.dispatcher none ds r.value)) = true := by
    decide +kernel
  cases hds : departures 1 [sampleEvent 0] with
  | error fault =>
    rw [hds] at huncut
    cases huncut
  | ok ds =>
    rw [hds] at huncut
    cases hrun : run 1 .concurrent hastyScript.dispatcher none [sampleEvent 0] with
    | error fault =>
      rw [hrun] at huncut
      cases huncut
    | ok r =>
      rw [hrun] at huncut
      exact ⟨ds, r, rfl, rfl, of_decide_eq_true huncut⟩

end Replay

end LoadReplay
