import LoadReplay.Proofs.Replay.Records
import LoadReplay.Proofs.Replay.Uncancelled

/-!
# Cancelled replays

`Replay.cancellation_truncates` compares a quiet replay that nobody cancels with the same replay
cancelled from outside at a time `c` at which no call of it starts or ends. Cancelled after its end
it is the same replay; cancelled before, it is the replay `Truncated` at `c`: what starts or ends
before `c` is as it was, the rest is missing, and the replay lasts until `c`.
-/

namespace LoadReplay.Replay

/-- The finished replay `v` is `u` cut off at the time `c`. -/
structure Truncated (dispatcher : Dispatcher) (c : Time) (u v : Finished) : Prop where
  cancelled : v.outcome.cancelled = true
  elapsed_eq : v.outcome.elapsed = c
  total_eq : v.outcome.total = u.outcome.total
  calls_eq : v.calls = u.calls.filter fun call => decide (call.start < c)
  dispatched_eq : v.outcome.dispatched = v.calls.length
  records_eq : v.outcome.records = u.outcome.records.filter fun m => u.calls.any fun call =>
    decide (call.departure.index = m.index ∧ dispatcher.ends call < c)
  maxLag_eq : v.outcome.maxLag = greatestLag v.calls

variable {pacing : Pacing} {dispatcher : Dispatcher} {table : List Call} {c : Time}
  {u v : Finished}

namespace Chronicle

/-- Nobody cancels a quiet replay but from outside. -/
theorem cancelled_of_quiet {outer : Option Time} (hquiet : dispatcher.Quiet)
    (h : Chronicle pacing dispatcher outer table u) (hc : u.outcome.cancelled = true) :
    outer = some u.outcome.elapsed := by
  refine (h.cancel_source hc).resolve_right ?_
  rintro ⟨call, -, hcancels, -⟩
  rw [hquiet call.departure] at hcancels
  cases hcancels

theorem open_of_quiet (hquiet : dispatcher.Quiet)
    (h : Chronicle pacing dispatcher none table u) : u.outcome.cancelled = false := by
  by_contra hc
  exact nomatch h.cancelled_of_quiet hquiet (Bool.not_eq_false _ ▸ hc)

/-- A replay is not cancelled when it ends before. -/
theorem open_of_elapsed_lt (hquiet : dispatcher.Quiet) (htable : table ≠ [])
    (hu : Chronicle pacing dispatcher none table u)
    (hv : Chronicle pacing dispatcher (some c) table v) (hlt : u.outcome.elapsed < c) :
    v.outcome.cancelled = false := by
  by_contra hc
  rw [Bool.not_eq_false] at hc
  have helapsed := Option.some.inj (hv.cancelled_of_quiet hquiet hc)
  obtain ⟨call, hcall, hends⟩ := hv.elapsed_le_ends hc htable
  have := hu.ends_le_elapsed (hu.open_of_quiet hquiet) call hcall
  exact absurd (hends.trans this) (helapsed ▸ hlt).not_ge

/-- A replay is cancelled when it would last longer. -/
theorem cancelled_of_lt_elapsed (hquiet : dispatcher.Quiet) (htable : table ≠ [])
    (hu : Chronicle pacing dispatcher none table u)
    (hv : Chronicle pacing dispatcher (some c) table v) (hlt : c < u.outcome.elapsed) :
    v.outcome.cancelled = true := by
  by_contra hc
  rw [Bool.not_eq_true] at hc
  obtain ⟨call, hcall, hends⟩ := hu.ends_eq_elapsed (hu.open_of_quiet hquiet) htable
  have := hv.ends_lt_outer hc call hcall c rfl
  exact absurd this (hends ▸ hlt).not_gt

theorem length_take_dispatched {outer : Option Time}
    (h : Chronicle pacing dispatcher outer table u) :
    (table.take u.outcome.dispatched).length = u.outcome.dispatched := by
  rw [List.length_take, Nat.min_eq_left h.dispatched_le]

/-- The calls of a replay that is cancelled from outside are those that start before. -/
theorem calls_eq_filter (hquiet : dispatcher.Quiet)
    (hv : Chronicle pacing dispatcher (some c) table v) (hc : v.outcome.cancelled = true) :
    v.calls = table.filter fun call => decide (call.start < c) := by
  have helapsed := Option.some.inj (hv.cancelled_of_quiet hquiet hc)
  have hbefore : (table.take v.outcome.dispatched).filter (fun call => decide (call.start < c)) =
      table.take v.outcome.dispatched :=
    List.filter_eq_self.2 fun call hcall => decide_eq_true (hv.start_lt_outer call hcall c rfl)
  have hafter : (table.drop v.outcome.dispatched).filter (fun call => decide (call.start < c)) =
      [] := by
    refine List.filter_eq_nil_iff.2 fun call hcall => ?_
    have := hv.elapsed_le_start hc call hcall
    simpa [helapsed] using this
  rw [hv.calls_eq_of_quiet fun call _ => hquiet _]
  conv_rhs => rw [← List.take_append_drop v.outcome.dispatched table]
  rw [List.filter_append, hbefore, hafter, List.append_nil]

/-- The records of a replay that is cancelled from outside are those of the calls that end
before. -/
theorem records_eq_filter (hquiet : dispatcher.Quiet) (hfaithful : dispatcher.Faithful)
    (hindex : table.Pairwise fun a b => a.departure.index < b.departure.index)
    (hends : ∀ call ∈ table, dispatcher.ends call ≠ c)
    (hv : Chronicle pacing dispatcher (some c) table v) (hc : v.outcome.cancelled = true) :
    v.outcome.records = dispatcher.recordsOf (table.filter fun call =>
      decide (dispatcher.ends call < c)) := by
  have helapsed := Option.some.inj (hv.cancelled_of_quiet hquiet hc)
  rw [hv.records_eq hfaithful hindex, ← helapsed, hv.calls_eq_filter hquiet hc, List.filter_filter]
  congr 1
  refine List.filter_congr fun call hcall => ?_
  rw [Pacing.counts_of_ne (hends call hcall)]
  have hstart : dispatcher.ends call < c → call.start < c :=
    (dispatcher.start_le_ends call).trans_lt
  rw [← Bool.decide_and, decide_eq_decide]
  exact and_iff_left_of_imp hstart

theorem truncated (hquiet : dispatcher.Quiet) (hfaithful : dispatcher.Faithful)
    (htable : table ≠ [])
    (hindex : table.Pairwise fun a b => a.departure.index < b.departure.index)
    (hends : ∀ call ∈ table, dispatcher.ends call ≠ c)
    (hu : Chronicle pacing dispatcher none table u)
    (hv : Chronicle pacing dispatcher (some c) table v) (hlt : c < u.outcome.elapsed) :
    Truncated dispatcher c u v := by
  have hc := hu.cancelled_of_lt_elapsed hquiet htable hv hlt
  have hopen := hu.open_of_quiet hquiet
  have hcalls := hv.calls_eq_of_quiet fun call _ => hquiet _
  have hnodup : (table.map (·.departure.index)).Nodup :=
    List.pairwise_map.2 (hindex.imp ne_of_lt)
  refine
    { cancelled := hc
      elapsed_eq := (Option.some.inj (hv.cancelled_of_quiet hquiet hc)).symm
      total_eq := hv.total_eq.trans hu.total_eq.symm
      calls_eq := by rw [hu.calls_eq_table hopen, hv.calls_eq_filter hquiet hc]
      dispatched_eq := by rw [hcalls, hv.length_take_dispatched]
      records_eq := ?_
      maxLag_eq := hcalls ▸ hv.maxLag_eq }
  rw [hv.records_eq_filter hquiet hfaithful hindex hends hc,
    hu.records_eq_of_open hfaithful hindex hopen, hu.calls_eq_table hopen]
  -- the index of a record tells whose record it is, so it is cut off with its call
  refine Dispatcher.recordsOf_filter fun call hcall m hm => ?_
  rw [Bool.eq_iff_iff, List.any_eq_true, decide_eq_true_eq, (hfaithful _ m hm).index_eq]
  constructor
  · rintro ⟨other, hother, hsame⟩
    obtain ⟨heq, hlt⟩ := of_decide_eq_true hsame
    rwa [List.inj_on_of_nodup_map hnodup hother hcall heq] at hlt
  · intro hlt
    exact ⟨call, hcall, decide_eq_true ⟨rfl, hlt⟩⟩

/-- A replay that is cancelled before its start makes no call. -/
theorem calls_eq_nil (h : Chronicle pacing dispatcher (some 0) table v) (htable : table ≠ []) :
    v.calls = [] ∧ v.outcome.dispatched = 0 ∧ v.outcome.cancelled = true := by
  have htake : table.take v.outcome.dispatched = [] :=
    List.eq_nil_iff_forall_not_mem.2 fun call hcall =>
      Nat.not_lt_zero _ (h.start_lt_outer call hcall 0 rfl)
  have hdispatched : v.outcome.dispatched = 0 := by
    rw [← h.length_take_dispatched, htake, List.length_nil]
  refine ⟨List.prefix_nil.1 (htake ▸ h.calls_prefix), hdispatched, ?_⟩
  by_contra hc
  rw [Bool.not_eq_true] at hc
  exact htable (List.length_eq_zero_iff.1 ((h.dispatched_eq hc).symm.trans hdispatched))

end Chronicle

/-- Cancelling a quiet replay from outside, at a time at which no call of it starts or ends, cuts
it off there and changes nothing before; cancelled before its start it makes no call. -/
theorem cancellation_truncates (scale : Double) (pacing : Pacing) (dispatcher : Dispatcher)
    (events : List Event) (hscale : validateScale scale = .ok ())
    (hevents : Event.validate events = .ok ()) (hquiet : dispatcher.Quiet)
    (hfaithful : dispatcher.Faithful) :
    (∃ u, run scale pacing dispatcher none events = .ok u ∧ u.value.outcome.cancelled = false ∧
        (∀ c, (∀ call ∈ u.value.calls, call.start ≠ c ∧ dispatcher.ends call ≠ c) →
          ∃ v, run scale pacing dispatcher (some c) events = .ok v ∧
            (u.value.outcome.elapsed < c → v = u) ∧
            (c < u.value.outcome.elapsed → Truncated dispatcher c u.value v.value)) ∧
        ∃ v, run scale pacing dispatcher (some 0) events = .ok v ∧
          v.value.calls = [] ∧ v.value.outcome.dispatched = 0 ∧
          v.value.outcome.cancelled = true) ∨
      ∃ i event, events[i]? = some event ∧ ¬ Departure.InRange (event.offset * scale) ∧
        ∀ cancelAt, run scale pacing dispatcher cancelAt events =
          .error ⟨.trace (.events (.outOfRange i (event.offset * scale))), [], []⟩ := by
  simp only [run_eq]
  rcases departures_cases hscale hevents with ⟨ds, hds⟩ | ⟨i, event, hi, hrange, hds⟩
  · refine .inl ⟨runPaced pacing dispatcher none ds, by rw [hds]; rfl, ?_⟩
    have hu := chronicle pacing dispatcher none ds
    have hopen := hu.open_of_quiet hquiet
    have hplan : plan pacing dispatcher ds ≠ [] := plan_ne_nil (ne_nil_of_departures hds hevents)
    have hindex : (plan pacing dispatcher ds).Pairwise fun a b =>
        a.departure.index < b.departure.index :=
      pairwise_index_plan (pairwise_index_departures hds)
    refine ⟨hopen, fun c hc => ?_, ?_⟩
    · have hv := chronicle pacing dispatcher (some c) ds
      rw [hu.calls_eq_table hopen] at hc
      refine ⟨runPaced pacing dispatcher (some c) ds, by rw [hds]; rfl, fun hlt => ?_,
        fun hlt => ?_⟩
      · exact runPaced_of_open hquiet (hu.open_of_elapsed_lt hquiet hplan hv hlt)
      · have hends := fun call hcall => (hc call hcall).2
        exact hu.truncated hquiet hfaithful hplan hindex hends hv hlt
    · refine ⟨runPaced pacing dispatcher (some 0) ds, by rw [hds]; rfl, ?_⟩
      exact (chronicle pacing dispatcher (some 0) ds).calls_eq_nil hplan
  · exact .inr ⟨i, event, hi, hrange, fun _ => by rw [hds]; rfl⟩

/-- Two dispatches are under way when the replay is cancelled. -/
theorem cancellation_truncates_sample :
    validateScale (Double.ofNat 2) = .ok () ∧ Event.validate sampleEvents = .ok () ∧
      (sampleScript none).dispatcher.Quiet ∧ (sampleScript none).dispatcher.Faithful ∧
      ∃ u v, run (Double.ofNat 2) .concurrent (sampleScript none).dispatcher none sampleEvents =
          .ok u ∧
        run (Double.ofNat 2) .concurrent (sampleScript none).dispatcher (some 1000001)
          sampleEvents = .ok v ∧
        Truncated (sampleScript none).dispatcher 1000001 u.value v.value := by
  have hquiet := Script.quiet_dispatcher (s := sampleScript none) rfl
  have hfaithful := (sampleScript none).faithful_dispatcher
  have hlate : (run (Double.ofNat 2) .concurrent (sampleScript none).dispatcher none
      sampleEvents).toOption.any (fun u => decide (1000001 < u.value.outcome.elapsed) &&
        u.value.calls.all fun call => decide (call.start ≠ 1000001 ∧
          (sampleScript none).dispatcher.ends call ≠ 1000001)) = true := by decide +kernel
  refine ⟨validateScale_two, validate_sampleEvents, hquiet, hfaithful, ?_⟩
  rcases cancellation_truncates (Double.ofNat 2) .concurrent _ _ validateScale_two
    validate_sampleEvents hquiet hfaithful with ⟨u, hu, -, hcut, -⟩ | ⟨i, event, -, -, herror⟩
  · rw [hu] at hlate
    obtain ⟨hlt, hcalls⟩ := Bool.and_eq_true_iff.1 hlate
    obtain ⟨v, hv, -, htruncated⟩ := hcut 1000001 fun call hcall =>
      of_decide_eq_true (List.all_eq_true.1 hcalls call hcall)
    exact ⟨u, v, hu, hv, htruncated (of_decide_eq_true hlt)⟩
  · rw [herror] at hlate
    cases hlate

end LoadReplay.Replay
