import LoadReplay.Proofs.Replay.Safety
import LoadReplay.Report.Summary

/-!
# The records of a replay

`Replay.records_sound` is about the records of every replay of a faithful dispatcher: none is lost,
none comes twice, and each is of its event, in whatever order the dispatches end. A replay that is
not cancelled has the record of every event whose dispatch left one; if all did, then the records
are the events, row by row, and what they say of them depends neither on the dispatcher nor on the
pacing.
-/

namespace LoadReplay

/-- The cells of an event in a report, which a replay does not change. -/
def Event.cells (scale : Double) (e : Event) : List (Option String) :=
  [some (e.offset * scale).plain, some e.bucket, some (Text.ofNat e.contextTokens),
    some (Text.ofNat e.generatedTokens)]

theorem Summary.succeeded_add_failed (o : Outcome) :
    (Summary.of o).succeeded + (Summary.of o).failed = o.records.length :=
  Nat.add_sub_of_le List.countP_le_length

namespace Replay

/-- What the records of a finished replay of events keep to. -/
structure SoundRecords (scale : Double) (dispatcher : Dispatcher) (cancelAt : Option Time)
    (events : List Event) (f : Finished) : Prop where
  pairwise_index : f.outcome.records.Pairwise fun a b => a.index < b.index
  index_lt_dispatched : ∀ m ∈ f.outcome.records, m.index < f.outcome.dispatched
  of_event : ∀ m ∈ f.outcome.records, ∃ event, events[m.index]? = some event ∧
    m.offset = event.offset * scale ∧ m.bucket = event.bucket ∧
    m.contextTokens = event.contextTokens ∧ m.generatedTokens = event.generatedTokens
  of_call : ∀ m ∈ f.outcome.records, ∃ call ∈ f.calls,
    (dispatcher call.departure).ending = .measured m ∧ dispatcher.ends call ≤ f.outcome.elapsed
  of_returned : ∀ call ∈ f.calls, ∀ m, (dispatcher call.departure).ending = .measured m →
    (∀ t ∈ cancelAt, dispatcher.ends call < t) →
    (∀ other ∈ f.calls, (dispatcher other.departure).cancels = true →
      dispatcher.ends call ≤ other.start) →
    m ∈ f.outcome.records
  summary_eq :
    (Summary.of f.outcome).succeeded + (Summary.of f.outcome).failed = f.outcome.records.length

/-- What the records of a replay keep to that is not cancelled: each event left the record that its
dispatch ended with, if any; the columns of the events are told by the events. -/
structure CompleteRecords (scale : Double) (dispatcher : Dispatcher) (events : List Event)
    (f : Finished) : Prop where
  dispatched_eq : f.outcome.dispatched = f.outcome.total
  total_eq : f.outcome.total = events.length
  records_eq : ∃ ds, departures scale events = .ok ds ∧
    f.outcome.records = ds.flatMap fun d => Sequential.recordsOf (dispatcher d).ending
  length_records : dispatcher.Measures f.calls → f.outcome.records.length = f.outcome.total
  index_eq : dispatcher.Measures f.calls →
    ∀ (i : Nat) (m : Measurement), f.outcome.records[i]? = some m → m.index = i
  cells_eq : dispatcher.Measures f.calls →
    (f.outcome.records.map fun m => m.cells.take 4) = events.map (Event.cells scale)

variable {scale : Double} {pacing : Pacing} {dispatcher : Dispatcher} {cancelAt : Option Time}
  {events : List Event} {ds : List Departure} {f : Finished}

namespace Chronicle

/-- A call that returned before the cancellation returned before the end of the replay. -/
theorem ends_le_elapsed_of_returned {table : List Call}
    (h : Chronicle pacing dispatcher cancelAt table f) {call : Call} (hcall : call ∈ f.calls)
    (houter : ∀ t ∈ cancelAt, dispatcher.ends call < t)
    (hcancels : ∀ other ∈ f.calls, (dispatcher other.departure).cancels = true →
      dispatcher.ends call ≤ other.start) :
    dispatcher.ends call ≤ f.outcome.elapsed := by
  cases hc : f.outcome.cancelled with
  | false => exact h.ends_le_elapsed hc call (h.calls_prefix_table.subset hcall)
  | true =>
    rcases h.cancel_source hc with hsource | ⟨other, hother, hcancel, hstart⟩
    · exact (houter _ hsource).le
    · exact hstart ▸ hcancels other hother hcancel

theorem calls_eq_table {table : List Call} (h : Chronicle pacing dispatcher cancelAt table f)
    (hopen : f.outcome.cancelled = false) : f.calls = table := by
  rw [h.calls_eq_of_open hopen, h.dispatched_eq hopen, List.take_length]

/-- All calls of a replay that is not cancelled leave their records. -/
theorem records_eq_of_open {table : List Call} (h : Chronicle pacing dispatcher cancelAt table f)
    (hfaithful : dispatcher.Faithful)
    (hindex : table.Pairwise fun a b => a.departure.index < b.departure.index)
    (hopen : f.outcome.cancelled = false) : f.outcome.records = dispatcher.recordsOf table := by
  rw [h.records_eq hfaithful hindex, h.calls_eq_table hopen, List.filter_eq_self.2]
  intro call hcall
  exact Pacing.counts_of_lt (h.ends_le_elapsed hopen call hcall) (h.ends_lt_outer hopen call hcall)

variable (h : Chronicle pacing dispatcher cancelAt (plan pacing dispatcher ds) f)
  (hfaithful : dispatcher.Faithful) (hds : departures scale events = .ok ds)
include h hfaithful hds

theorem records_eq_recordsOf :
    f.outcome.records = dispatcher.recordsOf (f.calls.filter fun call =>
      pacing.counts cancelAt f.outcome.elapsed (dispatcher.ends call)) :=
  h.records_eq hfaithful (pairwise_index_plan (pairwise_index_departures hds))

/-- A record is that of a call that counts. -/
theorem mem_records {m : Measurement} :
    m ∈ f.outcome.records ↔ ∃ call ∈ f.calls,
      pacing.counts cancelAt f.outcome.elapsed (dispatcher.ends call) = true ∧
      (dispatcher call.departure).ending = .measured m := by
  rw [h.records_eq_recordsOf hfaithful hds, Dispatcher.mem_recordsOf]
  simp only [List.mem_filter, and_assoc]

theorem soundRecords : SoundRecords scale dispatcher cancelAt events f where
  pairwise_index := by
    rw [h.records_eq_recordsOf hfaithful hds]
    refine hfaithful.pairwise_recordsOf (List.Pairwise.filter _ ?_)
    exact (pairwise_index_plan (pairwise_index_departures hds)).sublist h.calls_prefix_table.sublist
  index_lt_dispatched m hm := by
    obtain ⟨call, hcall, -, hending⟩ := (h.mem_records hfaithful hds).1 hm
    obtain ⟨i, hi, hfor⟩ := (h.safeCalls hds).exists_isFor hcall
    rwa [(hfaithful _ m hending).index_eq, hfor.index_eq]
  of_event m hm := by
    obtain ⟨call, hcall, -, hending⟩ := (h.mem_records hfaithful hds).1 hm
    obtain ⟨i, -, hfor⟩ := (h.safeCalls hds).exists_isFor hcall
    obtain ⟨hindex, hoffset, hbucket, hcontext, hgenerated⟩ := hfaithful _ m hending
    refine ⟨call.departure.event, ?_, hoffset.trans hfor.offset_eq, hbucket, hcontext, hgenerated⟩
    rw [hindex, hfor.index_eq, hfor.event_eq]
  of_call m hm := by
    obtain ⟨call, hcall, hcounts, hending⟩ := (h.mem_records hfaithful hds).1 hm
    exact ⟨call, hcall, hending, Pacing.le_of_counts hcounts⟩
  of_returned call hcall m hending houter hcancels := by
    refine (h.mem_records hfaithful hds).2 ⟨call, hcall, Pacing.counts_of_lt ?_ houter, hending⟩
    exact h.ends_le_elapsed_of_returned hcall houter hcancels
  summary_eq := Summary.succeeded_add_failed _

section

variable (hopen : f.outcome.cancelled = false)
include hopen

theorem records_eq_recordsOf_calls : f.outcome.records = dispatcher.recordsOf f.calls := by
  rw [h.calls_eq_table hopen]
  exact h.records_eq_of_open hfaithful (pairwise_index_plan (pairwise_index_departures hds)) hopen

theorem length_records_of_measures (hmeasures : dispatcher.Measures f.calls) :
    f.outcome.records.length = f.outcome.total := by
  rw [h.records_eq_recordsOf_calls hfaithful hds hopen, ← hmeasures.forall₂_recordsOf.length_eq,
    h.calls_eq_table hopen, h.total_eq]

/-- If every call is measured, then each record stands where its event does. -/
theorem index_eq_of_measures (hmeasures : dispatcher.Measures f.calls) {i : Nat} {m : Measurement}
    (hm : f.outcome.records[i]? = some m) : m.index = i := by
  have hforall := hmeasures.forall₂_recordsOf
  rw [← h.records_eq_recordsOf_calls hfaithful hds hopen] at hforall
  obtain ⟨hi, rfl⟩ := List.getElem?_eq_some_iff.1 hm
  have hi' : i < f.calls.length := hforall.length_eq ▸ hi
  have hending := hforall.get hi' hi
  rw [List.get_eq_getElem, List.get_eq_getElem] at hending
  have hfor := (h.safeCalls hds).isFor i _ (List.getElem?_eq_getElem hi')
  rw [(hfaithful _ _ hending).index_eq, hfor.index_eq]

theorem cells_eq_of_measures (hmeasures : dispatcher.Measures f.calls) :
    (f.outcome.records.map fun m => m.cells.take 4) = events.map (Event.cells scale) := by
  refine List.ext_getElem ?_ fun i hi _ => ?_
  · rw [List.length_map, List.length_map,
      h.length_records_of_measures hfaithful hds hopen hmeasures, (h.safeCalls hds).total_eq]
  · rw [List.length_map] at hi
    obtain ⟨event, hevent, hoffset, hbucket, hcontext, hgenerated⟩ :=
      (h.soundRecords hfaithful hds).of_event _ (List.getElem_mem hi)
    have hindex := h.index_eq_of_measures hfaithful hds hopen hmeasures
      (List.getElem?_eq_getElem hi)
    rw [hindex] at hevent
    obtain ⟨hi', rfl⟩ := List.getElem?_eq_some_iff.1 hevent
    rw [List.getElem_map, List.getElem_map, Event.cells, ← hoffset, ← hbucket, ← hcontext,
      ← hgenerated]
    rfl

theorem completeRecords : CompleteRecords scale dispatcher events f where
  dispatched_eq := (h.dispatched_eq hopen).trans h.total_eq.symm
  total_eq := (h.safeCalls hds).total_eq
  records_eq := by
    refine ⟨ds, hds, ?_⟩
    rw [h.records_eq_recordsOf_calls hfaithful hds hopen, dispatcher.recordsOf_eq,
      h.calls_eq_table hopen, map_departure_plan]
  length_records := h.length_records_of_measures hfaithful hds hopen
  index_eq hmeasures _ _ := h.index_eq_of_measures hfaithful hds hopen hmeasures
  cells_eq := h.cells_eq_of_measures hfaithful hds hopen

end

end Chronicle

/-- The records of every replay of a faithful dispatcher are those of the dispatches that returned
one before the cancellation. -/
theorem records_sound (scale : Double) (pacing : Pacing) (dispatcher : Dispatcher)
    (cancelAt : Option Time) (events : List Event) (hscale : validateScale scale = .ok ())
    (hevents : Event.validate events = .ok ()) (hfaithful : dispatcher.Faithful) :
    (∃ r, run scale pacing dispatcher cancelAt events = .ok r ∧
        SoundRecords scale dispatcher cancelAt events r.value ∧
        (r.value.outcome.cancelled = false →
          CompleteRecords scale dispatcher events r.value)) ∨
      ∃ i event, events[i]? = some event ∧ ¬ Departure.InRange (event.offset * scale) ∧
        run scale pacing dispatcher cancelAt events =
          .error ⟨.trace (.events (.outOfRange i (event.offset * scale))), [], []⟩ := by
  refine (run_cases hscale hevents pacing dispatcher cancelAt).imp_left ?_
  rintro ⟨ds, hds, hrun⟩
  have h := chronicle pacing dispatcher cancelAt ds
  exact ⟨_, hrun, h.soundRecords hfaithful hds, h.completeRecords hfaithful hds⟩

/-- Events side by side, one of which panics. -/
theorem records_sound_sample :
    validateScale (Double.ofNat 2) = .ok () ∧ Event.validate sampleEvents = .ok () ∧
      (sampleScript none).dispatcher.Faithful ∧
      ∃ r, run (Double.ofNat 2) .concurrent (sampleScript none).dispatcher (some 3000000000)
          sampleEvents = .ok r ∧
        SoundRecords (Double.ofNat 2) (sampleScript none).dispatcher (some 3000000000)
          sampleEvents r.value ∧
        CompleteRecords (Double.ofNat 2) (sampleScript none).dispatcher sampleEvents r.value := by
  have hfaithful := (sampleScript none).faithful_dispatcher
  have hopen : (run (Double.ofNat 2) .concurrent (sampleScript none).dispatcher
      (some 3000000000) sampleEvents).toOption.any (!·.value.outcome.cancelled) = true := by
    decide +kernel
  refine ⟨validateScale_two, validate_sampleEvents, hfaithful, ?_⟩
  rcases records_sound (Double.ofNat 2) .concurrent _ (some 3000000000) _ validateScale_two
    validate_sampleEvents hfaithful with ⟨r, hrun, hsound, hcomplete⟩ | ⟨i, event, -, -, herror⟩
  · rw [hrun] at hopen
    exact ⟨r, hrun, hsound, hcomplete (Bool.not_eq_true' _ ▸ hopen)⟩
  · rw [herror] at hopen
    cases hopen

end Replay

end LoadReplay
