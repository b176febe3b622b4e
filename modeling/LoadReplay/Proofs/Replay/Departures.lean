import LoadReplay.Proofs.Except
import LoadReplay.Replay.Run

/-!
# Departures

A departure `IsFor` an event when it carries the index, the scaled offset and the deadline of the
event. Events that can be replayed have one departure each, in their order
(`Replay.isFor_of_departures`); otherwise the clock cannot tell the deadline of one of them
(`Replay.departures_cases`), and the fault names the first such event
(`Departure.ofEvents_eq_error_iff`).
-/

namespace LoadReplay

namespace Departure

/-- Whether the clock can tell the time at so many seconds. -/
def InRange (seconds : Double) : Prop :=
  ∃ deadline, Duration.ofSeconds? seconds = some deadline ∧
    deadline < maxSeconds * Duration.second

/-- The departure of the event at an index. -/
structure IsFor (scale : Double) (events : List Event) (index : Nat) (d : Departure) : Prop where
  index_eq : d.index = index
  event_eq : events[index]? = some d.event
  offset_eq : d.offset = d.event.offset * scale
  deadline_eq : Duration.ofSeconds? d.offset = some d.deadline

variable {scale : Double}

theorem of_eq_ok {index : Nat} {event : Event} {d : Departure}
    (h : of scale index event = .ok d) :
    d.index = index ∧ d.event = event ∧ d.offset = event.offset * scale ∧
      Duration.ofSeconds? d.offset = some d.deadline := by
  simp only [of] at h
  split at h
  next deadline hdeadline =>
    split at h
    · cases h
      exact ⟨rfl, rfl, rfl, hdeadline⟩
    · cases h
  · cases h

theorem of_of_inRange {event : Event} (index : Nat) (h : InRange (event.offset * scale)) :
    ∃ d, of scale index event = .ok d := by
  obtain ⟨deadline, hdeadline, hlt⟩ := h
  exact ⟨⟨index, event.offset * scale, deadline, event⟩, by simp only [of, hdeadline, if_pos hlt]⟩

theorem of_of_not_inRange {event : Event} (index : Nat) (h : ¬ InRange (event.offset * scale)) :
    of scale index event = .error (.outOfRange index (event.offset * scale)) := by
  simp only [of]
  split
  next deadline hdeadline => rw [if_neg fun hlt => h ⟨deadline, hdeadline, hlt⟩]
  next => rfl

/-- The departures of events are those of the single events. -/
theorem map_ofEvents {index : Nat} {events : List Event} {ds : List Departure}
    (h : ofEvents scale index events = .ok ds) :
    ds.map Except.ok = events.mapIdx fun i event => of scale (index + i) event := by
  induction events generalizing index ds with
  | nil =>
    cases h
    rfl
  | cons event events ih =>
    obtain ⟨d, hd, h⟩ := Except.bind_eq_ok_iff.1 h
    obtain ⟨ds, hds, h⟩ := Except.bind_eq_ok_iff.1 h
    cases h
    rw [List.map_cons, List.mapIdx_cons, ih hds, ← hd]
    simp only [Nat.add_zero, Nat.add_assoc, Nat.add_comm 1]

/-! ## The first event out of range -/

/-- The event at an index is the first one whose time the clock cannot tell. -/
structure FirstOutOfRange (scale : Double) (events : List Event) (i : Nat) (event : Event) :
    Prop where
  event_eq : events[i]? = some event
  not_inRange : ¬ InRange (event.offset * scale)
  inRange_of_lt : ∀ j < i, ∀ earlier, events[j]? = some earlier → InRange (earlier.offset * scale)

theorem FirstOutOfRange.head {event : Event} (h : ¬ InRange (event.offset * scale))
    (events : List Event) : FirstOutOfRange scale (event :: events) 0 event :=
  ⟨rfl, h, nofun⟩

theorem firstOutOfRange_cons_iff {e event : Event} {events : List Event} {i : Nat}
    (h : InRange (e.offset * scale)) : FirstOutOfRange scale (e :: events) i event ↔
      ∃ j, i = j + 1 ∧ FirstOutOfRange scale events j event := by
  constructor
  · rintro ⟨hevent, hrange, hearlier⟩
    cases i with
    | zero =>
      cases hevent
      exact absurd h hrange
    | succ i =>
      exact ⟨i, rfl, hevent, hrange, fun j hj => hearlier (j + 1) (Nat.succ_lt_succ hj)⟩
  · rintro ⟨i, rfl, hevent, hrange, hearlier⟩
    refine ⟨hevent, hrange, fun j hj earlier hget => ?_⟩
    cases j with
    | zero =>
      cases hget
      exact h
    | succ j => exact hearlier j (Nat.lt_of_succ_lt_succ hj) earlier hget

/-- Events have no departures when the clock cannot tell the time of one of them; the first of
these is the fault. -/
theorem ofEvents_eq_error_iff {index : Nat} {events : List Event} {fault : EventFault} :
    ofEvents scale index events = .error fault ↔ ∃ i event,
      FirstOutOfRange scale events i event ∧
        fault = .outOfRange (index + i) (event.offset * scale) := by
  induction events generalizing index with
  | nil =>
    refine ⟨nofun, ?_⟩
    rintro ⟨i, event, ⟨hevent, -, -⟩, -⟩
    cases hevent
  | cons e events ih =>
    by_cases hrange : InRange (e.offset * scale)
    · obtain ⟨d, hd⟩ := of_of_inRange index hrange
      have htail : ofEvents scale index (e :: events) = .error fault ↔
          ofEvents scale (index + 1) events = .error fault := by
        rw [ofEvents, hd]
        simp [Except.bind_eq_error_iff]
      rw [htail, ih]
      constructor
      · rintro ⟨i, event, hfirst, rfl⟩
        refine ⟨i + 1, event, (firstOutOfRange_cons_iff hrange).2 ⟨i, rfl, hfirst⟩, ?_⟩
        rw [Nat.add_right_comm, Nat.add_assoc]
      · rintro ⟨i, event, hfirst, rfl⟩
        obtain ⟨j, rfl, hlater⟩ := (firstOutOfRange_cons_iff hrange).1 hfirst
        refine ⟨j, event, hlater, ?_⟩
        rw [Nat.add_right_comm, Nat.add_assoc]
    · have hhead : ofEvents scale index (e :: events) =
          .error (.outOfRange index (e.offset * scale)) := by
        rw [ofEvents, of_of_not_inRange index hrange]
        rfl
      rw [hhead]
      constructor
      · rintro ⟨⟩
        exact ⟨0, e, .head hrange events, rfl⟩
      · rintro ⟨i, event, ⟨hevent, -, hearlier⟩, rfl⟩
        cases i with
        | zero =>
          cases hevent
          rfl
        | succ i => exact absurd (hearlier 0 (Nat.succ_pos i) e rfl) hrange

end Departure

/-! ## Scales -/

theorem validateScale_eq_ok_iff {scale : Double} :
    validateScale scale = .ok () ↔ scale.isFinite = true ∧ 0 < scale := by
  unfold validateScale
  split
  next h => simpa using h
  next h => simpa using h

theorem validateScale_eq_error_iff {scale : Double} {fault : ConfigurationFault} :
    validateScale scale = .error fault ↔
      ¬ (scale.isFinite = true ∧ 0 < scale) ∧ fault = .scale scale := by
  have hiff : (scale.isFinite && decide (0 < scale)) = true ↔
      scale.isFinite = true ∧ 0 < scale := by simp
  unfold validateScale
  split
  next h => simp [hiff.1 h]
  next h =>
    rw [hiff] at h
    rw [Except.error.injEq, eq_comm]
    exact (and_iff_right h).symm

namespace Replay

variable {scale : Double} {events : List Event} {ds : List Departure}

/-- Departures are made for a scale and events that are accepted. -/
theorem departures_eq_ok_iff : departures scale events = .ok ds ↔
    validateScale scale = .ok () ∧ Event.validate events = .ok () ∧
      Departure.ofEvents scale 0 events = .ok ds := by
  simp only [departures, Except.bind_eq_ok_iff, Except.mapError_eq_ok_iff]
  exact ⟨fun ⟨_, hscale, _, hevents, hds⟩ => ⟨hscale, hevents, hds⟩,
    fun ⟨hscale, hevents, hds⟩ => ⟨_, hscale, _, hevents, hds⟩⟩

/-- Accepted events have departures, unless the clock cannot tell the time of one of them. -/
theorem departures_cases (hscale : validateScale scale = .ok ())
    (hevents : Event.validate events = .ok ()) :
    (∃ ds, departures scale events = .ok ds) ∨
      ∃ i event, events[i]? = some event ∧ ¬ Departure.InRange (event.offset * scale) ∧
        departures scale events =
          .error (.trace (.events (.outOfRange i (event.offset * scale)))) := by
  cases hds : Departure.ofEvents scale 0 events with
  | ok ds => exact .inl ⟨ds, departures_eq_ok_iff.2 ⟨hscale, hevents, hds⟩⟩
  | error fault =>
    obtain ⟨i, event, hfirst, rfl⟩ := Departure.ofEvents_eq_error_iff.1 hds
    rw [Nat.zero_add] at hds
    refine .inr ⟨i, event, hfirst.event_eq, hfirst.not_inRange, ?_⟩
    rw [departures, hscale, hevents, hds]
    rfl

/-- The departures are those of the events, one by one. -/
theorem map_departures (h : departures scale events = .ok ds) :
    ds.map Except.ok = events.mapIdx (Departure.of scale) := by
  have hmap := Departure.map_ofEvents (departures_eq_ok_iff.1 h).2.2
  simpa only [Nat.zero_add] using hmap

theorem length_departures (h : departures scale events = .ok ds) : ds.length = events.length := by
  have := congrArg List.length (map_departures h)
  rwa [List.length_map, List.length_mapIdx] at this

theorem ne_nil_of_departures (h : departures scale events = .ok ds)
    (hevents : Event.validate events = .ok ()) : ds ≠ [] := by
  rintro rfl
  have hnil : events = [] := List.length_eq_zero_iff.1 (length_departures h).symm
  rw [hnil] at hevents
  cases hevents

theorem isFor_of_departures (h : departures scale events = .ok ds) {i : Nat} {d : Departure}
    (hd : ds[i]? = some d) : d.IsFor scale events i := by
  have hget : (ds.map Except.ok)[i]? = _ := congrArg (·[i]?) (map_departures h)
  rw [List.getElem?_map, List.getElem?_mapIdx, hd, Option.map_some, eq_comm,
    Option.map_eq_some_iff] at hget
  obtain ⟨event, hevent, hof⟩ := hget
  obtain ⟨hindex, rfl, hoffset, hdeadline⟩ := Departure.of_eq_ok hof
  exact ⟨hindex, hevent, hoffset, hdeadline⟩

/-- The departures are in the order of the events. -/
theorem pairwise_index_departures (h : departures scale events = .ok ds) :
    ds.Pairwise fun a b => a.index < b.index := by
  rw [List.pairwise_iff_getElem]
  intro i j hi hj hij
  rw [(isFor_of_departures h (List.getElem?_eq_getElem hi)).index_eq,
    (isFor_of_departures h (List.getElem?_eq_getElem hj)).index_eq]
  exact hij

end Replay

end LoadReplay
