import LoadReplay.Event
import LoadReplay.Proofs.Double.Order

/-!
# Accepted events

`Event.validate` looks at one event after the other, and only at the offset of the event before. It
accepts the sequences whose events are well-formed and whose offsets do not decrease, from any event
to any later one (`Event.validate_eq_ok_iff`).
-/

namespace LoadReplay.Event

open Double

/-- What an event has to be wherever it stands. -/
structure WellFormed (e : Event) : Prop where
  isFinite_offset : e.offset.isFinite = true
  zero_le_offset : 0 ≤ e.offset
  bucket_ne : e.bucket ≠ ""
  prompt_ne : e.prompt ≠ ""

instance (e : Event) : Decidable e.WellFormed :=
  decidable_of_iff (e.offset.isFinite = true ∧ 0 ≤ e.offset ∧ e.bucket ≠ "" ∧ e.prompt ≠ "")
    ⟨fun ⟨hfinite, hpos, hbucket, hprompt⟩ => ⟨hfinite, hpos, hbucket, hprompt⟩,
      fun h => ⟨h.isFinite_offset, h.zero_le_offset, h.bucket_ne, h.prompt_ne⟩⟩

theorem WellFormed.offset_ne_nan {e : Event} (h : e.WellFormed) : e.offset ≠ .nan :=
  ne_nan_of_isFinite h.isFinite_offset

theorem zero_ne_nan : (0 : Double) ≠ .nan := by decide

theorem fault?_eq_none_iff {index : Nat} {previous : Double} (hprevious : previous ≠ .nan)
    {e : Event} : e.fault? index previous = none ↔ e.WellFormed ∧ previous ≤ e.offset := by
  unfold fault?
  constructor
  · intro h
    split at h
    · cases h
    next hoffset =>
      simp only [Bool.or_eq_true, Bool.not_eq_true', decide_eq_true_eq, not_or,
        Bool.not_eq_false] at hoffset
      have hnan := ne_nan_of_isFinite hoffset.1
      split at h
      · cases h
      next hsorted =>
        split at h
        · cases h
        next hbucket =>
          split at h
          · cases h
          next hprompt =>
            exact ⟨⟨hoffset.1, (not_lt_iff_le hnan zero_ne_nan).1 hoffset.2, hbucket, hprompt⟩,
              (not_lt_iff_le hnan hprevious).1 hsorted⟩
  · rintro ⟨h, hle⟩
    have hneg : ¬ e.offset < 0 := (not_lt_iff_le h.offset_ne_nan zero_ne_nan).2 h.zero_le_offset
    have hsorted : ¬ e.offset < previous := (not_lt_iff_le h.offset_ne_nan hprevious).2 hle
    simp [h.isFinite_offset, hneg, hsorted, h.bucket_ne, h.prompt_ne]

theorem firstFault?_eq_none_iff {index : Nat} {previous : Double} (hprevious : previous ≠ .nan)
    {events : List Event} : firstFault? index previous events = none ↔
      (∀ e ∈ events, e.WellFormed) ∧ (previous :: events.map (·.offset)).Pairwise (· ≤ ·) := by
  induction events generalizing index previous with
  | nil => simp [firstFault?]
  | cons e events ih =>
    rw [firstFault?, Option.or_eq_none_iff, fault?_eq_none_iff hprevious, List.forall_mem_cons,
      List.map_cons]
    constructor
    · rintro ⟨⟨he, hle⟩, hevents⟩
      obtain ⟨hall, hpair⟩ := (ih he.offset_ne_nan).1 hevents
      refine ⟨⟨he, hall⟩, List.pairwise_cons.2 ⟨List.forall_mem_cons.2 ⟨hle, ?_⟩, hpair⟩⟩
      exact fun offset hoffset => Double.le_trans hle (List.rel_of_pairwise_cons hpair hoffset)
    · rintro ⟨⟨he, hall⟩, hpair⟩
      obtain ⟨hprev, hpair⟩ := List.pairwise_cons.1 hpair
      exact ⟨⟨he, hprev _ (List.mem_cons_self ..)⟩, (ih he.offset_ne_nan).2 ⟨hall, hpair⟩⟩

/-- The first fault is that of an event behind events that have none. -/
theorem firstFault?_eq_some_iff {index : Nat} {previous : Double} {events : List Event}
    {fault : EventFault} : firstFault? index previous events = some fault ↔
      ∃ before e after, events = before ++ e :: after ∧ firstFault? index previous before = none ∧
        e.fault? (index + before.length) ((before.map (·.offset)).getLastD previous) =
          some fault := by
  induction events generalizing index previous with
  | nil => simp [firstFault?]
  | cons e events ih =>
    rw [firstFault?, Option.or_eq_some_iff, ih]
    constructor
    · rintro (h | ⟨hnone, before, f, after, rfl, hbefore, hf⟩)
      · exact ⟨[], e, events, rfl, rfl, h⟩
      · refine ⟨e :: before, f, after, rfl, ?_, ?_⟩
        · rw [firstFault?, hnone, hbefore, Option.none_or]
        · rwa [List.map_cons, List.getLastD_cons, List.length_cons, Nat.add_comm before.length,
            ← Nat.add_assoc]
    · rintro ⟨_ | ⟨_, before⟩, f, after, heq, hbefore, hf⟩
      · cases heq
        exact .inl hf
      · cases heq
        rw [firstFault?, Option.or_eq_none_iff] at hbefore
        rw [List.map_cons, List.getLastD_cons, List.length_cons, Nat.add_comm before.length,
          ← Nat.add_assoc] at hf
        exact .inr ⟨hbefore.1, before, f, after, rfl, hbefore.2, hf⟩

/-- What can be wrong with an event that is in order: its offset is not finite, or it has no bucket
or no text. -/
theorem fault?_of_le {index : Nat} {previous : Double} {e : Event} {fault : EventFault}
    (hpos : 0 ≤ e.offset) (hle : previous ≤ e.offset) (h : e.fault? index previous = some fault) :
    (fault = .badOffset index e.offset ∧ e.offset.isFinite = false) ∨
      (fault = .noBucket index ∧ e.bucket = "") ∨
      (fault = .noPrompt index e.bucket ∧ e.prompt = "") := by
  have hneg : ¬ e.offset < 0 := (not_lt_iff_le (ne_nan_of_le hpos).2 zero_ne_nan).2 hpos
  have hsorted : ¬ e.offset < previous :=
    (not_lt_iff_le (ne_nan_of_le hle).2 (ne_nan_of_le hle).1).2 hle
  rw [fault?, decide_eq_false hneg, Bool.or_false, if_neg hsorted] at h
  split_ifs at h with hfinite hbucket hprompt
  · exact .inl ⟨(Option.some.inj h).symm, by simpa using hfinite⟩
  · exact .inr (.inl ⟨(Option.some.inj h).symm, hbucket⟩)
  · exact .inr (.inr ⟨(Option.some.inj h).symm, hprompt⟩)

theorem validate_eq_error_iff {events : List Event} {fault : EventFault} (h : events ≠ []) :
    validate events = .error fault ↔ firstFault? 0 0 events = some fault := by
  rw [validate, List.isEmpty_eq_false_iff.2 h, if_neg Bool.false_ne_true]
  cases firstFault? 0 0 events <;> simp

/-- The accepted sequences are those of well-formed events with offsets that do not decrease. -/
theorem validate_eq_ok_iff {events : List Event} : validate events = .ok () ↔
    events ≠ [] ∧ (∀ e ∈ events, e.WellFormed) ∧
      (events.map (·.offset)).Pairwise (· ≤ ·) := by
  unfold validate
  cases events with
  | nil => simp
  | cons e events =>
    have hiff : firstFault? 0 0 (e :: events) = none ↔ _ := firstFault?_eq_none_iff zero_ne_nan
    rw [List.pairwise_cons] at hiff
    cases hfault : firstFault? 0 0 (e :: events) with
    | some fault =>
      simp only [List.isEmpty_cons, Bool.false_eq_true, if_false, reduceCtorEq, false_iff]
      rintro ⟨-, hall, hpair⟩
      rw [hiff.2 ⟨hall, ?_, hpair⟩] at hfault
      · cases hfault
      · intro offset hoffset
        obtain ⟨event, hevent, rfl⟩ := List.mem_map.1 hoffset
        exact (hall event hevent).zero_le_offset
    | none =>
      obtain ⟨hall, -, hpair⟩ := hiff.1 hfault
      simp only [List.isEmpty_cons, Bool.false_eq_true, if_false, true_iff]
      exact ⟨List.cons_ne_nil _ _, hall, hpair⟩

end LoadReplay.Event
