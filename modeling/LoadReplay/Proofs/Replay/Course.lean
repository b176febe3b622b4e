import LoadReplay.Proofs.Replay.Timetable

/-!
# Sound courses

`Course.Sound` is what a course keeps from the start of a replay to its end, in both pacings. It
ties the course to the calls that were *handed over*: those that were made, followed by those that
start now. The clock never passes the moment of the cancellation, and that moment is the one given
from outside or the start of a call that asked for it.

Every step of a replay is one of four on its course: it logs (`Sound.logging`), lets time pass
(`Sound.pass`), hands a departure over (`Sound.hand`) or makes a call (`Sound.call`).
-/

namespace LoadReplay.Course

/-! ## Cancellation -/

theorem isCancelled_iff {c : Course} : c.isCancelled = true ↔ ∃ t ∈ c.cancelAt, t ≤ c.now := by
  cases h : c.cancelAt <;> simp [isCancelled, h]

theorem isCancelled_eq_false_iff {c : Course} :
    c.isCancelled = false ↔ ∀ t ∈ c.cancelAt, c.now < t := by
  cases h : c.cancelAt <;> simp [isCancelled, h]

theorem cancelledBy_eq_some {c : Course} {t u : Time} :
    c.cancelledBy t = some u ↔ c.cancelAt = some u ∧ u ≤ t := by
  simp [cancelledBy, Option.filter_eq_some_iff]

theorem cancelledBy_eq_none {c : Course} {t : Time} :
    c.cancelledBy t = none ↔ ∀ u ∈ c.cancelAt, t < u := by
  simp [cancelledBy, Option.filter_eq_none_iff]

/-! ## The invariant -/

/-- What holds of a course at every moment of a replay that is cancelled from outside at `outer`,
if at all; `handed` lists the calls that were made and those that start now. -/
structure Sound (dispatcher : Dispatcher) (outer : Option Time) (handed : List Call)
    (c : Course) : Prop where
  calls_prefix : c.calls <+: handed
  dispatched_eq : c.dispatched = handed.length
  maxLag_eq : c.maxLag = greatestLag handed
  start_le_now : ∀ call ∈ handed, call.start ≤ c.now
  start_lt_outer : ∀ call ∈ handed, ∀ t ∈ outer, call.start < t
  now_le_cancel : ∀ t ∈ c.cancelAt, c.now ≤ t
  cancel_le_outer : ∀ t ∈ outer, ∃ u ∈ c.cancelAt, u ≤ t
  cancel_of_call : ∀ call ∈ c.calls, (dispatcher call.departure).cancels = true →
    c.cancelAt = some call.start
  cancel_source : ∀ t ∈ c.cancelAt, outer = some t ∨
    ∃ call ∈ c.calls, (dispatcher call.departure).cancels = true ∧ call.start = t

variable {dispatcher : Dispatcher} {outer : Option Time} {handed : List Call} {c : Course}

theorem sound_start (dispatcher : Dispatcher) (outer : Option Time) :
    Sound dispatcher outer [] (start outer) where
  calls_prefix := List.nil_prefix
  dispatched_eq := rfl
  maxLag_eq := rfl
  start_le_now := by simp
  start_lt_outer := by simp
  now_le_cancel _ _ := Nat.zero_le _
  cancel_le_outer t ht := ⟨t, ht, le_rfl⟩
  cancel_of_call := by simp [start]
  cancel_source t ht := .inl ht

namespace Sound

theorem logging (h : Sound dispatcher outer handed c) (entries : List LogEntry) :
    Sound dispatcher outer handed (c.logging entries) :=
  { h with }

/-- Time may pass up to the moment of the cancellation. -/
theorem pass (h : Sound dispatcher outer handed c) {t : Time} (hnow : c.now ≤ t)
    (hcancel : ∀ u ∈ c.cancelAt, t ≤ u) : Sound dispatcher outer handed { c with now := t } :=
  { h with
    start_le_now := fun call hcall => (h.start_le_now call hcall).trans hnow
    now_le_cancel := hcancel }

/-- A departure may be handed over while the replay is not cancelled. -/
theorem hand (h : Sound dispatcher outer handed c) (hopen : ∀ t ∈ c.cancelAt, c.now < t)
    (d : Departure) : Sound dispatcher outer (handed ++ [⟨d, c.now⟩])
      { c.lagging d.deadline with dispatched := c.dispatched + 1 } :=
  { h with
    calls_prefix := h.calls_prefix.trans (List.prefix_append _ _)
    dispatched_eq := by simp [h.dispatched_eq]
    maxLag_eq := by simp only [lagging, h.maxLag_eq, greatestLag_concat, Call.lag]
    start_le_now := by
      intro call hcall
      rcases List.mem_append.1 hcall with hcall | hcall
      · exact h.start_le_now call hcall
      · exact (List.mem_singleton.1 hcall ▸ le_rfl)
    start_lt_outer := by
      intro call hcall t ht
      rcases List.mem_append.1 hcall with hcall | hcall
      · exact h.start_lt_outer call hcall t ht
      · obtain ⟨u, hu, hut⟩ := h.cancel_le_outer t ht
        rw [List.mem_singleton.1 hcall]
        exact (hopen u hu).trans_le hut }

/-- If a call asks for the cancellation, then the replay is cancelled now, which is also when it was
cancelled if it was before. -/
theorem call_of_cancels (h : Sound dispatcher outer handed c) {d : Departure}
    (hd : c.calls ++ [⟨d, c.now⟩] <+: handed) (hcancels : (dispatcher d).cancels = true) :
    Sound dispatcher outer handed (c.calling d (dispatcher d)) := by
  have hcancel : (c.calling d (dispatcher d)).cancelAt = some c.now := by
    simp [calling, hcancels]
  refine
    { h with
      calls_prefix := hd
      now_le_cancel := ?_
      cancel_le_outer := ?_
      cancel_of_call := ?_
      cancel_source := ?_ }
  · intro t ht
    rw [hcancel, Option.mem_some_iff] at ht
    exact le_of_eq ht
  · intro t ht
    obtain ⟨u, hu, hut⟩ := h.cancel_le_outer t ht
    exact ⟨c.now, hcancel, (h.now_le_cancel u hu).trans hut⟩
  · intro call hcall hasks
    rcases List.mem_append.1 hcall with hcall | hcall
    · -- an earlier call that asked for it did so just now: time has not passed since
      have hstart := h.start_le_now call (h.calls_prefix.subset hcall)
      have hnow := h.now_le_cancel _ (h.cancel_of_call call hcall hasks)
      rw [hcancel, le_antisymm hstart hnow]
    · rw [hcancel, List.mem_singleton.1 hcall]
  · intro t ht
    rw [hcancel, Option.mem_some_iff] at ht
    exact .inr ⟨_, List.mem_append_right _ (List.mem_singleton_self _), hcancels, ht⟩

/-- A call that does not ask for the cancellation leaves its moment as it is. -/
theorem call_of_not_cancels (h : Sound dispatcher outer handed c) {d : Departure}
    (hd : c.calls ++ [⟨d, c.now⟩] <+: handed) (hquiet : (dispatcher d).cancels = false) :
    Sound dispatcher outer handed (c.calling d (dispatcher d)) := by
  have hcancel : (c.calling d (dispatcher d)).cancelAt = c.cancelAt := by simp [calling, hquiet]
  refine
    { h with
      calls_prefix := hd
      now_le_cancel := hcancel ▸ h.now_le_cancel
      cancel_le_outer := hcancel ▸ h.cancel_le_outer
      cancel_of_call := ?_
      cancel_source := ?_ }
  · intro call hcall hasks
    rcases List.mem_append.1 hcall with hcall | hcall
    · rw [hcancel]
      exact h.cancel_of_call call hcall hasks
    · rw [List.mem_singleton.1 hcall, hquiet] at hasks
      cases hasks
  · intro t ht
    rw [hcancel] at ht
    refine (h.cancel_source t ht).imp_right ?_
    rintro ⟨call, hcall, hasks, rfl⟩
    exact ⟨call, List.mem_append_left _ hcall, hasks, rfl⟩

/-- A call that was handed over may be made. -/
theorem call (h : Sound dispatcher outer handed c) {d : Departure}
    (hd : c.calls ++ [⟨d, c.now⟩] <+: handed) :
    Sound dispatcher outer handed (c.calling d (dispatcher d)) := by
  cases hcancels : (dispatcher d).cancels with
  | true => exact h.call_of_cancels hd hcancels
  | false => exact h.call_of_not_cancels hd hcancels

/-- A sound course that is cancelled was cancelled now. -/
theorem cancelAt_eq (h : Sound dispatcher outer handed c) (hc : c.isCancelled = true) :
    c.cancelAt = some c.now := by
  obtain ⟨t, ht, hle⟩ := isCancelled_iff.1 hc
  rw [Option.mem_def.1 ht, le_antisymm hle (h.now_le_cancel t ht)]

/-- Calls that were handed over but not made were held back by a call that asked for the
cancellation. -/
theorem cancels_of_held (h : Sound dispatcher outer handed c) (hc : c.isCancelled = true)
    {held : Call} (hheld : held ∈ handed) (hstart : held.start = c.now) :
    ∃ call ∈ c.calls, (dispatcher call.departure).cancels = true := by
  rcases h.cancel_source _ (h.cancelAt_eq hc) with houter | ⟨call, hcall, hcancels, -⟩
  · have := h.start_lt_outer held hheld _ houter
    exact absurd hstart this.ne
  · exact ⟨call, hcall, hcancels⟩

end Sound

end LoadReplay.Course
