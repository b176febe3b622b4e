import LoadReplay.Proofs.Replay.Course
import LoadReplay.Proofs.Replay.Warnings
import LoadReplay.Replay.Sequential

/-!
# Ended replays

`Course.Ended` tells how the course of a replay ended, measured against its timetable: the calls
that were handed over are the first ones of the timetable; a cancelled replay left only calls that
start later; one that was not cancelled made all of them and lasted until the last one ended.
`Pacing.counts` tells which of the calls made leave their record.
-/

namespace LoadReplay

/-- Whether a call that ends at `ending` counts as ended when the replay is over at `now`. With
sequential pacing a call does not count that ends just when the replay is cancelled from
outside. -/
def Pacing.counts (pacing : Pacing) (outer : Option Time) (now ending : Time) : Bool :=
  decide (ending ≤ now) &&
    match pacing with
    | .sequential => outer.all fun t => decide (ending < t)
    | .concurrent => true

theorem Pacing.counts_of_lt {pacing : Pacing} {outer : Option Time} {now ending : Time}
    (hnow : ending ≤ now) (houter : ∀ t ∈ outer, ending < t) :
    pacing.counts outer now ending = true := by
  unfold counts
  rw [decide_eq_true hnow, Bool.true_and]
  cases pacing with
  | sequential =>
    cases outer with
    | none => rfl
    | some t => exact decide_eq_true (houter t rfl)
  | concurrent => rfl

theorem Pacing.le_of_counts {pacing : Pacing} {outer : Option Time} {now ending : Time}
    (h : pacing.counts outer now ending = true) : ending ≤ now := by
  simp only [counts, Bool.and_eq_true, decide_eq_true_eq] at h
  exact h.1

theorem Pacing.lt_of_counts_sequential {outer : Option Time} {now ending : Time}
    (h : Pacing.sequential.counts outer now ending = true) : ∀ t ∈ outer, ending < t := by
  rintro t rfl
  simp only [counts, Bool.and_eq_true] at h
  exact of_decide_eq_true h.2

/-- A call that does not end just at the cancellation counts if it ends before. -/
theorem Pacing.counts_of_ne {pacing : Pacing} {c ending : Time} (h : ending ≠ c) :
    pacing.counts (some c) c ending = decide (ending < c) := by
  have hiff : ending ≤ c ↔ ending < c := ⟨fun hle => lt_of_le_of_ne hle h, le_of_lt⟩
  cases pacing with
  | sequential => simp only [counts, hiff, Option.all_some, Bool.and_self]
  | concurrent => simp only [counts, hiff, Bool.and_true]

/-- The records that calls leave when they end, in the order of the calls. -/
def Dispatcher.recordsOf (dispatcher : Dispatcher) (calls : List Call) : List Measurement :=
  calls.flatMap fun call => Sequential.recordsOf (dispatcher call.departure).ending

/-- The records of calls are told by their departures. -/
theorem Dispatcher.recordsOf_eq (dispatcher : Dispatcher) (calls : List Call) :
    dispatcher.recordsOf calls = (calls.map (·.departure)).flatMap fun d =>
      Sequential.recordsOf (dispatcher d).ending := by
  rw [List.flatMap_map]
  rfl

theorem Dispatcher.recordsOf_cons (dispatcher : Dispatcher) (call : Call) (calls : List Call) :
    dispatcher.recordsOf (call :: calls) =
      Sequential.recordsOf (dispatcher call.departure).ending ++ dispatcher.recordsOf calls :=
  List.flatMap_cons

theorem Dispatcher.recordsOf_append (dispatcher : Dispatcher) (xs ys : List Call) :
    dispatcher.recordsOf (xs ++ ys) = dispatcher.recordsOf xs ++ dispatcher.recordsOf ys :=
  List.flatMap_append

theorem Dispatcher.recordsOf_singleton (dispatcher : Dispatcher) (call : Call) :
    dispatcher.recordsOf [call] = Sequential.recordsOf (dispatcher call.departure).ending :=
  List.append_nil _

namespace Course

/-- How the course of a replay ended whose calls are due as `table` lists them; `handed` lists the
calls that were handed over. -/
structure Ended (dispatcher : Dispatcher) (outer : Option Time) (table handed : List Call)
    (c : Course) (cancelled : Bool) : Prop extends c.Sound dispatcher outer handed where
  handed_prefix : handed <+: table
  calls_eq_or : c.calls = handed ∨ cancelled = true ∧ ∃ call ∈ handed, call.start = c.now
  isCancelled : cancelled = true → c.isCancelled = true
  now_le_start : cancelled = true → ∀ call ∈ table.drop handed.length, c.now ≤ call.start
  now_le_ends : cancelled = true → table ≠ [] → ∃ call ∈ table, c.now ≤ dispatcher.ends call
  handed_eq : cancelled = false → handed = table
  ends_le_now : cancelled = false → ∀ call ∈ table, dispatcher.ends call ≤ c.now
  ends_lt_outer : cancelled = false → ∀ call ∈ table, ∀ t ∈ outer, dispatcher.ends call < t
  ends_eq_now : cancelled = false → table ≠ [] → ∃ call ∈ table, dispatcher.ends call = c.now

/-- A replay that is cancelled in a wait for the next departure is over. -/
theorem Sound.ended_of_wait {dispatcher : Dispatcher} {outer : Option Time}
    {table handed : List Call} {c : Course} {after : Call → Time} {now : Time} {d : Departure}
    {ds : List Departure} (h : c.Sound dispatcher outer handed)
    (hafter : ∀ call, call.start ≤ after call)
    (htable : handed ++ timetable after now (d :: ds) = table)
    (hcalls : c.calls = handed ∨ ∃ call ∈ handed, call.start = c.now)
    (hc : c.isCancelled = true) (hnow : c.now ≤ Time.due now d.deadline) :
    c.Ended dispatcher outer table handed true :=
  { h with
    handed_prefix := ⟨_, htable⟩
    calls_eq_or := hcalls.imp_right fun hheld => ⟨rfl, hheld⟩
    isCancelled := fun _ => hc
    now_le_start := by
      intro _ call hcall
      rw [← htable, List.drop_left] at hcall
      exact hnow.trans (due_le_of_mem_timetable hafter hcall)
    now_le_ends := by
      intro _ _
      refine ⟨⟨d, Time.due now d.deadline⟩, ?_,
        hnow.trans (dispatcher.start_le_ends ⟨d, Time.due now d.deadline⟩)⟩
      rw [← htable]
      exact List.mem_append_right _ (List.mem_cons_self ..)
    handed_eq := nofun
    ends_le_now := nofun
    ends_lt_outer := nofun
    ends_eq_now := nofun }

end Course

end LoadReplay
