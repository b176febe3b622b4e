import LoadReplay.Replay.Basic
import Mathlib.Order.MinMax

/-!
# Timetables

When the calls of a replay start, said without the loops that make them. A wait for a deadline
that begins at `now` ends at `due now deadline`, a call ends at `Dispatcher.ends`, and `timetable`
lists the calls of departures one after the other, the clock going on from each call as the pacing
has it: from its end in a sequential replay, from its start in a concurrent one.

The starts of a timetable do not decrease (`pairwise_start_timetable`) and none is before its
deadline (`deadline_le_of_mem_timetable`).
-/

namespace LoadReplay

/-! ## Waking up -/

namespace Time

theorem dvd_wake (t : Time) : Duration.millisecond ∣ wake t := Nat.dvd_mul_left _ _

theorem le_wake (t : Time) : t ≤ wake t := by
  simp only [wake, Duration.millisecond]
  lia

theorem wake_le_of_dvd {t u : Time} (hu : Duration.millisecond ∣ u) (h : t ≤ u) : wake t ≤ u := by
  obtain ⟨k, rfl⟩ := hu
  simp only [wake, Duration.millisecond] at h ⊢
  lia

theorem wake_of_dvd {t : Time} (h : Duration.millisecond ∣ t) : wake t = t :=
  Nat.le_antisymm (wake_le_of_dvd h le_rfl) (le_wake t)

/-- When a wait for a deadline ends that begins at `now`. -/
def due (now deadline : Time) : Time := if now < deadline then wake deadline else now

theorem due_of_lt {now deadline : Time} (h : now < deadline) : due now deadline = wake deadline :=
  if_pos h

theorem due_of_le {now deadline : Time} (h : deadline ≤ now) : due now deadline = now :=
  if_neg (Nat.not_lt.2 h)

theorem le_due (now deadline : Time) : now ≤ due now deadline := by
  have := le_wake deadline
  unfold due
  split <;> lia

theorem deadline_le_due (now deadline : Time) : deadline ≤ due now deadline := by
  have := le_wake deadline
  unfold due
  split <;> lia

/-- On a whole millisecond, a wait ends at the later of that and the wake-up of its deadline. -/
theorem due_eq_max {now : Time} (h : Duration.millisecond ∣ now) (deadline : Time) :
    due now deadline = max now (wake deadline) := by
  unfold due
  split
  next hlt => exact (Nat.max_eq_right (hlt.le.trans (le_wake deadline))).symm
  next hge => exact (Nat.max_eq_left (wake_le_of_dvd h (Nat.not_lt.1 hge))).symm

end Time

/-! ## The ends of calls -/

/-- When a call ends. -/
def Dispatcher.ends (dispatcher : Dispatcher) (call : Call) : Time :=
  if (dispatcher call.departure).delay = 0 then call.start
  else Time.wake (call.start + (dispatcher call.departure).delay)

theorem Dispatcher.dvd_ends (dispatcher : Dispatcher) {call : Call}
    (h : Duration.millisecond ∣ call.start) : Duration.millisecond ∣ dispatcher.ends call := by
  unfold Dispatcher.ends
  split
  · exact h
  · exact Time.dvd_wake _

/-- On whole milliseconds a call ends when its delay is over. -/
theorem Dispatcher.ends_of_dvd (dispatcher : Dispatcher) {call : Call}
    (h : Duration.millisecond ∣ call.start)
    (hdelay : Duration.millisecond ∣ (dispatcher call.departure).delay) :
    dispatcher.ends call = call.start + (dispatcher call.departure).delay := by
  unfold Dispatcher.ends
  split
  next hzero => rw [hzero, Nat.add_zero]
  next => exact Time.wake_of_dvd (Nat.dvd_add h hdelay)

theorem Dispatcher.start_le_ends (dispatcher : Dispatcher) (call : Call) :
    call.start ≤ dispatcher.ends call := by
  unfold Dispatcher.ends
  split
  · exact le_rfl
  · exact (Nat.le_add_right _ _).trans (Time.le_wake _)

/-- A call that takes some time ends after its start. -/
theorem Dispatcher.start_lt_ends (dispatcher : Dispatcher) {call : Call}
    (h : (dispatcher call.departure).delay ≠ 0) : call.start < dispatcher.ends call := by
  have := Time.le_wake (call.start + (dispatcher call.departure).delay)
  simp only [Dispatcher.ends, if_neg h]
  lia

/-- Where the clock stands once a call is made and the next wait begins. -/
def Pacing.after (pacing : Pacing) (dispatcher : Dispatcher) (call : Call) : Time :=
  match pacing with
  | .sequential => dispatcher.ends call
  | .concurrent => call.start

theorem Pacing.start_le_after (pacing : Pacing) (dispatcher : Dispatcher) (call : Call) :
    call.start ≤ pacing.after dispatcher call := by
  cases pacing with
  | sequential => exact dispatcher.start_le_ends call
  | concurrent => exact le_rfl

/-! ## Lags -/

/-- How far a call starts behind its deadline. -/
def Call.lag (call : Call) : Duration := call.start - call.departure.deadline

/-- The greatest lag of calls. -/
def greatestLag (calls : List Call) : Duration := calls.foldl (fun lag call => max lag call.lag) 0

theorem greatestLag_concat (calls : List Call) (call : Call) :
    greatestLag (calls ++ [call]) = max (greatestLag calls) call.lag := by
  rw [greatestLag, List.foldl_append]
  rfl

/-! ## Timetables -/

/-- The calls of departures when the first wait begins at `now` and the clock stands at
`after call` once a call is made. -/
def timetable (after : Call → Time) : Time → List Departure → List Call
  | _, [] => []
  | now, d :: ds =>
    let call : Call := ⟨d, Time.due now d.deadline⟩
    call :: timetable after (after call) ds

section

variable {after : Call → Time} {now : Time}

theorem map_departure_timetable (ds : List Departure) :
    (timetable after now ds).map (·.departure) = ds := by
  induction ds generalizing now with
  | nil => rfl
  | cons d ds ih => rw [timetable, List.map_cons, ih]

theorem length_timetable (ds : List Departure) : (timetable after now ds).length = ds.length := by
  rw [← List.length_map (·.departure), map_departure_timetable]

/-- No call starts before its deadline. -/
theorem deadline_le_of_mem_timetable {ds : List Departure} {call : Call}
    (h : call ∈ timetable after now ds) : call.departure.deadline ≤ call.start := by
  induction ds generalizing now with
  | nil => cases h
  | cons d ds ih =>
    rcases List.mem_cons.1 h with rfl | h
    · exact Time.deadline_le_due now d.deadline
    · exact ih h

theorem start_of_getElem?_zero {ds : List Departure} {call : Call}
    (h : (timetable after now ds)[0]? = some call) :
    call.start = Time.due now call.departure.deadline := by
  cases ds with
  | nil => cases h
  | cons d ds => cases h; rfl

/-- The wait for a departure begins where the clock stands after the call before. -/
theorem start_of_getElem?_succ {ds : List Departure} {i : Nat} {call next : Call}
    (hcall : (timetable after now ds)[i]? = some call)
    (hnext : (timetable after now ds)[i + 1]? = some next) :
    next.start = Time.due (after call) next.departure.deadline := by
  induction ds generalizing now i with
  | nil => cases hcall
  | cons d ds ih =>
    cases i with
    | zero =>
      cases hcall
      exact start_of_getElem?_zero hnext
    | succ i => exact ih hcall hnext

/-- A clock on whole milliseconds stays there. -/
theorem dvd_start_of_mem_timetable
    (hafter : ∀ call, Duration.millisecond ∣ call.start → Duration.millisecond ∣ after call)
    (hnow : Duration.millisecond ∣ now) {ds : List Departure} {call : Call}
    (h : call ∈ timetable after now ds) : Duration.millisecond ∣ call.start := by
  induction ds generalizing now with
  | nil => cases h
  | cons d ds ih =>
    have hdue : Duration.millisecond ∣ Time.due now d.deadline := by
      unfold Time.due
      split
      · exact Time.dvd_wake _
      · exact hnow
    rcases List.mem_cons.1 h with rfl | h
    · exact hdue
    · exact ih (hafter _ hdue) h

variable (hafter : ∀ call, call.start ≤ after call)
include hafter

theorem now_le_of_mem_timetable {ds : List Departure} {call : Call}
    (h : call ∈ timetable after now ds) : now ≤ call.start := by
  induction ds generalizing now with
  | nil => cases h
  | cons d ds ih =>
    have hdue := Time.le_due now d.deadline
    have hnext := hafter ⟨d, Time.due now d.deadline⟩
    rcases List.mem_cons.1 h with rfl | h
    · exact hdue
    · exact (hdue.trans hnext).trans (ih h)

/-- The calls of a timetable start no earlier than the first wait ends. -/
theorem due_le_of_mem_timetable {d : Departure} {ds : List Departure} {call : Call}
    (h : call ∈ timetable after now (d :: ds)) : Time.due now d.deadline ≤ call.start := by
  rcases List.mem_cons.1 h with rfl | h
  · exact le_rfl
  · exact (hafter ⟨d, Time.due now d.deadline⟩).trans (now_le_of_mem_timetable hafter h)

/-- A call starts no earlier than the waits after the calls before it begin. -/
theorem pairwise_after_timetable (ds : List Departure) :
    (timetable after now ds).Pairwise fun a b => after a ≤ b.start := by
  induction ds generalizing now with
  | nil => exact .nil
  | cons d ds ih => exact .cons (fun call h => now_le_of_mem_timetable hafter h) ih

theorem pairwise_start_timetable (ds : List Departure) :
    (timetable after now ds).Pairwise fun a b => a.start ≤ b.start :=
  (pairwise_after_timetable hafter ds).imp (hafter _).trans

end

end LoadReplay
