import LoadReplay.Endpoint.Dispatch
import LoadReplay.Proofs.Replay.Ended
import LoadReplay.Replay.Script
import Mathlib.Data.List.Forall2
import Mathlib.Data.List.GetD

/-!
# Dispatchers

What a replay may expect of its dispatcher. A `Faithful` one measures the departure it was given,
as scripts (`Script.faithful_dispatcher`) and clients (`Client.faithful_dispatcher`) do; a `Quiet`
one never asks for the replay to be cancelled; a `Discreet` one leaves it to the replay to
log that a dispatch panicked. The records of a faithful dispatcher are those of its calls, so they
are in the order of the events if the calls are.
-/

namespace LoadReplay

/-- What a measurement says about its event is said of the event of the departure. -/
structure Measurement.IsOf (m : Measurement) (d : Departure) : Prop where
  index_eq : m.index = d.index
  offset_eq : m.offset = d.offset
  bucket_eq : m.bucket = d.event.bucket
  contextTokens_eq : m.contextTokens = d.event.contextTokens
  generatedTokens_eq : m.generatedTokens = d.event.generatedTokens

namespace Dispatcher

/-- Every dispatch measures the departure it was given, if any. -/
def Faithful (dispatcher : Dispatcher) : Prop :=
  ∀ d m, (dispatcher d).ending = .measured m → m.IsOf d

/-- No dispatch asks for the replay to be cancelled. -/
def Quiet (dispatcher : Dispatcher) : Prop := ∀ d, (dispatcher d).cancels = false

/-- No dispatch logs that it panicked. -/
def Discreet (dispatcher : Dispatcher) : Prop := ∀ d, .panicked ∉ (dispatcher d).log

/-- Every one of the calls ends with a measurement. -/
def Measures (dispatcher : Dispatcher) (calls : List Call) : Prop :=
  ∀ call ∈ calls, ∃ m, (dispatcher call.departure).ending = .measured m

variable {dispatcher : Dispatcher}

theorem mem_recordsOf {calls : List Call} {m : Measurement} :
    m ∈ dispatcher.recordsOf calls ↔
      ∃ call ∈ calls, (dispatcher call.departure).ending = .measured m := by
  rw [recordsOf, List.mem_flatMap]
  refine exists_congr fun call => and_congr_right fun _ => ?_
  cases (dispatcher call.departure).ending <;> simp [Sequential.recordsOf, eq_comm]

/-- The record of a dispatch is that of its event. -/
theorem Faithful.index_eq_of_mem (h : dispatcher.Faithful) {d : Departure} {m : Measurement}
    (hm : m ∈ Sequential.recordsOf (dispatcher d).ending) : m.index = d.index := by
  refine (h d m ?_).index_eq
  cases hending : (dispatcher d).ending <;> simp_all [Sequential.recordsOf]

/-- The records are in the order of the events if the calls are. -/
theorem Faithful.pairwise_recordsOf (h : dispatcher.Faithful) {calls : List Call}
    (hcalls : calls.Pairwise fun a b => a.departure.index < b.departure.index) :
    (dispatcher.recordsOf calls).Pairwise fun a b => a.index < b.index := by
  refine List.pairwise_flatMap.2 ⟨fun call _ => ?_, hcalls.imp fun hab a ha b hb => ?_⟩
  · cases (dispatcher call.departure).ending <;> simp [Sequential.recordsOf]
  · rwa [h.index_eq_of_mem ha, h.index_eq_of_mem hb]

/-- Choosing calls chooses their records. -/
theorem recordsOf_filter {calls : List Call} {p : Call → Bool} {q : Measurement → Bool}
    (h : ∀ call ∈ calls, ∀ m, (dispatcher call.departure).ending = .measured m → q m = p call) :
    dispatcher.recordsOf (calls.filter p) = (dispatcher.recordsOf calls).filter q := by
  induction calls with
  | nil => rfl
  | cons call calls ih =>
    obtain ⟨hcall, hcalls⟩ := List.forall_mem_cons.1 h
    have hrecord : (Sequential.recordsOf (dispatcher call.departure).ending).filter q =
        if p call then Sequential.recordsOf (dispatcher call.departure).ending else [] := by
      cases hending : (dispatcher call.departure).ending with
      | measured m => simp only [Sequential.recordsOf, List.filter_cons, hcall m hending,
          List.filter_nil]
      | _ => simp [Sequential.recordsOf]
    rw [recordsOf_cons, List.filter_append, hrecord, ← ih hcalls, List.filter_cons]
    split
    · rw [recordsOf_cons]
    · rw [List.nil_append]

/-- Calls that are all measured leave one record each. -/
theorem Measures.forall₂_recordsOf {calls : List Call} (h : dispatcher.Measures calls) :
    List.Forall₂ (fun call m => (dispatcher call.departure).ending = .measured m) calls
      (dispatcher.recordsOf calls) := by
  induction calls with
  | nil => exact .nil
  | cons call calls ih =>
    obtain ⟨hcall, hcalls⟩ := List.forall_mem_cons.1 h
    obtain ⟨m, hm⟩ := hcall
    rw [recordsOf_cons, hm]
    exact .cons hm (ih hcalls)

end Dispatcher

/-! ## Scripts and clients -/

theorem Script.faithful_dispatcher (s : Script) : s.dispatcher.Faithful := by
  intro d m hm
  simp only [Script.dispatcher, Script.ending] at hm
  split at hm
  · cases hm
  · split at hm
    · cases hm
    · cases hm
      exact ⟨rfl, rfl, rfl, rfl, rfl⟩

theorem Script.step_mem_or (s : Script) (index : Nat) :
    s.step index ∈ s.steps ∨ s.step index = Script.idle := by
  unfold Script.step
  by_cases hlt : index % s.steps.length < s.steps.length
  · rw [List.getD_eq_getElem _ _ hlt]
    exact .inl (List.getElem_mem hlt)
  · exact .inr (List.getD_eq_default _ _ (Nat.not_lt.1 hlt))

/-- The delays of a script are those of its steps. -/
theorem Script.dvd_delay_dispatcher {s : Script} {unit : Duration}
    (hsteps : ∀ step ∈ s.steps, unit ∣ step.delay) (d : Departure) :
    unit ∣ (s.dispatcher d).delay := by
  change unit ∣ (s.step d.index).delay
  rcases s.step_mem_or d.index with hmem | hidle
  · exact hsteps _ hmem
  · rw [hidle]
    exact Nat.dvd_zero unit

theorem Script.quiet_dispatcher {s : Script} (h : s.cancelOn = none) : s.dispatcher.Quiet := by
  intro d
  simp [Script.dispatcher, h]

theorem Script.discreet_dispatcher (s : Script) : s.dispatcher.Discreet := by
  intro d
  simp [Script.dispatcher]

namespace Endpoint

theorem isOf_measured (d : Departure) (took : Duration) (answer : Answer) :
    (measured d took answer).IsOf d := by
  unfold measured
  split <;> exact ⟨rfl, rfl, rfl, rfl, rfl⟩

theorem panicked_notMem_answerLog (mode : Mode) (index : Nat) (answer : Answer) :
    .panicked ∉ answerLog mode index answer := by
  cases mode with
  | fireAndForget =>
    change LogEntry.panicked ∉ fireLog index answer
    unfold fireLog
    split
    · simp
    · split <;> simp
  | blocking =>
    change LogEntry.panicked ∉ measureLog index answer
    unfold measureLog
    split
    · simp
    · simp
    · split <;> simp

theorem faithful_answering {mode : Mode} {answer : Departure → Answer}
    {delay : Departure → Duration} : (answering mode answer delay).Faithful := by
  intro d m hm
  cases mode with
  | fireAndForget => cases hm
  | blocking =>
    cases hm
    exact isOf_measured d _ _

end Endpoint

namespace Client

/-- A dispatch that waits for its answer is always measured. -/
theorem ending_dispatcher (c : Client) {o : ReplayOptions} (hmode : o.mode = .blocking)
    (d : Departure) : (c.dispatcher o d).ending =
      .measured (Endpoint.measured d (c.delay d) ((c.reply d).answer o.timeout)) := by
  rw [dispatcher, hmode]
  rfl

theorem faithful_dispatcher (c : Client) (o : ReplayOptions) : (c.dispatcher o).Faithful :=
  Endpoint.faithful_answering

theorem quiet_dispatcher (c : Client) (o : ReplayOptions) : (c.dispatcher o).Quiet := fun _ => rfl

theorem discreet_dispatcher (c : Client) (o : ReplayOptions) : (c.dispatcher o).Discreet := fun d =>
  Endpoint.panicked_notMem_answerLog o.mode d.index _

end Client

end LoadReplay
