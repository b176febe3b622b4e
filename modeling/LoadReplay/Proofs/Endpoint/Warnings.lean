import LoadReplay.Proofs.Replay.Dispatchers

/-!
# Warnings about answers

A dispatch fails when its request does, when the status of the answer is not one of success, and,
where the answer is waited for, when its body breaks off (`Answer.fails`). Whatever the answers are
and however long they take, a dispatch that fails leaves one warning, which tells its index and what
went wrong, and any other leaves none (`Endpoint.forall₂_warningsOf`). Where records are kept the
warning says of its record what this says of itself (`Endpoint.forall₂_failed_warningsOf`).
-/

namespace LoadReplay

/-- Whether a dispatch with an answer fails. -/
def Answer.fails (mode : Mode) : Answer → Bool
  | .failed _ => true
  | .answered status (.ok _) => !isSuccessStatus status
  | .answered status (.error _) => decide (mode = .blocking) || !isSuccessStatus status

/-- An entry warns of the answer to the event at an index. -/
inductive Answer.WarnedBy (mode : Mode) (index : Nat) : Answer → LogEntry → Prop where
  | unsent (fault : DispatchFault) :
    WarnedBy mode index (.failed fault) (.requestFailed index fault)
  | broken (status : Nat) (fault : DispatchFault) (hmode : mode = .blocking) :
    WarnedBy mode index (.answered status (.error fault)) (.bodyFailed index status fault)
  | rejected (status : Nat) (body : Except DispatchFault Bytes)
    (hstatus : isSuccessStatus status = false)
    (hread : mode = .blocking → ∃ bytes, body = .ok bytes) :
    WarnedBy mode index (.answered status body) (.rejected index status)

/-- An entry warns of a record: it tells its index, its status and its fault, but for a status that
is the fault itself. -/
inductive Measurement.WarnedBy (m : Measurement) : LogEntry → Prop where
  | unsent (fault : DispatchFault) (hstatus : m.status = none) (hfault : m.fault = some fault) :
    WarnedBy m (.requestFailed m.index fault)
  | broken (status : Nat) (fault : DispatchFault) (hstatus : m.status = some status)
    (hfault : m.fault = some fault) : WarnedBy m (.bodyFailed m.index status fault)
  | rejected (status : Nat) (hstatus : m.status = some status)
    (hfault : m.fault = some (.status status)) : WarnedBy m (.rejected m.index status)

/-- An entry names an index. -/
def LogEntry.Names (entry : LogEntry) (index : Nat) : Prop :=
  ("index", .whole index) ∈ entry.fields

instance (entry : LogEntry) (index : Nat) : Decidable (entry.Names index) := by
  unfold LogEntry.Names
  infer_instance

theorem Answer.WarnedBy.names_iff {mode : Mode} {index other : Nat} {answer : Answer}
    {entry : LogEntry} (h : answer.WarnedBy mode index entry) :
    entry.Names other ↔ index = other := by
  cases h <;> simp [LogEntry.Names, LogEntry.fields, eq_comm]

namespace Endpoint

variable {mode : Mode} {answer : Departure → Answer} {delay : Departure → Duration}

/-! ## Failed dispatches -/

/-- An answer that makes its dispatch fail leaves one warning, which is about it. -/
theorem exists_warning_of_fails {a : Answer} (h : a.fails mode = true) (index : Nat) :
    ∃ entry, warnings (answerLog mode index a) = [entry] ∧ a.WarnedBy mode index entry := by
  cases a with
  | failed fault => exact ⟨_, by cases mode <;> rfl, .unsent fault⟩
  | answered status body =>
    by_cases hbroken : mode = .blocking ∧ ∃ fault, body = .error fault
    · obtain ⟨rfl, fault, rfl⟩ := hbroken
      exact ⟨_, rfl, .broken status fault rfl⟩
    · have hread : mode = .blocking → ∃ bytes, body = .ok bytes := by
        intro hmode
        cases body with
        | error fault => exact absurd ⟨hmode, fault, rfl⟩ hbroken
        | ok bytes => exact ⟨bytes, rfl⟩
      have hstatus : isSuccessStatus status = false := by
        cases body <;> simp_all [Answer.fails]
      refine ⟨.rejected index status, ?_, .rejected status body hstatus hread⟩
      cases mode with
      | fireAndForget =>
        rw [answerLog, fireLog, if_neg (Bool.eq_false_iff.1 hstatus)]
        rfl
      | blocking =>
        obtain ⟨bytes, rfl⟩ := hread rfl
        rw [answerLog, measureLog, if_neg (Bool.eq_false_iff.1 hstatus)]
        rfl

/-- Any other answer leaves nothing in the log. -/
theorem answerLog_of_not_fails {a : Answer} (h : a.fails mode = false) (index : Nat) :
    answerLog mode index a = [] := by
  cases a with
  | failed fault => cases h
  | answered status body =>
    cases body with
    | error fault =>
      rw [Answer.fails, Bool.or_eq_false_iff, decide_eq_false_iff_not, Bool.not_eq_false'] at h
      cases mode with
      | fireAndForget => exact if_pos h.2
      | blocking => exact absurd rfl h.1
    | ok bytes =>
      have hstatus : isSuccessStatus status = true := by simpa [Answer.fails] using h
      cases mode <;> exact if_pos hstatus

variable (mode answer delay)

/-- The dispatches that fail leave the warnings, one each. -/
theorem forall₂_warningsOf (calls : List Call) :
    List.Forall₂ (fun call entry =>
        (answer call.departure).WarnedBy mode call.departure.index entry)
      (calls.filter fun call => (answer call.departure).fails mode)
      ((answering mode answer delay).warningsOf calls) := by
  induction calls with
  | nil => exact .nil
  | cons call calls ih =>
    have hlog : (answering mode answer delay call.departure).log =
        answerLog mode call.departure.index (answer call.departure) := rfl
    rw [Dispatcher.warningsOf_cons, hlog, List.filter_cons]
    cases hfails : (answer call.departure).fails mode with
    | true =>
      obtain ⟨entry, hwarning, hentry⟩ := exists_warning_of_fails hfails call.departure.index
      rw [if_pos rfl, hwarning]
      exact .cons hentry ih
    | false =>
      rw [if_neg Bool.false_ne_true, answerLog_of_not_fails hfails]
      exact ih

/-! ## Failed records -/

theorem recordsOf_answering_blocking (calls : List Call) :
    (answering .blocking answer delay).recordsOf calls =
      calls.map fun call =>
        measured call.departure (delay call.departure) (answer call.departure) := by
  rw [Dispatcher.recordsOf, List.map_eq_flatMap]
  rfl

theorem recordsOf_answering_fireAndForget (calls : List Call) :
    (answering .fireAndForget answer delay).recordsOf calls = [] :=
  List.flatMap_eq_nil_iff.2 fun _ _ => rfl

/-- A record is a failed one if its dispatch fails. -/
theorem isSuccess_measured (d : Departure) (took : Duration) (a : Answer) :
    (measured d took a).isSuccess = !a.fails .blocking := by
  cases a with
  | failed fault => rfl
  | answered status body =>
    cases body with
    | error fault => rfl
    | ok bytes =>
      simp only [Measurement.isSuccess, measured, Answer.fails, Bool.not_not, Option.any_some]
      cases isSuccessStatus status <;> rfl

/-- What warns of an answer warns of its record. -/
theorem warnedBy_measured {d : Departure} {took : Duration} {a : Answer} {entry : LogEntry}
    (h : a.WarnedBy .blocking d.index entry) : (measured d took a).WarnedBy entry := by
  cases h with
  | unsent fault => exact .unsent fault rfl rfl
  | broken status fault => exact .broken status fault rfl rfl
  | rejected status body hstatus hread =>
    obtain ⟨bytes, rfl⟩ := hread rfl
    refine .rejected status rfl ?_
    simp [measured, hstatus]

/-- The failed records are warned of, one by one. -/
theorem forall₂_failed_warningsOf (calls : List Call) :
    List.Forall₂ Measurement.WarnedBy
      (((answering .blocking answer delay).recordsOf calls).filter fun m => !m.isSuccess)
      ((answering .blocking answer delay).warningsOf calls) := by
  have hfails : ((fun m : Measurement => !m.isSuccess) ∘ fun call : Call =>
      measured call.departure (delay call.departure) (answer call.departure)) =
        fun call => (answer call.departure).fails .blocking := by
    funext call
    rw [Function.comp_apply, isSuccess_measured, Bool.not_not]
  rw [recordsOf_answering_blocking, List.filter_map, hfails, List.forall₂_map_left_iff]
  exact (forall₂_warningsOf .blocking answer delay calls).imp fun _ _ => warnedBy_measured

end Endpoint

end LoadReplay
