import LoadReplay.Proofs.Endpoint.Warnings
import LoadReplay.Proofs.Session.Shape

/-!
# One warning for every failure

A session that is not cancelled logs as many warnings as dispatches fail in it, one for each, in
both modes and pacings, whatever the answers are and however long they take
(`Session.warns_once`). Where the answers are waited for these are the warnings of the failed
records.
-/

namespace LoadReplay

namespace Replay

/-- A replay that is not cancelled logs nothing when it ends. -/
theorem log_finish_of_open {cancelled : Bool} (h : cancelled = false) (total : Nat) (c : Course)
    (records : List Measurement) (maxInflight : Nat) :
    (finish total c records maxInflight cancelled).log = c.log := by
  rw [h]
  exact List.append_nil _

/-- The warnings of a replay that is not cancelled are those of its calls: in their order in
sequential pacing, in any order in concurrent pacing. -/
theorem arrive_warnings {pacing : Pacing} {dispatcher : Dispatcher} {outer : Option Time}
    {ds : List Departure}
    (hopen : (runPaced pacing dispatcher outer ds).value.outcome.cancelled = false) :
    Endpoint.Arrive pacing
      (dispatcher.warningsOf (runPaced pacing dispatcher outer ds).value.calls)
      (warnings (runPaced pacing dispatcher outer ds).log) := by
  cases pacing with
  | sequential =>
    have hended := Sequential.run_ended ds.length ds (Sequential.steady_start dispatcher outer) rfl
    have hflag : (Sequential.run dispatcher ds.length ⟨Course.start outer, []⟩ ds).2 = false :=
      hopen
    have hlog : (runPaced .sequential dispatcher outer ds).log = _ := log_finish_of_open hflag ..
    exact (congrArg warnings hlog).trans (hended.warnings_eq hflag)
  | concurrent =>
    have hflag : (Concurrent.run dispatcher ds.length outer ds).2 = false := hopen
    have hlog : (runPaced .concurrent dispatcher outer ds).log = _ := log_finish_of_open hflag ..
    exact (List.Perm.of_eq (congrArg warnings hlog)).trans (Concurrent.warnings_perm hflag)

end Replay

theorem Logged.eq_of_value {α : Type} {x : Logged α} {value : α} (h : x.value = value) :
    x = ⟨x.log, value⟩ := by
  rw [← h]

/-- A report that cannot be written is an error and no warning. -/
theorem Report.warnings_emit (disk : Disk) (mode : Mode) (output : Option String)
    (records : List Measurement) : warnings (emit disk mode output records).2.log = [] := by
  unfold emit
  split
  · rfl
  · rfl
  · split
    · rfl
    · split <;> rfl

namespace Session

/-- What the warnings of a session say whose dispatches are answered as told. Each dispatch that
fails is warned of by one entry, which tells what went wrong, and no other is. Where records are
kept, the same entries warn of those that failed. -/
structure WarnsOnce (options : ReplayOptions) (answer : Departure → Answer) (session : Session)
    (warned : List LogEntry) : Prop where
  nodup_index : (session.calls.map (·.departure.index)).Nodup
  warned_of_fails : ∃ ordered, Endpoint.Arrive options.pacing ordered warned ∧
    List.Forall₂ (fun call entry =>
        (answer call.departure).WarnedBy options.mode call.departure.index entry)
      (session.calls.filter fun call => (answer call.departure).fails options.mode) ordered
  countP_names : ∀ call ∈ session.calls,
    warned.countP (fun entry => decide (entry.Names call.departure.index)) =
      if (answer call.departure).fails options.mode then 1 else 0
  length_eq_failed : options.mode = .blocking → warned.length = session.summary.failed
  warned_of_failed : options.mode = .blocking →
    ∃ ordered, Endpoint.Arrive options.pacing ordered warned ∧
      List.Forall₂ Measurement.WarnedBy
        (session.outcome.records.filter fun m => !m.isSuccess) ordered
  records_eq_nil : options.mode = .fireAndForget → session.outcome.records = []

variable {options : ReplayOptions} {answer : Departure → Answer} {delay : Departure → Duration}

/-- As many entries name an index as there are calls with it that they warn of. -/
theorem countP_names_eq_count {mode : Mode} {failing : List Call} {ordered : List LogEntry}
    (h : List.Forall₂ (fun call entry =>
      (answer call.departure).WarnedBy mode call.departure.index entry) failing ordered)
    (index : Nat) : ordered.countP (fun entry => decide (entry.Names index)) =
      (failing.map (·.departure.index)).count index := by
  induction h with
  | nil => rfl
  | cons hwarned _ ih =>
    rw [List.countP_cons, List.map_cons, List.count_cons, ih]
    simp only [hwarned.names_iff, decide_eq_true_eq, beq_iff_eq]

/-- Among calls of which no two have the same index, one names itself if it is chosen. -/
theorem count_index_filter {calls : List Call} (hnodup : (calls.map (·.departure.index)).Nodup)
    (p : Call → Bool) {call : Call} (hcall : call ∈ calls) :
    ((calls.filter p).map (·.departure.index)).count call.departure.index =
      if p call then 1 else 0 := by
  have hmem : call.departure.index ∈ (calls.filter p).map (·.departure.index) ↔
      p call = true := by
    rw [List.mem_map]
    constructor
    · rintro ⟨other, hother, hindex⟩
      obtain ⟨hother, hp⟩ := List.mem_filter.1 hother
      exact List.inj_on_of_nodup_map hnodup hother hcall hindex ▸ hp
    · exact fun hp => ⟨call, List.mem_filter.2 ⟨hcall, hp⟩, rfl⟩
  rw [(hnodup.sublist (List.filter_sublist.map _)).count]
  exact if_congr hmem rfl rfl

/-- A session whose warnings are those of its calls. -/
theorem warnsOnce_of_arrive {session : Session} {warned : List LogEntry}
    (hnodup : (session.calls.map (·.departure.index)).Nodup)
    (hrecords : session.outcome.records =
      (Endpoint.answering options.mode answer delay).recordsOf session.calls)
    (hsummary : session.summary = .of session.outcome)
    (harrive : Endpoint.Arrive options.pacing
      ((Endpoint.answering options.mode answer delay).warningsOf session.calls) warned) :
    session.WarnsOnce options answer warned := by
  have hwarned := Endpoint.forall₂_warningsOf options.mode answer delay session.calls
  have hfailed (hmode : options.mode = .blocking) : List.Forall₂ Measurement.WarnedBy
      (session.outcome.records.filter fun m => !m.isSuccess)
      ((Endpoint.answering options.mode answer delay).warningsOf session.calls) := by
    rw [hrecords, hmode]
    exact Endpoint.forall₂_failed_warningsOf answer delay session.calls
  refine ⟨hnodup, ⟨_, harrive, hwarned⟩, fun call hcall => ?_, fun hmode => ?_,
    fun hmode => ⟨_, harrive, hfailed hmode⟩, fun hmode => ?_⟩
  · rw [harrive.perm.countP_eq, countP_names_eq_count hwarned]
    exact count_index_filter hnodup _ hcall
  · rw [harrive.perm.length_eq, ← (hfailed hmode).length_eq, hsummary]
    exact (Summary.failed_eq_length_filter session.outcome).symm
  · rw [hrecords, hmode]
    exact Endpoint.recordsOf_answering_fireAndForget answer delay session.calls

section

variable {disk : Disk} {events : List Event} {cancelAt : Option Time} {session : Session}

/-- Only the replay of a session warns. -/
theorem warnings_runWith {ds : List Departure}
    (hds : Replay.departures options.scale events = .ok ds) (disk : Disk) (dispatcher : Dispatcher)
    (cancelAt : Option Time) : warnings (runWith disk events options dispatcher cancelAt).log =
      warnings (Replay.runPaced options.pacing dispatcher cancelAt ds).log := by
  have hfinished (o : Outcome) : (finishedLog o).level ≠ .warn := nofun
  rw [runWith, Replay.run_eq_ok hds]
  dsimp only
  rw [warnings_append, warnings_cons_of_ne (hfinished _), Report.warnings_emit, List.append_nil]

/-- A session with any answers that is not cancelled. -/
theorem warnsOnce_runWith {log : List LogEntry}
    (h : runWith disk events options (Endpoint.answering options.mode answer delay) cancelAt =
      ⟨log, .ok session⟩) (hopen : session.outcome.cancelled = false) :
    session.WarnsOnce options answer (warnings log) := by
  obtain ⟨ds, hds, rfl⟩ := exists_departures (congrArg Logged.value h)
  have hchronicle := Replay.chronicle options.pacing
    (Endpoint.answering options.mode answer delay) cancelAt ds
  refine warnsOnce_of_arrive ?_
    (hchronicle.records_eq_recordsOf_calls Endpoint.faithful_answering hds hopen) rfl ?_
  · change ((Replay.runPaced _ _ _ _).value.calls.map _).Nodup
    rw [hchronicle.calls_eq_table hopen]
    refine List.pairwise_map.2 (List.Pairwise.imp ne_of_lt ?_)
    exact Replay.pairwise_index_plan (Replay.pairwise_index_departures hds)
  · have hlog :=
      warnings_runWith hds disk (Endpoint.answering options.mode answer delay) cancelAt
    rw [h] at hlog
    exact hlog ▸ Replay.arrive_warnings hopen

end

/-- In every session that is not cancelled the warnings are those of its failed dispatches, one for
each, whatever the answers are and however long they take. -/
theorem warns_once (disk : Disk) (events : List Event) (options : ReplayOptions)
    (cancelAt : Option Time) (answer : Departure → Answer) (delay : Departure → Duration) :
    (∀ log session, runWith disk events options (Endpoint.answering options.mode answer delay)
          cancelAt = ⟨log, .ok session⟩ → session.outcome.cancelled = false →
        session.WarnsOnce options answer (warnings log)) ∧
      ∀ endpoint log session, run disk events options endpoint cancelAt = ⟨log, .ok session⟩ →
        session.outcome.cancelled = false →
          session.WarnsOnce options (fun d => (endpoint.send options d).2) (warnings log) := by
  refine ⟨fun log session => warnsOnce_runWith, fun endpoint log session h hopen => ?_⟩
  obtain ⟨hvalue, hlog⟩ := runWith_of_run (congrArg Logged.value h)
  have hstarting : (LogEntry.starting options events.length).level ≠ .warn := nofun
  rw [show log = _ from (congrArg Logged.log h).symm.trans hlog, warnings_cons_of_ne hstarting]
  exact warnsOnce_runWith (Logged.eq_of_value hvalue) hopen

/-- Answers with an error that is told in full, and with a success whose body breaks off. -/
def unsteadyEndpoint : Endpoint :=
  { address := "localhost"
    listening := true
    responses :=
      [("low", ⟨500, Utf8.encode "out of memory".toList, none, .answer⟩),
        ("high", ⟨200, [], none, .truncate⟩)] }

/-- Options of a session that sends side by side and waits for no answer. -/
def besideOptions : ReplayOptions :=
  { reportOptions with
    mode := .fireAndForget
    pacing := .concurrent }

/-- The first event is never answered, and the second is refused. -/
def lateAnswer (d : Departure) : Answer :=
  if d.index = 0 then .failed (.timeout 2000000000) else .answered 404 (.ok [])

/-- It takes two seconds to give the first one up. -/
def lateDelay (d : Departure) : Duration := if d.index = 0 then 2000000000 else 0

/-- Of two records that failed the one is warned of for its status and the other for its body. Where
the first dispatch takes longer than the second, its warning comes last. -/
theorem warns_once_sample :
    (∃ log session,
      Session.run .empty Trace.sampleEvents reportOptions unsteadyEndpoint none =
          ⟨log, .ok session⟩ ∧
        session.outcome.cancelled = false ∧ session.summary.failed = 2 ∧
        warnings log =
          [.rejected 0 500, .bodyFailed 1 200 (.body "error decoding response body")] ∧
        session.WarnsOnce reportOptions (fun d => (unsteadyEndpoint.send reportOptions d).2)
          (warnings log)) ∧
      ∃ log session,
        runWith .empty Trace.sampleEvents besideOptions
            (Endpoint.answering besideOptions.mode lateAnswer lateDelay) none =
          ⟨log, .ok session⟩ ∧
        session.outcome.cancelled = false ∧
        warnings log = [.rejected 1 404, .requestFailed 0 (.timeout 2000000000)] ∧
        session.WarnsOnce besideOptions lateAnswer (warnings log) := by
  have hsteady : (Session.run .empty Trace.sampleEvents reportOptions unsteadyEndpoint
      none).value.toOption.any (fun s => decide
        (s.outcome.cancelled = false ∧ s.summary.failed = 2)) = true := by
    decide +kernel
  have hlate : (runWith .empty Trace.sampleEvents besideOptions
      (Endpoint.answering besideOptions.mode lateAnswer lateDelay) none).value.toOption.any
        (fun s => decide (s.outcome.cancelled = false)) = true := by
    decide +kernel
  constructor
  · obtain ⟨session, hsession, hdone⟩ := (Option.any_eq_true _ _).1 hsteady
    obtain ⟨hopen, hfailed⟩ := of_decide_eq_true hdone
    have hrun := Logged.eq_of_value (Except.toOption_eq_some_iff.1 hsession)
    obtain ⟨-, hwarned⟩ :=
      warns_once .empty Trace.sampleEvents reportOptions none lateAnswer lateDelay
    exact ⟨_, session, hrun, hopen, hfailed, by decide +kernel, hwarned _ _ _ hrun hopen⟩
  · obtain ⟨session, hsession, hdone⟩ := (Option.any_eq_true _ _).1 hlate
    have hopen := of_decide_eq_true hdone
    have hrun := Logged.eq_of_value (Except.toOption_eq_some_iff.1 hsession)
    obtain ⟨hwarned, -⟩ :=
      warns_once .empty Trace.sampleEvents besideOptions none lateAnswer lateDelay
    exact ⟨_, session, hrun, hopen, by decide +kernel, hwarned _ _ hrun hopen⟩

end Session

end LoadReplay
