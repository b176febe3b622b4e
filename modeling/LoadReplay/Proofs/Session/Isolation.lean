import LoadReplay.Proofs.Replay.InStep
import LoadReplay.Proofs.Replay.Records
import LoadReplay.Proofs.Report.Atomic
import LoadReplay.Proofs.Session.Fatal

/-!
# Isolated failures

How one dispatch ends concerns its own record alone. `Dispatcher.AgreesExcept` compares two
dispatchers that react alike to all of some events but one, whose dispatches last equally long
without having to end alike: one may fail or panic where the other succeeds. Their sessions make the
same calls at the same times, come to the same figures and leave the same records for all other
events, and their reports differ in the row of that one event (`Session.failure_isolated`).
-/

namespace LoadReplay

/-- Of the first `n` events, the two dispatchers react alike to all but the one at `k`. Its two
dispatches last equally long and ask for the same cancellation, but may end differently. -/
structure Dispatcher.AgreesExcept (n k : Nat) (a b : Dispatcher) : Prop where
  eq_of_index_ne : ∀ d : Departure, d.index < n → d.index ≠ k → a d = b d
  delay_eq : ∀ d : Departure, d.index = k → (a d).delay = (b d).delay
  cancels_eq : ∀ d : Departure, d.index = k → (a d).cancels = (b d).cancels

variable {n k : Nat} {a b : Dispatcher}

theorem Dispatcher.AgreesExcept.inStep (h : a.AgreesExcept n k b) {d : Departure}
    (hd : d.index < n) : a.InStep b d := by
  by_cases hk : d.index = k
  · exact ⟨h.delay_eq d hk, h.cancels_eq d hk⟩
  · have heq := h.eq_of_index_ne d hd hk
    exact ⟨congrArg (·.delay) heq, congrArg (·.cancels) heq⟩

/-! ## Records -/

/-- The two lists are the same but for one place, where each may have a measurement of the event
at `k`. -/
def DifferAt (k : Nat) (xs ys : List Measurement) : Prop :=
  ∃ before after, ∃ mine yours : Option Measurement,
    xs = before ++ mine.toList ++ after ∧ ys = before ++ yours.toList ++ after ∧
      (∀ m ∈ before ++ after, m.index ≠ k) ∧ (∀ m ∈ mine, m.index = k) ∧ ∀ m ∈ yours, m.index = k

namespace DifferAt

variable {xs ys : List Measurement}

theorem filter_eq (h : DifferAt k xs ys) :
    (xs.filter fun m => decide (m.index ≠ k)) = ys.filter fun m => decide (m.index ≠ k) := by
  obtain ⟨before, after, mine, yours, rfl, rfl, -, hmine, hyours⟩ := h
  have hnone (m? : Option Measurement) (hm : ∀ m ∈ m?, m.index = k) :
      (m?.toList.filter fun m => decide (m.index ≠ k)) = [] := by
    cases m? with
    | none => rfl
    | some m => simp [hm m rfl]
  simp only [List.filter_append, hnone mine hmine, hnone yours hyours]

/-- The reports differ in the row of the event at `k`. -/
theorem text_eq (h : DifferAt k xs ys) : ∃ top bottom row row',
    Report.text xs = top ++ row ++ bottom ∧ Report.text ys = top ++ row' ++ bottom ∧
      (row = [] ∨ ∃ m ∈ xs, m.index = k ∧ row = Report.line m.cells) ∧
      (row' = [] ∨ ∃ m ∈ ys, m.index = k ∧ row' = Report.line m.cells) := by
  obtain ⟨before, after, mine, yours, rfl, rfl, -, hmine, hyours⟩ := h
  have hrow (m? : Option Measurement) (hm : ∀ m ∈ m?, m.index = k) :
      (m?.toList.flatMap fun m => Report.line m.cells) = [] ∨
        ∃ m ∈ before ++ m?.toList ++ after, m.index = k ∧
          (m?.toList.flatMap fun m => Report.line m.cells) = Report.line m.cells := by
    cases m? with
    | none => exact .inl rfl
    | some m => exact .inr ⟨m, by simp, hm m rfl, List.append_nil _⟩
  refine ⟨Report.line (Report.columns.map some) ++ before.flatMap fun m => Report.line m.cells,
    after.flatMap fun m => Report.line m.cells, _, _, ?_, ?_, hrow mine hmine,
    hrow yours hyours⟩ <;>
  simp only [Report.text, List.flatMap_append, List.append_assoc]

end DifferAt

namespace Dispatcher

/-- Calls for other events leave the same records. -/
theorem AgreesExcept.recordsOf_eq (h : a.AgreesExcept n k b) {calls : List Call}
    (hn : ∀ call ∈ calls, call.departure.index < n)
    (hne : ∀ call ∈ calls, call.departure.index ≠ k) : b.recordsOf calls = a.recordsOf calls := by
  rw [recordsOf, recordsOf]
  apply List.flatMap_congr
  intro call hcall
  rw [h.eq_of_index_ne _ (hn call hcall) (hne call hcall)]

theorem Faithful.index_ne_of_mem_recordsOf (h : a.Faithful) {calls : List Call}
    (hne : ∀ call ∈ calls, call.departure.index ≠ k) : ∀ m ∈ a.recordsOf calls, m.index ≠ k := by
  intro m hm
  obtain ⟨call, hcall, hending⟩ := mem_recordsOf.1 hm
  rw [(h _ _ hending).index_eq]
  exact hne call hcall

/-- A dispatch leaves at most one record, and a faithful one leaves it for its departure. -/
theorem Faithful.exists_recordsOf (h : a.Faithful) (d : Departure) :
    ∃ m? : Option Measurement, Sequential.recordsOf (a d).ending = m?.toList ∧
      ∀ m ∈ m?, m.index = d.index := by
  have hrecord (e : Ending) :
      Sequential.recordsOf e = (Sequential.recordsOf e).head?.toList := by
    cases e <;> rfl
  exact ⟨_, hrecord _, fun m hm => h.index_eq_of_mem (List.mem_of_head? hm)⟩

/-- Faithful dispatchers that agree except at `k` leave records that differ there only. -/
theorem AgreesExcept.differAt_recordsOf (h : a.AgreesExcept n k b) (ha : a.Faithful)
    (hb : b.Faithful) {calls : List Call} (hn : ∀ call ∈ calls, call.departure.index < n)
    (hindex : calls.Pairwise fun x y => x.departure.index < y.departure.index) :
    DifferAt k (a.recordsOf calls) (b.recordsOf calls) := by
  by_cases hk : ∃ call ∈ calls, call.departure.index = k
  · obtain ⟨call, hcall, rfl⟩ := hk
    obtain ⟨earlier, later, rfl⟩ := List.append_of_mem hcall
    obtain ⟨-, hlater, hearlier⟩ := List.pairwise_append.1 hindex
    have hbefore : ∀ x ∈ earlier, x.departure.index ≠ call.departure.index := fun x hx =>
      (hearlier x hx call (List.mem_cons_self ..)).ne
    have hafter : ∀ x ∈ later, x.departure.index ≠ call.departure.index := fun x hx =>
      ((List.pairwise_cons.1 hlater).1 x hx).ne'
    obtain ⟨hnearlier, hn⟩ := List.forall_mem_append.1 hn
    have hnlater := (List.forall_mem_cons.1 hn).2
    obtain ⟨mine, hmine, hmineindex⟩ := ha.exists_recordsOf call.departure
    obtain ⟨yours, hyours, hyoursindex⟩ := hb.exists_recordsOf call.departure
    refine ⟨a.recordsOf earlier, a.recordsOf later, mine, yours, ?_, ?_,
      List.forall_mem_append.2
        ⟨ha.index_ne_of_mem_recordsOf hbefore, ha.index_ne_of_mem_recordsOf hafter⟩,
      hmineindex, hyoursindex⟩
    · rw [recordsOf_append, recordsOf_cons, hmine, List.append_assoc]
    · rw [recordsOf_append, recordsOf_cons, hyours, List.append_assoc,
        h.recordsOf_eq hnearlier hbefore, h.recordsOf_eq hnlater hafter]
  · have hne : ∀ call ∈ calls, call.departure.index ≠ k := fun call hcall hcallk =>
      hk ⟨call, hcall, hcallk⟩
    refine ⟨a.recordsOf calls, [], none, none, ?_, ?_, ?_, ?_, ?_⟩
    · simp
    · simp [h.recordsOf_eq hn hne]
    · simpa using ha.index_ne_of_mem_recordsOf hne
    · simp
    · simp

end Dispatcher

/-- The records of two replays whose dispatchers agree except at `k` differ there only. -/
theorem Replay.differAt_records (h : a.AgreesExcept n k b) (ha : a.Faithful) (hb : b.Faithful)
    {ds : List Departure} (hds : ∀ d ∈ ds, d.index < n)
    (hindex : ds.Pairwise fun x y => x.index < y.index) (pacing : Pacing)
    (cancelAt : Option Time) :
    DifferAt k (runPaced pacing a cancelAt ds).value.outcome.records
      (runPaced pacing b cancelAt ds).value.outcome.records := by
  have hsteps := runPaced_inStep (fun d hd => h.inStep (hds d hd)) pacing cancelAt
  have hu := chronicle pacing a cancelAt ds
  have hv := chronicle pacing b cancelAt ds
  have hn : ∀ call ∈ (runPaced pacing a cancelAt ds).value.calls, call.departure.index < n := by
    intro call hcall
    have hmap : (plan pacing a ds).map (·.departure) = ds := map_departure_plan
    apply hds
    rw [← hmap]
    exact List.mem_map_of_mem (hu.calls_prefix_table.subset hcall)
  have hcounts : ∀ call ∈ (runPaced pacing a cancelAt ds).value.calls,
      pacing.counts cancelAt (runPaced pacing a cancelAt ds).value.outcome.elapsed (b.ends call) =
        pacing.counts cancelAt (runPaced pacing a cancelAt ds).value.outcome.elapsed
          (a.ends call) := by
    intro call hcall
    rw [(h.inStep (hn call hcall)).ends_eq]
  rw [hu.records_eq ha (pairwise_index_plan hindex), hv.records_eq hb (pairwise_index_plan hindex),
    ← hsteps.calls_eq, ← hsteps.elapsed_eq, List.filter_congr hcounts]
  apply h.differAt_recordsOf ha hb
  · intro call hcall
    exact hn call (List.mem_filter.1 hcall).1
  · exact ((pairwise_index_plan hindex).sublist hu.calls_prefix_table.sublist).filter _

/-! ## Sessions -/

namespace Session

/-- The two sessions are the same but for what became of the event at `k`. -/
structure SameExcept (k : Nat) (u v : Session) : Prop where
  calls_eq : u.calls = v.calls
  total_eq : u.outcome.total = v.outcome.total
  dispatched_eq : u.outcome.dispatched = v.outcome.dispatched
  elapsed_eq : u.outcome.elapsed = v.outcome.elapsed
  maxLag_eq : u.outcome.maxLag = v.outcome.maxLag
  maxInflight_eq : u.outcome.maxInflight = v.outcome.maxInflight
  cancelled_eq : u.outcome.cancelled = v.outcome.cancelled
  records_eq : (u.outcome.records.filter fun m => decide (m.index ≠ k)) =
    v.outcome.records.filter fun m => decide (m.index ≠ k)
  report_eq : ∀ path rows path' rows', u.report = .written path rows →
    v.report = .written path' rows' → path = path' ∧ ∃ top bottom row row',
      u.disk.find path = .ok (.file (Utf8.encode (top ++ row ++ bottom))) ∧
      v.disk.find path = .ok (.file (Utf8.encode (top ++ row' ++ bottom))) ∧
      (row = [] ∨ ∃ m ∈ u.outcome.records, m.index = k ∧ row = Report.line m.cells) ∧
      (row' = [] ∨ ∃ m ∈ v.outcome.records, m.index = k ∧ row' = Report.line m.cells)

/-- The session of a finished replay. -/
def ofFinished (disk : Disk) (options : ReplayOptions) (f : Replay.Finished) : Session :=
  let report := Report.emit disk options.mode options.output f.outcome.records
  { outcome := f.outcome
    calls := f.calls
    summary := .of f.outcome
    report := report.2.value
    disk := report.1 }

theorem runWith_eq_ok {disk : Disk} {events : List Event} {options : ReplayOptions}
    {ds : List Departure} (hds : Replay.departures options.scale events = .ok ds)
    (dispatcher : Dispatcher) (cancelAt : Option Time) :
    (runWith disk events options dispatcher cancelAt).value = .ok
      (ofFinished disk options (Replay.runPaced options.pacing dispatcher cancelAt ds).value) := by
  rw [runWith, Replay.run_eq_ok hds]
  rfl

/-- A session that comes to its end has replayed the departures of its events. -/
theorem exists_departures {disk : Disk} {events : List Event} {options : ReplayOptions}
    {dispatcher : Dispatcher} {cancelAt : Option Time} {session : Session}
    (h : (runWith disk events options dispatcher cancelAt).value = .ok session) :
    ∃ ds, Replay.departures options.scale events = .ok ds ∧
      session = ofFinished disk options
        (Replay.runPaced options.pacing dispatcher cancelAt ds).value := by
  cases hds : Replay.departures options.scale events with
  | error e =>
    rw [runWith_of_fatal (Replay.departures_eq_error_iff.1 hds)] at h
    cases h
  | ok ds => exact ⟨ds, rfl, Except.ok.inj (h.symm.trans (runWith_eq_ok hds dispatcher cancelAt))⟩

theorem sameExcept_ofFinished {u v : Replay.Finished} (h : u.InStep v)
    (hrecords : DifferAt k u.outcome.records v.outcome.records) (disk : Disk)
    (options : ReplayOptions) :
    SameExcept k (ofFinished disk options u) (ofFinished disk options v) where
  calls_eq := h.calls_eq
  total_eq := h.total_eq
  dispatched_eq := h.dispatched_eq
  elapsed_eq := h.elapsed_eq
  maxLag_eq := h.maxLag_eq
  maxInflight_eq := h.maxInflight_eq
  cancelled_eq := h.cancelled_eq
  records_eq := hrecords.filter_eq
  report_eq := by
    intro path rows path' rows' hu hv
    obtain ⟨hpath, hfind⟩ := Report.find_of_written hu
    obtain ⟨hpath', hfind'⟩ := Report.find_of_written hv
    obtain rfl : path = path' := Option.some.inj (hpath.symm.trans hpath')
    obtain ⟨top, bottom, row, row', htext, htext', hrow, hrow'⟩ := hrecords.text_eq
    rw [htext] at hfind
    rw [htext'] at hfind'
    exact ⟨rfl, top, bottom, row, row', hfind, hfind', hrow, hrow'⟩

/-- Two dispatchers that agree on all events but one have the same sessions but for what becomes of
that event, whether it fails, panics or succeeds. -/
theorem failure_isolated (disk : Disk) (events : List Event) (options : ReplayOptions)
    (cancelAt : Option Time) (h : a.AgreesExcept events.length k b) (ha : a.Faithful)
    (hb : b.Faithful) :
    (∃ e, (runWith disk events options a cancelAt).value = .error e ∧
        (runWith disk events options b cancelAt).value = .error e) ∨
      ∃ u v, (runWith disk events options a cancelAt).value = .ok u ∧
        (runWith disk events options b cancelAt).value = .ok v ∧ SameExcept k u v := by
  cases hds : Replay.departures options.scale events with
  | error e =>
    have hfatal := Replay.departures_eq_error_iff.1 hds
    exact .inl ⟨⟨e, [], disk⟩, by rw [runWith_of_fatal hfatal], by rw [runWith_of_fatal hfatal]⟩
  | ok ds =>
    have hlt : ∀ d ∈ ds, d.index < events.length := by
      intro d hd
      obtain ⟨i, hi, hget⟩ := List.mem_iff_getElem.1 hd
      have hfor := Replay.isFor_of_departures hds (List.getElem?_eq_getElem hi)
      rw [← hget, hfor.index_eq, ← Replay.length_departures hds]
      exact hi
    have hsteps := Replay.runPaced_inStep (fun d hd => h.inStep (hlt d hd)) options.pacing cancelAt
    have hrecords := Replay.differAt_records h ha hb hlt (Replay.pairwise_index_departures hds)
      options.pacing cancelAt
    exact .inr ⟨_, _, runWith_eq_ok hds a cancelAt, runWith_eq_ok hds b cancelAt,
      sameExcept_ofFinished hsteps hrecords disk options⟩

/-- A dispatch that is answered after one and a half milliseconds. -/
def answeredStep : ScriptStep :=
  { Script.idle with
    delay := 1500000
    status := some 200 }

/-- Dispatches that are all answered. -/
def answeredScript : Script :=
  { mode := .blocking
    steps := [answeredStep]
    cancelOn := none }

/-- Dispatches every second of which times out. -/
def failingScript : Script :=
  { answeredScript with
    steps :=
      [answeredStep,
        { Script.idle with
          delay := 1500000
          fault := some (.timeout 1500000) }] }

/-- Options for a report. -/
def reportOptions : ReplayOptions :=
  { sampleOptions with
    mode := .blocking
    output := some "out/report.csv" }

theorem agreesExcept_failingScript :
    answeredScript.dispatcher.AgreesExcept 3 1 failingScript.dispatcher where
  eq_of_index_ne := by
    intro d hlt hne
    obtain hd | hd : d.index = 0 ∨ d.index = 2 := by omega
    · simp only [Script.dispatcher, Script.step, hd]
      rfl
    · simp only [Script.dispatcher, Script.step, hd]
      rfl
  delay_eq := by
    intro d hd
    simp only [Script.dispatcher, Script.step, hd]
    rfl
  cancels_eq _ _ := rfl

/-- The second of three dispatches is answered or times out, and both sessions write a report. -/
theorem failure_isolated_sample :
    answeredScript.dispatcher.AgreesExcept 3 1 failingScript.dispatcher ∧
      answeredScript.dispatcher.Faithful ∧ failingScript.dispatcher.Faithful ∧
      ∃ u v,
        (runWith .empty Replay.sampleEvents reportOptions answeredScript.dispatcher none).value =
          .ok u ∧
        (runWith .empty Replay.sampleEvents reportOptions failingScript.dispatcher none).value =
          .ok v ∧
        SameExcept 1 u v ∧ (u.report = .written "out/report.csv" 3 ∧ u.summary.failed = 0) ∧
        v.report = .written "out/report.csv" 3 ∧ v.summary.failed = 1 := by
  have ha := answeredScript.faithful_dispatcher
  have hb := failingScript.faithful_dispatcher
  have hu : (runWith .empty Replay.sampleEvents reportOptions answeredScript.dispatcher
      none).value.toOption.any (fun s => decide
        (s.report = .written "out/report.csv" 3 ∧ s.summary.failed = 0)) = true := by
    decide +kernel
  have hv : (runWith .empty Replay.sampleEvents reportOptions failingScript.dispatcher
      none).value.toOption.any (fun s => decide
        (s.report = .written "out/report.csv" 3 ∧ s.summary.failed = 1)) = true := by
    decide +kernel
  refine ⟨agreesExcept_failingScript, ha, hb, ?_⟩
  rcases failure_isolated .empty Replay.sampleEvents reportOptions none agreesExcept_failingScript
    ha hb with ⟨e, herror, -⟩ | ⟨u, v, hua, hvb, hsame⟩
  · rw [herror] at hu
    cases hu
  · rw [hua] at hu
    rw [hvb] at hv
    exact ⟨u, v, hua, hvb, hsame, of_decide_eq_true hu, of_decide_eq_true hv⟩

end Session

end LoadReplay
