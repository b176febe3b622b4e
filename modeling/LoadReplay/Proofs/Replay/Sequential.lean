import LoadReplay.Proofs.Replay.Ended
import Mathlib.Tactic.Set

/-!
# Sequential replays

The loop of a sequential replay against its timetable. Between two departures the replay is
`Steady`: every call that was made has ended and left its record and its warnings. `run_ended`
follows the loop from a steady state to its end; the replay may be cancelled in a wait, where it is
still steady, or during a call, whose record is then missing.
-/

namespace LoadReplay.Sequential

variable {dispatcher : Dispatcher} {outer : Option Time}

/-! ## The steps -/

/-- A wait that the cancellation ends. -/
theorem wait_of_cancelAt {c : Course} {deadline t : Time} (ht : c.cancelAt = some t)
    (hnow : c.now ≤ t) (hdue : t ≤ Time.due c.now deadline) :
    wait c deadline = ({ c with now := t }, false) := by
  rcases hnow.eq_or_lt with rfl | hlt
  · have hc : c.isCancelled = true := Course.isCancelled_iff.2 ⟨_, ht, le_rfl⟩
    rw [wait, if_pos hc]
  · have hc : c.isCancelled = false := by
      refine Course.isCancelled_eq_false_iff.2 fun u hu => ?_
      rwa [Option.some.inj (hu.symm.trans ht)]
    have hdeadline : c.now < deadline := by
      by_contra hle
      rw [Time.due_of_le (not_lt.1 hle)] at hdue
      exact absurd hdue (not_le.2 hlt)
    rw [Time.due_of_lt hdeadline] at hdue
    have hby := Course.cancelledBy_eq_some.2 ⟨ht, hdue⟩
    simp only [wait, hc, if_pos hdeadline, hby, Bool.false_eq_true, if_false]

/-- The course after a wait that the cancellation does not end. -/
def waited (c : Course) (deadline : Time) : Course :=
  { c with now := Time.due c.now deadline }.lagging deadline

theorem wait_of_open {c : Course} {deadline : Time}
    (h : ∀ t ∈ c.cancelAt, Time.due c.now deadline < t) :
    wait c deadline = (waited c deadline, true) := by
  have hc : c.isCancelled = false :=
    Course.isCancelled_eq_false_iff.2 fun t ht => (Time.le_due _ _).trans_lt (h t ht)
  unfold waited
  by_cases hdeadline : c.now < deadline
  · rw [Time.due_of_lt hdeadline] at h ⊢
    have hby := Course.cancelledBy_eq_none.2 h
    simp only [wait, hc, if_pos hdeadline, hby, Bool.false_eq_true, if_false]
  · rw [Time.due_of_le (not_lt.1 hdeadline)]
    simp only [wait, hc, if_neg hdeadline, Bool.false_eq_true, if_false]

/-- The course once a departure is dispatched. -/
def dispatched (dispatcher : Dispatcher) (c : Course) (d : Departure) : Course :=
  { c with dispatched := c.dispatched + 1 }.calling d (dispatcher d)

theorem dispatch_eq (dispatcher : Dispatcher) (total : Nat) (s : State) (d : Departure) :
    dispatch dispatcher total s d =
      let c := dispatched dispatcher s.course d
      let r := dispatcher d
      match if r.delay = 0 then none else c.cancelledBy (Time.wake (c.now + r.delay)) with
      | some t => ({ s with course := { c with now := t } }, false)
      | none =>
        ({ course :=
            Course.logging
              (if r.delay = 0 then c else { c with now := Time.wake (c.now + r.delay) })
              (r.log ++ progressLog c.dispatched total)
           records := s.records ++ recordsOf r.ending }, true) := rfl

/-- A dispatch that the cancellation cuts short. -/
theorem dispatch_of_cancelAt (total : Nat) {s : State} {d : Departure} {t : Time}
    (hdelay : (dispatcher d).delay ≠ 0)
    (ht : (dispatched dispatcher s.course d).cancelAt = some t)
    (hends : t ≤ dispatcher.ends ⟨d, s.course.now⟩) :
    dispatch dispatcher total s d =
      ({ s with course := { dispatched dispatcher s.course d with now := t } }, false) := by
  simp only [Dispatcher.ends, if_neg hdelay] at hends
  have hby : (dispatched dispatcher s.course d).cancelledBy
      (Time.wake ((dispatched dispatcher s.course d).now + (dispatcher d).delay)) = some t :=
    Course.cancelledBy_eq_some.2 ⟨ht, hends⟩
  simp only [dispatch_eq, if_neg hdelay, hby]

/-- A dispatch that ends. -/
theorem dispatch_of_open (total : Nat) {s : State} {d : Departure}
    (h : (dispatcher d).delay = 0 ∨ ∀ t ∈ (dispatched dispatcher s.course d).cancelAt,
      dispatcher.ends ⟨d, s.course.now⟩ < t) :
    dispatch dispatcher total s d =
      ({ course := Course.logging { dispatched dispatcher s.course d with
            now := dispatcher.ends ⟨d, s.course.now⟩ }
              ((dispatcher d).log ++ progressLog (s.course.dispatched + 1) total)
         records := s.records ++ recordsOf (dispatcher d).ending }, true) := by
  by_cases hdelay : (dispatcher d).delay = 0
  · simp only [dispatch_eq, if_pos hdelay, Dispatcher.ends]
    rfl
  · have hopen := h.resolve_left hdelay
    simp only [Dispatcher.ends, if_neg hdelay] at hopen
    have hby : (dispatched dispatcher s.course d).cancelledBy
        (Time.wake ((dispatched dispatcher s.course d).now + (dispatcher d).delay)) = none :=
      Course.cancelledBy_eq_none.2 hopen
    simp only [dispatch_eq, Dispatcher.ends, if_neg hdelay, hby]
    rfl

/-- The course after a wait that the cancellation does not end and the start of the call. -/
def called (dispatcher : Dispatcher) (c : Course) (d : Departure) : Course :=
  dispatched dispatcher (waited c d.deadline) d

section

variable (total : Nat) {s : State} {d : Departure} (ds : List Departure)

theorem run_of_wait {t : Time} (ht : s.course.cancelAt = some t) (hnow : s.course.now ≤ t)
    (hdue : t ≤ Time.due s.course.now d.deadline) :
    run dispatcher total s (d :: ds) =
      ({ s with course := { s.course with now := t } }, true) := by
  rw [run, wait_of_cancelAt ht hnow hdue]

variable (hopen : ∀ t ∈ s.course.cancelAt, Time.due s.course.now d.deadline < t)
include hopen

theorem run_of_cancelAt (hdelay : (dispatcher d).delay ≠ 0) {t : Time}
    (ht : (called dispatcher s.course d).cancelAt = some t)
    (hends : t ≤ dispatcher.ends ⟨d, Time.due s.course.now d.deadline⟩) :
    run dispatcher total s (d :: ds) =
      ({ s with course := { called dispatcher s.course d with now := t } }, true) := by
  have hcut := dispatch_of_cancelAt total (s := ⟨waited s.course d.deadline, s.records⟩)
    hdelay ht hends
  rw [run, wait_of_open hopen]
  dsimp only
  rw [hcut]
  rfl

theorem run_of_open (hends : (dispatcher d).delay = 0 ∨
      ∀ t ∈ (called dispatcher s.course d).cancelAt,
        dispatcher.ends ⟨d, Time.due s.course.now d.deadline⟩ < t) :
    run dispatcher total s (d :: ds) =
      run dispatcher total
        { course := Course.logging { called dispatcher s.course d with
            now := dispatcher.ends ⟨d, Time.due s.course.now d.deadline⟩ }
              ((dispatcher d).log ++ progressLog (s.course.dispatched + 1) total)
          records := s.records ++ recordsOf (dispatcher d).ending } ds := by
  have hdispatch := dispatch_of_open total
    (s := ⟨waited s.course d.deadline, s.records⟩) hends
  rw [run, wait_of_open hopen]
  dsimp only
  rw [hdispatch]
  rfl

end

/-! ## The loop -/

/-- What holds of a sequential replay between two departures. -/
structure Steady (dispatcher : Dispatcher) (outer : Option Time) (s : State) : Prop
    extends s.course.Sound dispatcher outer s.course.calls where
  records_eq : s.records = dispatcher.recordsOf s.course.calls
  warnings_eq : warnings s.course.log = dispatcher.warningsOf s.course.calls
  ends_le_now : ∀ call ∈ s.course.calls, dispatcher.ends call ≤ s.course.now
  ends_lt_outer : ∀ call ∈ s.course.calls, ∀ t ∈ outer, dispatcher.ends call < t
  ends_eq_now : s.course.calls ≠ [] → ∃ call ∈ s.course.calls, dispatcher.ends call = s.course.now

/-- How a sequential replay ended. -/
structure Ended (dispatcher : Dispatcher) (outer : Option Time) (table : List Call) (s : State)
    (cancelled : Bool) : Prop
    extends s.course.Ended dispatcher outer table s.course.calls cancelled where
  records_eq : s.records = dispatcher.recordsOf (s.course.calls.filter fun call =>
    Pacing.sequential.counts outer s.course.now (dispatcher.ends call))
  warnings_eq : cancelled = false →
    warnings s.course.log = dispatcher.warningsOf s.course.calls

/-- A call that the cancellation cuts short does not count: it ends after the cancellation, or just
then if that came from outside. -/
theorem counts_of_cut {c : Course} {handed : List Call} (h : c.Sound dispatcher outer handed)
    {t ending : Time} (ht : c.cancelAt = some t) (hnow : c.now < ending) (hends : t ≤ ending) :
    Pacing.sequential.counts outer t ending = false := by
  by_contra hcounts
  rw [Bool.not_eq_false] at hcounts
  have heq : t = ending := le_antisymm hends (Pacing.le_of_counts hcounts)
  rcases h.cancel_source t ht with houter | ⟨call, hcall, -, hstart⟩
  · exact (Pacing.lt_of_counts_sequential hcounts t houter).ne' heq
  · have hbefore := h.start_le_now call (h.calls_prefix.subset hcall)
    rw [hstart, heq] at hbefore
    exact hnow.not_ge hbefore

theorem steady_start (dispatcher : Dispatcher) (outer : Option Time) :
    Steady dispatcher outer ⟨Course.start outer, []⟩ :=
  { Course.sound_start dispatcher outer with
    records_eq := rfl
    warnings_eq := rfl
    ends_le_now := by simp [Course.start]
    ends_lt_outer := by simp [Course.start]
    ends_eq_now := fun h => absurd rfl h }

namespace Steady

variable {s : State} {table : List Call}

/-- All calls that were made count, also if time passes. -/
theorem filter_counts (h : Steady dispatcher outer s) {t : Time} (ht : s.course.now ≤ t) :
    (s.course.calls.filter fun call =>
      Pacing.sequential.counts outer t (dispatcher.ends call)) = s.course.calls :=
  List.filter_eq_self.2 fun call hcall =>
    Pacing.counts_of_lt ((h.ends_le_now call hcall).trans ht) (h.ends_lt_outer call hcall)

/-- A replay that has made all its calls is over. -/
theorem ended_of_done (h : Steady dispatcher outer s) :
    Ended dispatcher outer s.course.calls s false :=
  { h.toSound with
    handed_prefix := List.prefix_rfl
    calls_eq_or := .inl rfl
    isCancelled := nofun
    now_le_start := nofun
    now_le_ends := nofun
    handed_eq := fun _ => rfl
    ends_le_now := fun _ => h.ends_le_now
    ends_lt_outer := fun _ => h.ends_lt_outer
    ends_eq_now := fun _ => h.ends_eq_now
    records_eq := by rw [h.records_eq, h.filter_counts le_rfl]
    warnings_eq := fun _ => h.warnings_eq }

variable {d : Departure} {ds : List Departure}

/-- A replay that is cancelled in a wait is over. -/
theorem ended_of_wait (h : Steady dispatcher outer s)
    (htable : s.course.calls ++ timetable dispatcher.ends s.course.now (d :: ds) = table)
    {t : Time} (ht : s.course.cancelAt = some t) (hdue : t ≤ Time.due s.course.now d.deadline) :
    Ended dispatcher outer table { s with course := { s.course with now := t } } true := by
  have hnow : s.course.now ≤ t := h.now_le_cancel t ht
  have hsound := h.toSound.pass hnow fun u hu => (Option.some.inj (ht.symm.trans hu)).le
  exact
    { hsound.ended_of_wait dispatcher.start_le_ends htable (.inl rfl)
        (Course.isCancelled_iff.2 ⟨t, ht, le_rfl⟩) hdue with
      records_eq := by rw [h.records_eq, h.filter_counts hnow]
      warnings_eq := nofun }

theorem sound_called (h : Steady dispatcher outer s)
    (hopen : ∀ t ∈ s.course.cancelAt, Time.due s.course.now d.deadline < t) :
    (called dispatcher s.course d).Sound dispatcher outer
      (s.course.calls ++ [⟨d, Time.due s.course.now d.deadline⟩]) := by
  have hwait := h.toSound.pass (Time.le_due s.course.now d.deadline) fun u hu => (hopen u hu).le
  exact (hwait.hand hopen d).call List.prefix_rfl

/-- A replay that is cancelled during a call is over, and the call leaves no record. -/
theorem ended_of_dispatch (h : Steady dispatcher outer s)
    (htable : s.course.calls ++ timetable dispatcher.ends s.course.now (d :: ds) = table)
    (hopen : ∀ t ∈ s.course.cancelAt, Time.due s.course.now d.deadline < t)
    (hdelay : (dispatcher d).delay ≠ 0) {t : Time}
    (ht : (called dispatcher s.course d).cancelAt = some t)
    (hends : t ≤ dispatcher.ends ⟨d, Time.due s.course.now d.deadline⟩) :
    Ended dispatcher outer table
      { s with course := { called dispatcher s.course d with now := t } } true := by
  have hsound := h.sound_called hopen
  set call : Call := ⟨d, Time.due s.course.now d.deadline⟩ with hcall
  have hnow : call.start ≤ t := hsound.now_le_cancel t ht
  have hsplit : (s.course.calls ++ [call]) ++ timetable dispatcher.ends (dispatcher.ends call) ds =
      table := by
    rw [← htable, List.append_assoc]
    rfl
  have hmem : call ∈ table := by simp [← hsplit]
  have hlt : call.start < dispatcher.ends call := dispatcher.start_lt_ends hdelay
  have hcounts : Pacing.sequential.counts outer t (dispatcher.ends call) = false :=
    counts_of_cut hsound ht hlt hends
  refine
    { hsound.pass hnow fun u hu => (Option.some.inj (ht.symm.trans hu)).le with
      handed_prefix := ⟨_, hsplit⟩
      calls_eq_or := .inl rfl
      isCancelled := fun _ => Course.isCancelled_iff.2 ⟨t, ht, le_rfl⟩
      now_le_start := fun _ later hlater => ?_
      now_le_ends := fun _ _ => ⟨call, hmem, hends⟩
      handed_eq := nofun
      ends_le_now := nofun
      ends_lt_outer := nofun
      ends_eq_now := nofun
      records_eq := ?_
      warnings_eq := nofun }
  · change later ∈ table.drop (s.course.calls ++ [call]).length at hlater
    rw [← hsplit, List.drop_left] at hlater
    exact hends.trans (now_le_of_mem_timetable dispatcher.start_le_ends hlater)
  · have hle : s.course.now ≤ t := (Time.le_due _ _).trans hnow
    have hcalls : (called dispatcher s.course d).calls = s.course.calls ++ [call] := rfl
    simp only [hcalls, List.filter_append, h.filter_counts hle, List.filter_cons, hcounts,
      List.filter_nil, Bool.false_eq_true, if_false, List.append_nil]
    exact h.records_eq

/-- After a call that ends, the replay is steady again. -/
theorem after_dispatch (h : Steady dispatcher outer s)
    (hopen : ∀ t ∈ s.course.cancelAt, Time.due s.course.now d.deadline < t)
    (hends : (dispatcher d).delay = 0 ∨ ∀ t ∈ (called dispatcher s.course d).cancelAt,
      dispatcher.ends ⟨d, Time.due s.course.now d.deadline⟩ < t) (total : Nat) :
    Steady dispatcher outer
      { course := Course.logging { called dispatcher s.course d with
          now := dispatcher.ends ⟨d, Time.due s.course.now d.deadline⟩ }
            ((dispatcher d).log ++ progressLog (s.course.dispatched + 1) total)
        records := s.records ++ recordsOf (dispatcher d).ending } := by
  have hsound := h.sound_called hopen
  set call : Call := ⟨d, Time.due s.course.now d.deadline⟩ with hcall
  have hstart := dispatcher.start_le_ends call
  have hmem : call ∈ s.course.calls ++ [call] := List.mem_append_right _ (List.mem_singleton_self _)
  have hcancel : ∀ t ∈ (called dispatcher s.course d).cancelAt, dispatcher.ends call ≤ t := by
    intro t ht
    rcases hends with hdelay | hlt
    · rw [Dispatcher.ends, if_pos hdelay]
      exact hsound.now_le_cancel t ht
    · exact (hlt t ht).le
  have hle : ∀ other ∈ s.course.calls ++ [call], dispatcher.ends other ≤ dispatcher.ends call := by
    refine List.forall_mem_append.2 ⟨fun other hother => ?_, List.forall_mem_singleton.2 le_rfl⟩
    exact (h.ends_le_now other hother).trans ((Time.le_due _ _).trans hstart)
  have hlt : ∀ other ∈ s.course.calls ++ [call], ∀ t ∈ outer, dispatcher.ends other < t := by
    refine List.forall_mem_append.2 ⟨h.ends_lt_outer, List.forall_mem_singleton.2 fun t ht => ?_⟩
    rcases hends with hdelay | hlt
    · rw [Dispatcher.ends, if_pos hdelay]
      exact hsound.start_lt_outer call hmem t ht
    · obtain ⟨u, hu, hut⟩ := hsound.cancel_le_outer t ht
      exact (hlt u hu).trans_le hut
  refine
    { (hsound.pass hstart hcancel).logging _ with
      records_eq := ?_
      warnings_eq := ?_
      ends_le_now := hle
      ends_lt_outer := hlt
      ends_eq_now := fun _ => ⟨call, hmem, rfl⟩ }
  · change s.records ++ _ = dispatcher.recordsOf (s.course.calls ++ [call])
    rw [h.records_eq, dispatcher.recordsOf_append, dispatcher.recordsOf_singleton]
  · change warnings (s.course.log ++ (_ ++ _)) = dispatcher.warningsOf (s.course.calls ++ [call])
    rw [warnings_append, warnings_append, warnings_progressLog, List.append_nil, h.warnings_eq,
      dispatcher.warningsOf_append, dispatcher.warningsOf_singleton]

end Steady

/-! ## The whole replay -/

theorem run_ended {table : List Call} (total : Nat) (ds : List Departure) {s : State}
    (h : Steady dispatcher outer s)
    (htable : s.course.calls ++ timetable dispatcher.ends s.course.now ds = table) :
    Ended dispatcher outer table (run dispatcher total s ds).1 (run dispatcher total s ds).2 := by
  induction ds generalizing s with
  | nil =>
    rw [timetable, List.append_nil] at htable
    subst htable
    exact h.ended_of_done
  | cons d ds ih =>
    by_cases hopen : ∀ t ∈ s.course.cancelAt, Time.due s.course.now d.deadline < t
    · by_cases hends : (dispatcher d).delay = 0 ∨ ∀ t ∈ (called dispatcher s.course d).cancelAt,
          dispatcher.ends ⟨d, Time.due s.course.now d.deadline⟩ < t
      · rw [run_of_open total ds hopen hends]
        refine ih (h.after_dispatch hopen hends total) ?_
        rw [← htable]
        exact List.append_assoc _ _ _
      · push Not at hends
        obtain ⟨hdelay, t, ht, hle⟩ := hends
        rw [run_of_cancelAt total ds hopen hdelay ht hle]
        exact h.ended_of_dispatch htable hopen hdelay ht hle
    · push Not at hopen
      obtain ⟨t, ht, hdue⟩ := hopen
      rw [run_of_wait total ds ht (h.now_le_cancel t ht) hdue]
      exact h.ended_of_wait htable ht hdue

end LoadReplay.Sequential
