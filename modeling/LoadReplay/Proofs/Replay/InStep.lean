import LoadReplay.Proofs.Replay.Chronicle

/-!
# Replays in step

How a dispatch ends and what it logs is nothing to the replay. Two dispatchers are `InStep` for a
departure if their dispatches of it last equally long and ask for the same cancellation. If they are
for all departures, then their replays make the same calls at the same times, and the two are in the
same state at every moment, the log and the records apart (`Replay.runPaced_inStep`).
-/

namespace LoadReplay

/-- The two dispatches of a departure last equally long and ask for the same cancellation. -/
structure Dispatcher.InStep (a b : Dispatcher) (d : Departure) : Prop where
  delay_eq : (a d).delay = (b d).delay
  cancels_eq : (a d).cancels = (b d).cancels

variable {a b : Dispatcher}

theorem Dispatcher.InStep.ends_eq {call : Call} (h : a.InStep b call.departure) :
    a.ends call = b.ends call := by
  simp only [Dispatcher.ends, h.delay_eq]

/-! ## Courses -/

namespace Course

/-- The two courses are the same but for their logs. -/
structure InStep (c c' : Course) : Prop where
  now_eq : c.now = c'.now
  cancelAt_eq : c.cancelAt = c'.cancelAt
  calls_eq : c.calls = c'.calls
  dispatched_eq : c.dispatched = c'.dispatched
  maxLag_eq : c.maxLag = c'.maxLag

variable {c c' : Course}

theorem InStep.refl (c : Course) : c.InStep c := ⟨rfl, rfl, rfl, rfl, rfl⟩

theorem InStep.isCancelled_eq (h : c.InStep c') : c.isCancelled = c'.isCancelled := by
  simp only [isCancelled, h.now_eq, h.cancelAt_eq]

theorem InStep.cancelledBy_eq (h : c.InStep c') (t : Time) :
    c.cancelledBy t = c'.cancelledBy t := by
  simp only [cancelledBy, h.cancelAt_eq]

theorem InStep.logging (h : c.InStep c') (entries entries' : List LogEntry) :
    (c.logging entries).InStep (c'.logging entries') :=
  { h with }

theorem InStep.pass (h : c.InStep c') (t : Time) :
    InStep { c with now := t } { c' with now := t } :=
  { h with now_eq := rfl }

theorem InStep.lagging (h : c.InStep c') (deadline : Time) :
    (c.lagging deadline).InStep (c'.lagging deadline) :=
  { h with maxLag_eq := by simp only [Course.lagging, h.maxLag_eq, h.now_eq] }

theorem InStep.dispatched (h : c.InStep c') :
    InStep { c with dispatched := c.dispatched + 1 } { c' with dispatched := c'.dispatched + 1 } :=
  { h with dispatched_eq := congrArg (· + 1) h.dispatched_eq }

theorem InStep.calling (h : c.InStep c') (d : Departure) {r r' : Reaction}
    (hr : r.cancels = r'.cancels) : (c.calling d r).InStep (c'.calling d r') :=
  { h with
    cancelAt_eq := by simp only [Course.calling, h.now_eq, h.cancelAt_eq, hr]
    calls_eq := by simp only [Course.calling, h.calls_eq, h.now_eq] }

end Course

/-! ## Sequential replays -/

namespace Sequential

theorem wait_inStep {c c' : Course} (h : c.InStep c') (deadline : Time) :
    ∃ flag u v, wait c deadline = (u, flag) ∧ wait c' deadline = (v, flag) ∧ u.InStep v := by
  simp only [wait, h.isCancelled_eq, h.now_eq, h.cancelledBy_eq]
  split
  · exact ⟨_, _, _, rfl, rfl, h⟩
  · split
    · split
      · exact ⟨_, _, _, rfl, rfl, h.pass _⟩
      · exact ⟨_, _, _, rfl, rfl, (h.pass _).lagging deadline⟩
    · exact ⟨_, _, _, rfl, rfl, h.lagging deadline⟩

theorem dispatch_inStep {d : Departure} (hd : a.InStep b d) (total : Nat) {s t : State}
    (h : s.course.InStep t.course) :
    ∃ flag u v, dispatch a total s d = (u, flag) ∧ dispatch b total t d = (v, flag) ∧
      u.course.InStep v.course := by
  have hcall : (dispatched a s.course d).InStep (dispatched b t.course d) :=
    h.dispatched.calling d hd.cancels_eq
  simp only [dispatch_eq, hd.delay_eq, hcall.now_eq, hcall.cancelledBy_eq]
  split
  · exact ⟨_, _, _, rfl, rfl, hcall.pass _⟩
  · refine ⟨_, _, _, rfl, rfl, Course.InStep.logging ?_ _ _⟩
    split
    · exact hcall
    · exact hcall.pass _

theorem run_inStep {ds : List Departure} (hds : ∀ d ∈ ds, a.InStep b d) (total : Nat)
    {s t : State} (h : s.course.InStep t.course) :
    ∃ flag u v, run a total s ds = (u, flag) ∧ run b total t ds = (v, flag) ∧
      u.course.InStep v.course := by
  induction ds generalizing s t with
  | nil => exact ⟨_, _, _, rfl, rfl, h⟩
  | cons d ds ih =>
    obtain ⟨hd, hds⟩ := List.forall_mem_cons.1 hds
    obtain ⟨flag, c, c', hs, ht, hwait⟩ := wait_inStep h d.deadline
    rw [run, run, hs, ht]
    cases flag with
    | false => exact ⟨_, _, _, rfl, rfl, hwait⟩
    | true =>
      obtain ⟨flag, u, v, hu, hv, hdispatch⟩ := dispatch_inStep (s := { s with course := c })
        (t := { t with course := c' }) hd total hwait
      dsimp only
      rw [hu, hv]
      cases flag with
      | false => exact ⟨_, _, _, rfl, rfl, hdispatch⟩
      | true => exact ih hds hdispatch

end Sequential

/-! ## Concurrent replays -/

namespace Concurrent

namespace State

/-- The two replays are in the same state but for their logs and how dispatches end; the dispatches
still to come are in step. -/
structure InStep (a b : Dispatcher) (s t : State) : Prop where
  course : s.course.InStep t.course
  queue : ∀ d ∈ s.queue, a.InStep b d
  queue_eq : s.queue = t.queue
  ends_eq : s.flying.map (·.ends) = t.flying.map (·.ends)
  maxInflight_eq : s.maxInflight = t.maxInflight

variable {s t : State}

theorem inStep_start (cancelAt : Option Time) : InStep a b (start cancelAt) (start cancelAt) :=
  ⟨.refl _, List.forall_mem_nil _, rfl, rfl, rfl⟩

theorem InStep.launch (h : InStep a b s t) {d : Departure} (hd : a.InStep b d) :
    InStep a b (launch a s d) (launch b t d) := by
  rw [launch_eq, launch_eq]
  exact
    { course := (h.course.calling d hd.cancels_eq).logging _ _
      queue := h.queue
      queue_eq := h.queue_eq
      ends_eq := by
        have hends : a.ends ⟨d, t.course.now⟩ = b.ends ⟨d, t.course.now⟩ := hd.ends_eq
        simp [h.ends_eq, h.course.now_eq, flight, hends]
      maxInflight_eq := h.maxInflight_eq }

theorem InStep.turn (h : InStep a b s t) : InStep a b (turn a s) (turn b t) := by
  have hfold {ds : List Departure} (hds : ∀ d ∈ ds, a.InStep b d) {s t : State}
      (h : InStep a b s t) :
      InStep a b (ds.foldl (State.launch a) s) (ds.foldl (State.launch b) t) := by
    induction ds generalizing s t with
    | nil => exact h
    | cons d ds ih =>
      obtain ⟨hd, hds⟩ := List.forall_mem_cons.1 hds
      exact ih hds (h.launch hd)
  have hqueue := h.queue
  rw [h.queue_eq] at hqueue
  rw [State.turn, State.turn, h.queue_eq]
  apply hfold
  · intro d hd
    exact hqueue d (List.mem_of_mem_take hd)
  · exact
      { h with
        queue := fun d hd => hqueue d (List.mem_of_mem_drop hd)
        queue_eq := rfl }

theorem InStep.land (h : InStep a b s t) : InStep a b s.land t.land where
  course := h.course.logging _ _
  queue := h.queue
  queue_eq := h.queue_eq
  ends_eq := by
    have hfilter (u : State) : u.land.flying.map (·.ends) =
        (u.flying.map (·.ends)).filter fun ends => !decide (ends ≤ u.course.now) := by
      rw [List.filter_map]
      rfl
    rw [hfilter, hfilter, h.ends_eq, h.course.now_eq]
  maxInflight_eq := h.maxInflight_eq

theorem InStep.advance (h : InStep a b s t) (time : Time) :
    InStep a b (s.advance time) (t.advance time) :=
  { h with course := (h.course.logging _ _).pass time }

theorem launchAll_of_ne_nil (dispatcher : Dispatcher) (landing : Bool) (h : s.queue ≠ []) :
    launchAll dispatcher landing s =
      if (turn dispatcher s).course.isCancelled then turn dispatcher s
      else launchAll dispatcher landing
        (if landing then (turn dispatcher s).land else turn dispatcher s) := by
  rw [launchAll, dif_neg h]

theorem InStep.launchAll (h : InStep a b s t) (landing : Bool) :
    InStep a b (launchAll a landing s) (launchAll b landing t) := by
  induction hlength : s.queue.length using Nat.strong_induction_on generalizing s t with
  | _ n ih =>
    by_cases hqueue : s.queue = []
    · rw [State.launchAll, State.launchAll, dif_pos hqueue, dif_pos (h.queue_eq ▸ hqueue)]
      exact h
    have hturn := h.turn
    have hlt := hlength ▸ length_queue_turn_lt a hqueue
    rw [launchAll_of_ne_nil a landing hqueue, launchAll_of_ne_nil b landing (h.queue_eq ▸ hqueue),
      hturn.course.isCancelled_eq]
    split
    · exact hturn
    · cases landing with
      | false => exact ih _ hlt hturn rfl
      | true => exact ih _ hlt hturn.land rfl

theorem InStep.wait (h : InStep a b s t) (deadline : Time) :
    ∃ flag u v, wait a s deadline = (u, flag) ∧ wait b t deadline = (v, flag) ∧
      InStep a b u v := by
  have hlaunch := h.launchAll false
  have hlag {s t : State} (h : InStep a b s t) :
      InStep a b { s with course := s.course.lagging deadline }
        { t with course := t.course.lagging deadline } :=
    { h with course := h.course.lagging deadline }
  simp only [State.wait, h.course.isCancelled_eq, h.course.now_eq, hlaunch.course.cancelledBy_eq]
  split
  · exact ⟨_, _, _, rfl, rfl, h⟩
  · split
    · split
      · exact ⟨_, _, _, rfl, rfl, hlaunch.advance _⟩
      · exact ⟨_, _, _, rfl, rfl, hlag (hlaunch.advance _)⟩
    · exact ⟨_, _, _, rfl, rfl, hlag h⟩

theorem InStep.handOver (h : InStep a b s t) (total : Nat) {d : Departure}
    (hd : a.InStep b d) : InStep a b (handOver total s d) (handOver total t d) := by
  have hland := h.land
  have hlength : s.land.flying.length = t.land.flying.length := by
    simpa using congrArg List.length hland.ends_eq
  exact
    { course := hland.course.dispatched.logging _ _
      queue := List.forall_mem_append.2 ⟨hland.queue, List.forall_mem_singleton.2 hd⟩
      queue_eq := congrArg (· ++ [d]) hland.queue_eq
      ends_eq := hland.ends_eq
      maxInflight_eq := by
        simp only [State.handOver, hland.maxInflight_eq, hland.queue_eq, hlength] }

theorem handOverAll_inStep {ds : List Departure} (hds : ∀ d ∈ ds, a.InStep b d) (total : Nat)
    (h : InStep a b s t) :
    ∃ flag u v, handOverAll a total s ds = (u, flag) ∧ handOverAll b total t ds = (v, flag) ∧
      InStep a b u v := by
  induction ds generalizing s t with
  | nil => exact ⟨_, _, _, rfl, rfl, h⟩
  | cons d ds ih =>
    obtain ⟨hd, hds⟩ := List.forall_mem_cons.1 hds
    obtain ⟨flag, u, v, hu, hv, hwait⟩ := h.wait d.deadline
    rw [handOverAll, handOverAll, hu, hv]
    cases flag with
    | false => exact ⟨_, _, _, rfl, rfl, hwait⟩
    | true => exact ih hds (hwait.handOver total hd)

theorem InStep.settle (h : InStep a b s t) :
    ∃ flag u v, s.settle = (u, flag) ∧ t.settle = (v, flag) ∧ InStep a b u v := by
  have hendings : s.endings = t.endings := by
    simp only [endings, h.ends_eq, h.course.now_eq]
  have hfold (times : List Time) {s t : State} (h : InStep a b s t) :
      InStep a b (times.foldl (fun s time => (s.advance time).land) s)
        (times.foldl (fun s time => (s.advance time).land) t) := by
    induction times generalizing s t with
    | nil => exact h
    | cons time times ih => exact ih (h.advance time).land
  simp only [State.settle, hendings, h.course.now_eq, h.course.cancelledBy_eq]
  split
  · exact ⟨_, _, _, rfl, rfl, (hfold _ h).advance _⟩
  · exact ⟨_, _, _, rfl, rfl, hfold _ h⟩

theorem InStep.drain (h : InStep a b s t) :
    ∃ flag u v, drain a s = (u, flag) ∧ drain b t = (v, flag) ∧ InStep a b u v := by
  have hlaunch := h.land.launchAll true
  rw [drain_eq, drain_eq, h.course.isCancelled_eq, hlaunch.course.isCancelled_eq]
  split
  · exact ⟨_, _, _, rfl, rfl, h⟩
  · split
    · exact ⟨_, _, _, rfl, rfl, hlaunch⟩
    · exact hlaunch.land.settle

end State

theorem run_inStep {ds : List Departure} (hds : ∀ d ∈ ds, a.InStep b d) (total : Nat)
    (cancelAt : Option Time) :
    ∃ flag u v, run a total cancelAt ds = (u, flag) ∧ run b total cancelAt ds = (v, flag) ∧
      State.InStep a b u v := by
  obtain ⟨flag, u, v, hu, hv, hover⟩ :=
    State.handOverAll_inStep hds total (State.inStep_start cancelAt)
  rw [run, run, hu, hv]
  cases flag with
  | true => exact ⟨_, _, _, rfl, rfl, hover⟩
  | false => exact hover.drain

end Concurrent

namespace Replay

/-- What remains of the two replays is the same but for the records. -/
structure Finished.InStep (u v : Finished) : Prop where
  calls_eq : u.calls = v.calls
  total_eq : u.outcome.total = v.outcome.total
  dispatched_eq : u.outcome.dispatched = v.outcome.dispatched
  elapsed_eq : u.outcome.elapsed = v.outcome.elapsed
  maxLag_eq : u.outcome.maxLag = v.outcome.maxLag
  maxInflight_eq : u.outcome.maxInflight = v.outcome.maxInflight
  cancelled_eq : u.outcome.cancelled = v.outcome.cancelled

theorem finish_inStep {c c' : Course} (h : c.InStep c') (total : Nat)
    (records records' : List Measurement) (maxInflight : Nat) (cancelled : Bool) :
    (finish total c records maxInflight cancelled).value.InStep
      (finish total c' records' maxInflight cancelled).value :=
  ⟨h.calls_eq, rfl, h.dispatched_eq, h.now_eq, h.maxLag_eq, rfl, rfl⟩

/-- Replays of dispatchers that are in step are in step. -/
theorem runPaced_inStep {ds : List Departure} (hds : ∀ d ∈ ds, a.InStep b d) (pacing : Pacing)
    (cancelAt : Option Time) :
    (runPaced pacing a cancelAt ds).value.InStep (runPaced pacing b cancelAt ds).value := by
  cases pacing with
  | sequential =>
    obtain ⟨flag, u, v, hu, hv, h⟩ := Sequential.run_inStep (s := ⟨.start cancelAt, []⟩)
      (t := ⟨.start cancelAt, []⟩) hds ds.length (.refl _)
    simp only [runPaced, runSequential, hu, hv, h.dispatched_eq]
    exact finish_inStep h ..
  | concurrent =>
    obtain ⟨flag, u, v, hu, hv, h⟩ := Concurrent.run_inStep hds ds.length cancelAt
    simp only [runPaced, runConcurrent, hu, hv, h.maxInflight_eq]
    exact finish_inStep h.course ..

end Replay

end LoadReplay
