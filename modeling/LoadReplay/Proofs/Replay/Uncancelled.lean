import LoadReplay.Proofs.Replay.Chronicle

/-!
# Replays that their cancellation does not reach

A quiet replay that ends before it is cancelled is the replay that nobody cancels, step by step
(`Replay.runPaced_of_open`): the two run in lockstep as long as no wait is cut short. `uncancel`
takes the moment of the cancellation out of a course.
-/

namespace LoadReplay

/-! ## Courses -/

namespace Course

/-- The course without the moment of its cancellation. -/
def uncancel (c : Course) : Course := { c with cancelAt := none }

variable {c : Course}

theorem isCancelled_uncancel : c.uncancel.isCancelled = false := rfl

theorem cancelledBy_uncancel {t : Time} : c.uncancel.cancelledBy t = none := rfl

theorem calling_uncancel {d : Departure} {r : Reaction} (h : r.cancels = false) :
    c.uncancel.calling d r = (c.calling d r).uncancel := by
  simp only [calling, uncancel, h, Bool.false_eq_true, if_false]

end Course

variable {dispatcher : Dispatcher}

/-! ## Sequential replays -/

namespace Sequential

/-- The replay without the moment of its cancellation. -/
def State.uncancel (s : State) : State := { s with course := s.course.uncancel }

theorem wait_uncancel (c : Course) (deadline : Time) (h : (wait c deadline).2 = true) :
    wait c.uncancel deadline = ((wait c deadline).1.uncancel, true) := by
  unfold wait at h ⊢
  rw [Course.isCancelled_uncancel, Course.cancelledBy_uncancel]
  split at h
  · cases h
  next hc =>
    rw [if_neg hc]
    split at h
    next hlt =>
      cases hby : c.cancelledBy (Time.wake deadline) with
      | some t => rw [hby] at h; cases h
      | none => simp only [Course.uncancel, hlt]; rfl
    next hge => simp only [Course.uncancel, hge]; rfl

theorem dispatch_uncancel (hquiet : dispatcher.Quiet) (total : Nat) (s : State) (d : Departure)
    (h : (dispatch dispatcher total s d).2 = true) :
    dispatch dispatcher total s.uncancel d =
      ((dispatch dispatcher total s d).1.uncancel, true) := by
  have hcall : dispatched dispatcher s.uncancel.course d =
      (dispatched dispatcher s.course d).uncancel :=
    Course.calling_uncancel (c := { s.course with dispatched := s.course.dispatched + 1 })
      (hquiet d)
  rw [dispatch_eq] at h
  rw [dispatch_eq, dispatch_eq, hcall]
  generalize dispatched dispatcher s.course d = c at h ⊢
  by_cases hdelay : (dispatcher d).delay = 0
  · simp only [hdelay, if_true]
    rfl
  · simp only [hdelay, if_false] at h ⊢
    rw [Course.cancelledBy_uncancel]
    cases hby : c.cancelledBy (Time.wake (c.now + (dispatcher d).delay)) with
    | some t => rw [hby] at h; cases h
    | none => rfl

theorem run_cons {total : Nat} {s s' : State} {c : Course} {d : Departure} (ds : List Departure)
    (hwait : wait s.course d.deadline = (c, true))
    (hdispatch : dispatch dispatcher total ⟨c, s.records⟩ d = (s', true)) :
    run dispatcher total s (d :: ds) = run dispatcher total s' ds := by
  rw [run, hwait]
  dsimp only
  rw [hdispatch]

/-- A replay that is not cancelled was not cancelled at its first departure. -/
theorem exists_of_run_cons {total : Nat} {s : State} {d : Departure} {ds : List Departure}
    (h : (run dispatcher total s (d :: ds)).2 = false) :
    ∃ c s', wait s.course d.deadline = (c, true) ∧
      dispatch dispatcher total ⟨c, s.records⟩ d = (s', true) := by
  rw [run] at h
  split at h
  · cases h
  next c hwait =>
    split at h
    · cases h
    next s' hdispatch => exact ⟨c, s', hwait, hdispatch⟩

theorem run_uncancel (hquiet : dispatcher.Quiet) (total : Nat) (s : State) (ds : List Departure)
    (h : (run dispatcher total s ds).2 = false) :
    run dispatcher total s.uncancel ds = ((run dispatcher total s ds).1.uncancel, false) := by
  induction ds generalizing s with
  | nil => rfl
  | cons d ds ih =>
    obtain ⟨c, s', hw, hd⟩ := exists_of_run_cons h
    have hwait := wait_uncancel s.course d.deadline (by rw [hw])
    have hdispatch := dispatch_uncancel hquiet total ⟨c, s.records⟩ d (by rw [hd])
    rw [hw] at hwait
    rw [hd] at hdispatch
    rw [run_cons ds hw hd] at h ⊢
    rw [run_cons (s := s.uncancel) ds hwait hdispatch]
    exact ih s' h

end Sequential

/-! ## Concurrent replays -/

namespace Concurrent

namespace State

/-- The replay without the moment of its cancellation. -/
def uncancel (s : State) : State := { s with course := s.course.uncancel }

theorem launch_uncancel (hquiet : dispatcher.Quiet) (s : State) (d : Departure) :
    launch dispatcher s.uncancel d = (launch dispatcher s d).uncancel := by
  simp only [launch, uncancel, Course.calling_uncancel (hquiet d)]
  split <;> rfl

theorem turn_uncancel (hquiet : dispatcher.Quiet) (s : State) :
    turn dispatcher s.uncancel = (turn dispatcher s).uncancel := by
  have hfold : ∀ (ds : List Departure) (s : State), ds.foldl (launch dispatcher) s.uncancel =
      (ds.foldl (launch dispatcher) s).uncancel := fun ds s =>
    List.foldl_hom uncancel fun s d => launch_uncancel hquiet s d
  exact hfold (s.queue.take turnSize) { s with queue := s.queue.drop turnSize }

/-- Launching runs in lockstep unless the cancellation stops it. -/
theorem launchAll_uncancel (hquiet : dispatcher.Quiet) (landing : Bool) (s : State)
    (h : (launchAll dispatcher landing s).course.isCancelled = false) :
    launchAll dispatcher landing s.uncancel = (launchAll dispatcher landing s).uncancel := by
  induction s using launchAll.induct dispatcher landing with
  | case1 s hqueue =>
    rw [launchAll, launchAll, dif_pos hqueue]
    exact dif_pos hqueue
  | case2 s hqueue next hcancelled =>
    rw [launchAll, dif_neg hqueue, if_pos hcancelled, hcancelled] at h
    cases h
  | case3 s hqueue next hcancelled hlt ih =>
    have hnext : launchAll dispatcher landing s =
        launchAll dispatcher landing (if landing then next.land else next) := by
      rw [launchAll, dif_neg hqueue, if_neg hcancelled]
    have hstep : launchAll dispatcher landing s.uncancel =
        launchAll dispatcher landing (if landing then next.land else next).uncancel := by
      rw [launchAll, dif_neg (show s.uncancel.queue ≠ [] from hqueue)]
      simp only [turn_uncancel hquiet]
      cases landing <;> rfl
    rw [hnext] at h ⊢
    rw [hstep]
    exact ih h

/-- A wait that is not cut short. -/
theorem wait_uncancel (hquiet : dispatcher.Quiet) (s : State) (deadline : Time)
    (h : (wait dispatcher s deadline).2 = true) :
    wait dispatcher s.uncancel deadline = ((wait dispatcher s deadline).1.uncancel, true) := by
  unfold wait at h ⊢
  by_cases hc : s.course.isCancelled = true
  · rw [if_pos hc] at h
    cases h
  rw [if_neg hc] at h ⊢
  rw [if_neg (show ¬ s.uncancel.course.isCancelled = true from nofun)]
  by_cases hlt : s.course.now < deadline
  · rw [if_pos hlt] at h ⊢
    rw [if_pos (show s.uncancel.course.now < deadline from hlt)]
    dsimp only at h ⊢
    cases hby : (launchAll dispatcher false s).course.cancelledBy (Time.wake deadline) with
    | some t => rw [hby] at h; cases h
    | none =>
      -- launching takes no time, so it is over before the cancellation
      have hopen : (launchAll dispatcher false s).course.isCancelled = false := by
        refine Course.isCancelled_eq_false_iff.2 fun t ht => ?_
        rw [now_launchAll]
        exact (hlt.le.trans (Time.le_wake deadline)).trans_lt
          (Course.cancelledBy_eq_none.1 hby t ht)
      rw [launchAll_uncancel hquiet false s hopen]
      rfl
  · rw [if_neg hlt]
    rw [if_neg (show ¬ s.uncancel.course.now < deadline from hlt)]
    rfl

theorem handOverAll_uncancel (hquiet : dispatcher.Quiet) (total : Nat) (s : State)
    (ds : List Departure) (h : (handOverAll dispatcher total s ds).2 = false) :
    handOverAll dispatcher total s.uncancel ds =
      ((handOverAll dispatcher total s ds).1.uncancel, false) := by
  induction ds generalizing s with
  | nil => rfl
  | cons d ds ih =>
    have hwait := wait_uncancel hquiet s d.deadline
    rw [handOverAll] at h
    rw [handOverAll, handOverAll]
    rcases hw : wait dispatcher s d.deadline with ⟨s', _ | _⟩
    · rw [hw] at h
      cases h
    · rw [hw] at h hwait
      rw [hwait rfl]
      exact ih _ h

/-- The wait for the flights runs in lockstep unless it is cut short. -/
theorem settle_uncancel {s : State} (h : s.settle.2 = false) :
    s.uncancel.settle = (s.settle.1.uncancel, false) := by
  unfold settle at h ⊢
  cases hby : s.course.cancelledBy (s.endings.getLastD s.course.now) with
  | some t => rw [hby] at h; cases h
  | none =>
    have hfold : s.endings.foldl (fun s t => (s.advance t).land) s.uncancel =
        (s.endings.foldl (fun s t => (s.advance t).land) s).uncancel :=
      List.foldl_hom uncancel fun _ _ => rfl
    exact congrArg (·, false) hfold

theorem drain_uncancel (hquiet : dispatcher.Quiet) {s : State}
    (h : (drain dispatcher s).2 = false) :
    drain dispatcher s.uncancel = ((drain dispatcher s).1.uncancel, false) := by
  rw [drain_eq] at h
  rw [drain_eq, drain_eq]
  split at h
  · cases h
  next hc =>
    split at h
    · cases h
    next hc' =>
      have hlaunch : launchAll dispatcher true s.uncancel.land = _ :=
        launchAll_uncancel hquiet true s.land (Bool.not_eq_true _ ▸ hc')
      rw [if_neg hc, if_neg hc', hlaunch]
      exact settle_uncancel h

end State

theorem run_uncancel (hquiet : dispatcher.Quiet) {total : Nat} {cancelAt : Option Time}
    {ds : List Departure} (h : (run dispatcher total cancelAt ds).2 = false) :
    run dispatcher total none ds = ((run dispatcher total cancelAt ds).1.uncancel, false) := by
  have hover : (State.handOverAll dispatcher total (.start cancelAt) ds).2 = false →
      State.handOverAll dispatcher total (.start none) ds = _ :=
    State.handOverAll_uncancel hquiet total (.start cancelAt) ds
  unfold run at h ⊢
  rcases hs : State.handOverAll dispatcher total (.start cancelAt) ds with ⟨s, _ | _⟩
  · rw [hs] at h hover
    rw [hover rfl]
    exact State.drain_uncancel hquiet h
  · rw [hs] at h
    cases h

end Concurrent

namespace Replay

/-- A quiet replay that is not cancelled is the one that nobody cancels. -/
theorem runPaced_of_open {pacing : Pacing} (hquiet : dispatcher.Quiet) {cancelAt : Option Time}
    {ds : List Departure}
    (h : (runPaced pacing dispatcher cancelAt ds).value.outcome.cancelled = false) :
    runPaced pacing dispatcher cancelAt ds = runPaced pacing dispatcher none ds := by
  cases pacing with
  | sequential =>
    have hopen : (Sequential.run dispatcher ds.length ⟨Course.start cancelAt, []⟩ ds).2 = false := h
    have hrun : Sequential.run dispatcher ds.length ⟨Course.start none, []⟩ ds = _ :=
      Sequential.run_uncancel hquiet ds.length ⟨Course.start cancelAt, []⟩ ds hopen
    simp only [runPaced, runSequential, hrun, hopen]
    rfl
  | concurrent =>
    have hopen : (Concurrent.run dispatcher ds.length cancelAt ds).2 = false := h
    have hrun := Concurrent.run_uncancel hquiet hopen
    simp only [runPaced, runConcurrent, hrun, hopen]
    rfl

end Replay

end LoadReplay
