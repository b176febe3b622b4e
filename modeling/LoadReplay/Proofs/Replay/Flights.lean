import LoadReplay.Proofs.Replay.Dispatchers
import LoadReplay.Replay.Concurrent

/-!
# Flights

What a concurrent replay keeps. `State.Sound` adds to a sound course that the departures handed
over are those called and those queued, and that each call made is one flight, noticed to have
ended or not yet. A flight that ended before a departure was handed over has been noticed, and the
log tells of each panic that was; its warnings are those of the flights that have ended. Launching,
landing, letting time pass and handing over keep this (`Sound.launchAll`, `Sound.land`,
`Sound.advance`, `Sound.handOver`), whatever the order in which flights end.
-/

namespace LoadReplay.Concurrent

/-- The flight of a call. -/
def flight (dispatcher : Dispatcher) (call : Call) : Flight :=
  ⟨call.departure, dispatcher call.departure, dispatcher.ends call⟩

/-- Whether a flight ends in a panic. -/
def Flight.panicked (f : Flight) : Bool := decide (f.reaction.ending = .panicked)

namespace State

/-- What holds of a concurrent replay at every moment; `handed` lists the calls that were made and
those that start now. -/
structure Sound (dispatcher : Dispatcher) (outer : Option Time) (handed : List Call)
    (s : State) : Prop extends s.course.Sound dispatcher outer handed where
  handed_eq : handed = s.course.calls ++ s.queue.map fun d => Call.mk d s.course.now
  flights_perm : (s.landed ++ s.flying).Perm (s.course.calls.map (flight dispatcher))
  landed_le_now : ∀ f ∈ s.landed, f.ends ≤ s.course.now
  start_le_ends : ∀ call ∈ handed, ∀ f ∈ s.flying, call.start ≤ f.ends
  count_log : dispatcher.Discreet →
    s.course.log.count .panicked = s.landed.countP Flight.panicked
  warnings_perm : (warnings s.course.log).Perm
    ((s.landed ++ s.ended).flatMap fun f => warnings f.reaction.log)

variable {dispatcher : Dispatcher} {outer : Option Time} {handed : List Call} {s : State}

theorem sound_start (dispatcher : Dispatcher) (outer : Option Time) :
    Sound dispatcher outer [] (start outer) :=
  { Course.sound_start dispatcher outer with
    handed_eq := rfl
    flights_perm := List.Perm.refl _
    landed_le_now := by simp [start]
    start_le_ends := by simp
    count_log := fun _ => rfl
    warnings_perm := List.Perm.refl _ }

/-! ## Launching -/

/-- What a dispatch logs when it starts: all that it has to if it ends at once, and else nothing. -/
def launchLog (dispatcher : Dispatcher) (d : Departure) : List LogEntry :=
  if (dispatcher d).delay = 0 then (dispatcher d).log else []

theorem launchLog_prefix_log (dispatcher : Dispatcher) (d : Departure) :
    launchLog dispatcher d <+: (dispatcher d).log := by
  unfold launchLog
  split
  · exact List.prefix_rfl
  · exact List.nil_prefix

theorem launch_eq (dispatcher : Dispatcher) (s : State) (d : Departure) :
    launch dispatcher s d =
      { s with
        course := (s.course.calling d (dispatcher d)).logging (launchLog dispatcher d)
        flying := s.flying ++ [flight dispatcher ⟨d, s.course.now⟩] } := by
  by_cases hdelay : (dispatcher d).delay = 0
  · simp only [launch, flight, Dispatcher.ends, launchLog, if_pos hdelay]
    rfl
  · simp only [launch, flight, Dispatcher.ends, launchLog, if_neg hdelay, Course.logging,
      List.append_nil]
    rfl

/-- A flight that logs as it starts has ended. -/
theorem flatMap_ended_flight (dispatcher : Dispatcher) (d : Departure) (now : Time) :
    ([flight dispatcher ⟨d, now⟩].filter fun f => decide (f.ends ≤ now)).flatMap
      (fun f => warnings f.reaction.log) = warnings (launchLog dispatcher d) := by
  have hends : (flight dispatcher ⟨d, now⟩).ends = dispatcher.ends ⟨d, now⟩ := rfl
  unfold launchLog
  split_ifs with hdelay
  · rw [List.filter_cons_of_pos (by rw [hends, Dispatcher.ends, if_pos hdelay]; simp)]
    exact List.append_nil _
  · have hlt : (⟨d, now⟩ : Call).start < dispatcher.ends ⟨d, now⟩ :=
      dispatcher.start_lt_ends hdelay
    rw [List.filter_cons_of_neg (by simpa [hends] using hlt)]
    rfl

theorem now_launch (dispatcher : Dispatcher) (s : State) (d : Departure) :
    (launch dispatcher s d).course.now = s.course.now := by
  rw [launch_eq]
  rfl

/-- What launching keeps, a turn keeps, if it does not depend on the queue. -/
theorem turn_induction {motive : State → Prop}
    (launch : ∀ s d, motive s → motive (launch dispatcher s d)) (s : State)
    (h : motive { s with queue := s.queue.drop turnSize }) : motive (turn dispatcher s) :=
  List.foldlRecOn (s.queue.take turnSize) _ h fun t ht d _ => launch t d ht

theorem now_turn (dispatcher : Dispatcher) (s : State) :
    (turn dispatcher s).course.now = s.course.now :=
  turn_induction (motive := fun t => t.course.now = s.course.now)
    (fun t d h => (now_launch dispatcher t d).trans h) s rfl

theorem landed_turn (dispatcher : Dispatcher) (s : State) :
    (turn dispatcher s).landed = s.landed :=
  turn_induction (motive := fun t => t.landed = s.landed) (fun _ _ h => h) s rfl

/-- Launching the head of the queue makes its call. -/
theorem Sound.launch {d : Departure} {queue : List Departure}
    (h : Sound dispatcher outer handed { s with queue := d :: queue }) :
    Sound dispatcher outer handed { launch dispatcher s d with queue := queue } := by
  have hhanded : handed =
      (s.course.calls ++ [⟨d, s.course.now⟩]) ++ queue.map fun d => Call.mk d s.course.now := by
    rw [h.handed_eq, List.append_assoc]
    rfl
  have hcall : (s.course.calling d (dispatcher d)).Sound dispatcher outer handed :=
    Course.Sound.call h.toSound ⟨_, hhanded.symm⟩
  rw [launch_eq]
  refine
    { hcall.logging (launchLog dispatcher d) with
      handed_eq := hhanded
      flights_perm := ?_
      landed_le_now := h.landed_le_now
      start_le_ends := fun call hmem => List.forall_mem_append.2
        ⟨h.start_le_ends call hmem, List.forall_mem_singleton.2 ?_⟩
      count_log := fun hdiscreet => ?_
      warnings_perm := ?_ }
  · change (s.landed ++ (s.flying ++ [flight dispatcher ⟨d, s.course.now⟩])).Perm
      ((s.course.calls ++ [Call.mk d s.course.now]).map (flight dispatcher))
    rw [← List.append_assoc, List.map_append]
    exact h.flights_perm.append_right _
  · exact (h.start_le_now call hmem).trans (dispatcher.start_le_ends ⟨d, s.course.now⟩)
  · change (s.course.log ++ launchLog dispatcher d).count .panicked = _
    have hnone := List.count_eq_zero.2 fun hmem =>
      hdiscreet d ((launchLog_prefix_log dispatcher d).subset hmem)
    rw [List.count_append, hnone]
    exact h.count_log hdiscreet
  · change (warnings (s.course.log ++ launchLog dispatcher d)).Perm
      ((s.landed ++ (s.flying ++ [flight dispatcher ⟨d, s.course.now⟩]).filter
        fun f => decide (f.ends ≤ s.course.now)).flatMap fun f => warnings f.reaction.log)
    rw [warnings_append, List.filter_append, ← List.append_assoc, List.flatMap_append,
      flatMap_ended_flight]
    exact h.warnings_perm.append_right _

theorem Sound.foldl_launch (ds : List Departure)
    (h : Sound dispatcher outer handed { s with queue := ds ++ s.queue }) :
    Sound dispatcher outer handed (ds.foldl (State.launch dispatcher) s) := by
  induction ds generalizing s with
  | nil => exact h
  | cons d ds ih =>
    have hqueue : (State.launch dispatcher s d).queue = s.queue := rfl
    refine ih ?_
    rw [hqueue]
    exact h.launch

theorem Sound.turn (h : Sound dispatcher outer handed s) :
    Sound dispatcher outer handed (turn dispatcher s) := by
  refine Sound.foldl_launch _ ?_
  rw [List.take_append_drop]
  exact h

/-! ## Landing -/

/-- All flights that have ended are noticed. -/
theorem ended_land (s : State) : s.land.ended = [] := by
  refine List.filter_eq_nil_iff.2 fun f hf hended => ?_
  have hlate : (!decide (f.ends ≤ s.land.course.now)) = true := (List.mem_filter.1 hf).2
  rw [hended] at hlate
  cases hlate

theorem Sound.land (h : Sound dispatcher outer handed s) :
    Sound dispatcher outer handed s.land := by
  refine
    { h.toSound.logging _ with
      handed_eq := h.handed_eq
      flights_perm := ?_
      landed_le_now := List.forall_mem_append.2 ⟨h.landed_le_now, fun f hf => ?_⟩
      start_le_ends := fun call hcall f hf => h.start_le_ends call hcall f (List.mem_filter.1 hf).1
      count_log := fun hdiscreet => ?_
      warnings_perm := ?_ }
  · refine List.Perm.trans ?_ h.flights_perm
    change ((s.landed ++ s.ended) ++ _).Perm _
    rw [List.append_assoc]
    exact (List.filter_append_perm (fun f => decide (f.ends ≤ s.course.now)) s.flying).append_left _
  · exact of_decide_eq_true (List.mem_filter.1 hf).2
  · change (s.course.log ++ _).count .panicked = (s.landed ++ s.ended).countP Flight.panicked
    rw [List.count_append, h.count_log hdiscreet, List.countP_append, List.map_const',
      List.count_replicate_self, List.countP_eq_length_filter (l := s.ended)]
    rfl
  · change (warnings (s.course.log ++ _)).Perm (((s.landed ++ s.ended) ++ s.land.ended).flatMap _)
    rw [warnings_append, warnings_panicked, List.append_nil, ended_land, List.append_nil]
    exact h.warnings_perm

/-- What launching and landing keep, launching all keeps. -/
theorem launchAll_induction {motive : State → Prop} {landing : Bool}
    (turn : ∀ s, motive s → motive (turn dispatcher s))
    (land : landing = true → ∀ s, motive s → motive s.land)
    (s : State) (h : motive s) : motive (launchAll dispatcher landing s) := by
  induction s using launchAll.induct dispatcher landing with
  | case1 s hqueue =>
    rw [launchAll, dif_pos hqueue]
    exact h
  | case2 s hqueue next hcancelled =>
    rw [launchAll, dif_neg hqueue, if_pos hcancelled]
    exact turn s h
  | case3 s hqueue next hcancelled hlt ih =>
    rw [launchAll, dif_neg hqueue, if_neg hcancelled]
    refine ih ?_
    cases landing with
    | false => exact turn s h
    | true => exact land rfl _ (turn s h)

theorem Sound.launchAll (h : Sound dispatcher outer handed s) (landing : Bool) :
    Sound dispatcher outer handed (State.launchAll dispatcher landing s) :=
  launchAll_induction (motive := Sound dispatcher outer handed) (fun _ h => h.turn)
    (fun _ _ h => h.land) s h

theorem now_launchAll (dispatcher : Dispatcher) (landing : Bool) (s : State) :
    (launchAll dispatcher landing s).course.now = s.course.now :=
  launchAll_induction (motive := fun t => t.course.now = s.course.now)
    (fun t h => (now_turn dispatcher t).trans h) (fun _ _ h => h) s rfl

theorem landed_launchAll (dispatcher : Dispatcher) (s : State) :
    (launchAll dispatcher false s).landed = s.landed :=
  launchAll_induction (motive := fun t => t.landed = s.landed)
    (fun t h => (landed_turn dispatcher t).trans h) (fun h => absurd h Bool.false_ne_true) s rfl

/-- Only a cancellation keeps departures in the queue. -/
theorem queue_launchAll (dispatcher : Dispatcher) (landing : Bool) (s : State) :
    (launchAll dispatcher landing s).queue = [] ∨
      (launchAll dispatcher landing s).course.isCancelled = true := by
  induction s using launchAll.induct dispatcher landing with
  | case1 s hqueue =>
    rw [launchAll, dif_pos hqueue]
    exact .inl hqueue
  | case2 s hqueue next hcancelled =>
    rw [launchAll, dif_neg hqueue, if_pos hcancelled]
    exact .inr hcancelled
  | case3 s hqueue next hcancelled hlt ih =>
    rw [launchAll, dif_neg hqueue, if_neg hcancelled]
    exact ih

/-! ## Time and departures -/

theorem now_advance (s : State) (t : Time) : (s.advance t).course.now = t := rfl

theorem cancelAt_advance (s : State) (t : Time) :
    (s.advance t).course.cancelAt = s.course.cancelAt := rfl

theorem Sound.mem_flights (h : Sound dispatcher outer handed s) {f : Flight} :
    f ∈ s.landed ++ s.flying ↔ ∃ call ∈ s.course.calls, flight dispatcher call = f := by
  rw [h.flights_perm.mem_iff, List.mem_map]

/-- As time passes, the flights that end meanwhile are added to those that have ended. -/
theorem ended_advance_perm (s : State) {t : Time} (hnow : s.course.now ≤ t) :
    (s.advance t).ended.Perm (s.ended ++
      s.flying.filter fun f => decide (s.course.now < f.ends ∧ f.ends ≤ t)) := by
  have hearly : (s.advance t).ended.filter (fun f => decide (f.ends ≤ s.course.now)) =
      s.ended := by
    refine List.filter_filter.trans (List.filter_congr fun f _ => ?_)
    rw [← Bool.decide_and, decide_eq_decide]
    exact and_iff_left_of_imp fun hle => hle.trans hnow
  have hlate : (s.advance t).ended.filter (fun f => !decide (f.ends ≤ s.course.now)) =
      s.flying.filter fun f => decide (s.course.now < f.ends ∧ f.ends ≤ t) := by
    refine List.filter_filter.trans (List.filter_congr fun f _ => ?_)
    rw [← decide_not, ← Bool.decide_and]
    simp only [not_le, now_advance]
  rw [← hearly, ← hlate]
  exact (List.filter_append_perm _ _).symm

/-- Time may pass up to the moment of the cancellation once the queue is empty. -/
theorem Sound.advance (h : Sound dispatcher outer handed s) {t : Time} (hnow : s.course.now ≤ t)
    (hcancel : ∀ u ∈ s.course.cancelAt, t ≤ u) (hqueue : s.queue = [] ∨ t = s.course.now) :
    Sound dispatcher outer handed (s.advance t) := by
  refine
    { (h.toSound.logging _).pass hnow hcancel with
      handed_eq := ?_
      flights_perm := h.flights_perm
      landed_le_now := fun f hf => (h.landed_le_now f hf).trans hnow
      start_le_ends := h.start_le_ends
      count_log := fun hdiscreet => ?_
      warnings_perm := ?_ }
  · rw [h.handed_eq]
    rcases hqueue with hqueue | rfl
    · simp [State.advance, Course.logging, hqueue]
    · rfl
  · change (s.course.log ++ _).count .panicked = _
    rw [List.count_append, h.count_log hdiscreet, List.count_eq_zero.2 fun hmem => ?_]
    · rfl
    · obtain ⟨f, hf, hlogs⟩ := List.mem_flatMap.1 hmem
      have hflying := (List.mem_filter.1 ((List.mergeSort_perm _ _).subset hf)).1
      obtain ⟨call, -, rfl⟩ := h.mem_flights.1 (List.mem_append_right _ hflying)
      exact hdiscreet call.departure hlogs
  · change (warnings (s.course.log ++ _)).Perm ((s.landed ++ (s.advance t).ended).flatMap _)
    rw [warnings_append, warnings_flatMap]
    refine (h.warnings_perm.append_right _).trans ?_
    rw [← List.flatMap_append, List.append_assoc]
    refine List.Perm.flatMap_right _ (List.Perm.append_left _ ?_)
    exact ((List.mergeSort_perm _ _).append_left _).trans (ended_advance_perm s hnow).symm

theorem count_progressLog (dispatched total : Nat) :
    (progressLog dispatched total).count .panicked = 0 := by
  unfold progressLog
  split <;> simp

theorem Sound.handOver (h : Sound dispatcher outer handed s)
    (hopen : ∀ t ∈ s.course.cancelAt, s.course.now < t) (total : Nat) (d : Departure) :
    Sound dispatcher outer (handed ++ [⟨d, s.course.now⟩])
      (State.handOver total { s with course := s.course.lagging d.deadline } d) := by
  have hland := h.land
  have hhand := hland.toSound.hand hopen d
  refine
    { hhand.logging (progressLog (s.course.dispatched + 1) total) with
      handed_eq := ?_
      flights_perm := hland.flights_perm
      landed_le_now := hland.landed_le_now
      start_le_ends := List.forall_mem_append.2
        ⟨hland.start_le_ends, List.forall_mem_singleton.2 fun f hf => ?_⟩
      count_log := fun hdiscreet => ?_
      warnings_perm := ?_ }
  · change _ = s.course.calls ++ (s.queue ++ [d]).map fun d => Call.mk d s.course.now
    rw [h.handed_eq, List.append_assoc, List.map_append]
    rfl
  · have hlate := (List.mem_filter.1 hf).2
    rw [Bool.not_eq_true', decide_eq_false_iff_not] at hlate
    exact (not_le.1 hlate).le
  · change (s.land.course.log ++ progressLog (s.course.dispatched + 1) total).count .panicked = _
    rw [List.count_append, hland.count_log hdiscreet, count_progressLog]
    rfl
  · change (warnings (s.land.course.log ++ progressLog (s.course.dispatched + 1) total)).Perm _
    rw [warnings_append, warnings_progressLog, List.append_nil]
    exact hland.warnings_perm

/-- A wait ends when its deadline has come or with the cancellation, and not after it. No flight is
noticed to have ended in a wait. -/
theorem Sound.wait (h : Sound dispatcher outer handed s) (deadline : Time) :
    (∃ s', State.wait dispatcher s deadline = (s', false) ∧ Sound dispatcher outer handed s' ∧
        s'.course.isCancelled = true ∧ s'.course.now ≤ Time.due s.course.now deadline ∧
        s'.landed = s.landed) ∨
      ∃ s', State.wait dispatcher s deadline =
          ({ s' with course := s'.course.lagging deadline }, true) ∧
        Sound dispatcher outer handed s' ∧ (∀ t ∈ s'.course.cancelAt, s'.course.now < t) ∧
        s'.course.now = Time.due s.course.now deadline := by
  by_cases hc : s.course.isCancelled = true
  · refine .inl ⟨s, ?_, h, hc, Time.le_due _ _, rfl⟩
    rw [State.wait, if_pos hc]
  by_cases hlt : s.course.now < deadline
  · have hlaunch := h.launchAll false
    have hnow := now_launchAll dispatcher false s
    have hqueue := queue_launchAll dispatcher false s
    have hlanded := landed_launchAll dispatcher s
    rw [Time.due_of_lt hlt]
    generalize hs : State.launchAll dispatcher false s = s₁ at hlaunch hnow hqueue hlanded
    have hwake : s₁.course.now ≤ Time.wake deadline :=
      hnow ▸ hlt.le.trans (Time.le_wake deadline)
    cases hby : s₁.course.cancelledBy (Time.wake deadline) with
    | some t =>
      obtain ⟨ht, hle⟩ := Course.cancelledBy_eq_some.1 hby
      have hcancel : ∀ u ∈ s₁.course.cancelAt, t ≤ u := fun u hu =>
        (Option.some.inj (ht.symm.trans hu)).le
      refine .inl ⟨s₁.advance t, ?_, hlaunch.advance (hlaunch.now_le_cancel t ht) hcancel ?_,
        Course.isCancelled_iff.2 ⟨t, ht, le_rfl⟩, hle, hlanded⟩
      · simp only [State.wait, if_neg hc, if_pos hlt, hs, hby]
      · refine hqueue.imp_right fun hcancelled => ?_
        exact Option.some.inj (ht.symm.trans (hlaunch.cancelAt_eq hcancelled))
    | none =>
      have hopen := Course.cancelledBy_eq_none.1 hby
      refine .inr ⟨s₁.advance (Time.wake deadline), ?_,
        hlaunch.advance hwake (fun u hu => (hopen u hu).le) ?_, ?_, now_advance _ _⟩
      · simp only [State.wait, if_neg hc, if_pos hlt, hs, hby]
      · refine hqueue.imp_right fun hcancelled => ?_
        exact absurd (hopen _ (hlaunch.cancelAt_eq hcancelled)) (not_lt.2 hwake)
      · rw [cancelAt_advance, now_advance]
        exact hopen
  · refine .inr ⟨s, ?_, h, Course.isCancelled_eq_false_iff.1 (Bool.not_eq_true _ ▸ hc), ?_⟩
    · rw [State.wait, if_neg hc, if_neg hlt]
    · exact (Time.due_of_le (not_lt.1 hlt)).symm

/-- A departure that was handed over and not called starts now. -/
theorem Sound.calls_eq_or (h : Sound dispatcher outer handed s) :
    s.course.calls = handed ∨ ∃ call ∈ handed, call.start = s.course.now := by
  have hhanded := h.handed_eq
  cases hqueue : s.queue with
  | nil =>
    rw [hqueue, List.map_nil, List.append_nil] at hhanded
    exact .inl hhanded.symm
  | cons d ds =>
    rw [hqueue, List.map_cons] at hhanded
    refine .inr ⟨⟨d, s.course.now⟩, ?_, rfl⟩
    rw [hhanded]
    exact List.mem_append_right _ (List.mem_cons_self ..)

end State

end LoadReplay.Concurrent
