import LoadReplay.Proofs.Replay.Dispatchers
import LoadReplay.Proofs.Replay.Flights
import Mathlib.Data.List.Sort

/-!
# Concurrent replays

The two loops of a concurrent replay against its timetable. While departures are handed over the
replay may be cancelled in a wait; otherwise all of the timetable is handed over
(`handOverAll_ended`). Then it waits for the flights, one ending after the other, up to the last
one or to the cancellation (`Sound.drain`).
-/

namespace LoadReplay.Concurrent

namespace State

variable {dispatcher : Dispatcher} {outer : Option Time} {table handed : List Call} {s : State}

/-! ## Handing over -/

theorem handOverAll_ended (total : Nat) (ds : List Departure)
    (h : Sound dispatcher outer handed s)
    (htable : handed ++ timetable Call.start s.course.now ds = table)
    (hnow : handed ≠ [] → ∃ call ∈ handed, call.start = s.course.now)
    (hlanded : ∀ f ∈ s.landed, ∃ call ∈ handed, f.ends ≤ call.start) :
    (∃ s' handed', handOverAll dispatcher total s ds = (s', true) ∧
        Sound dispatcher outer handed' s' ∧
        s'.course.Ended dispatcher outer table handed' true ∧
        handed'.length < table.length ∧ ∀ f ∈ s'.landed, ∃ call ∈ handed', f.ends ≤ call.start) ∨
      ∃ s', handOverAll dispatcher total s ds = (s', false) ∧ Sound dispatcher outer table s' ∧
        (table ≠ [] → ∃ call ∈ table, call.start = s'.course.now) := by
  induction ds generalizing s handed with
  | nil =>
    rw [timetable, List.append_nil] at htable
    subst htable
    exact .inr ⟨s, rfl, h, hnow⟩
  | cons d ds ih =>
    rw [handOverAll]
    rcases h.wait d.deadline with
      ⟨s', hwait, hs', hc, hdue, hsame⟩ | ⟨s', hwait, hs', hopen, hdue⟩
    · refine .inl ⟨s', handed, by rw [hwait], hs', ?_, ?_, ?_⟩
      · exact hs'.toSound.ended_of_wait (fun _ => le_rfl) htable hs'.calls_eq_or hc hdue
      · rw [← htable, timetable, List.length_append, List.length_cons]
        exact Nat.lt_add_of_pos_right (Nat.succ_pos _)
      · exact hsame ▸ hlanded
    · rw [hwait]
      have hlast : ⟨d, s'.course.now⟩ ∈ handed ++ [(⟨d, s'.course.now⟩ : Call)] :=
        List.mem_append_right _ (List.mem_singleton_self _)
      refine ih (hs'.handOver hopen total d) ?_ (fun _ => ⟨_, hlast, rfl⟩)
        fun f hf => ⟨_, hlast, hs'.land.landed_le_now f hf⟩
      rw [← htable, timetable, ← hdue]
      exact List.append_assoc _ _ _

/-! ## Waiting for the last ones -/

theorem eraseDups_sublist (l : List Time) : List.Sublist l.eraseDups l := by
  match l with
  | [] => exact .slnil
  | t :: l =>
    rw [List.eraseDups_cons]
    exact ((eraseDups_sublist _).trans List.filter_sublist).cons_cons t
termination_by l.length
decreasing_by exact Nat.lt_succ_of_le (List.length_filter_le _ l)

theorem pairwise_endings (s : State) : s.endings.Pairwise (· ≤ ·) :=
  (List.pairwise_mergeSort' (· ≤ ·) _).sublist (eraseDups_sublist _)

theorem mem_endings {s : State} {t : Time} :
    t ∈ s.endings ↔ (∃ f ∈ s.flying, f.ends = t) ∧ s.course.now < t := by
  simp [endings]

theorem getLastD_eq_or_mem (times : List Time) (t : Time) :
    times.getLastD t = t ∨ times.getLastD t ∈ times :=
  List.mem_cons.1 List.getLastD_mem_cons

theorem le_getLastD {times : List Time} (h : times.Pairwise (· ≤ ·)) {t : Time} (ht : t ∈ times)
    (u : Time) : t ≤ times.getLastD u := by
  induction times generalizing u with
  | nil => cases ht
  | cons v times ih =>
    rw [List.getLastD_cons]
    obtain ⟨hv, htimes⟩ := List.pairwise_cons.1 h
    rcases List.mem_cons.1 ht with rfl | ht
    · rcases getLastD_eq_or_mem times t with hlast | hlast
      · exact hlast.ge
      · exact hv _ hlast
    · exact ih htimes ht v

/-- The flights land at their endings, one ending after the other. -/
theorem Sound.foldl_pass (times : List Time) (h : Sound dispatcher outer handed s)
    (hqueue : s.queue = []) (htimes : (s.course.now :: times).Pairwise (· ≤ ·))
    (hcancel : ∀ t ∈ times, ∀ u ∈ s.course.cancelAt, t ≤ u) :
    let s' := times.foldl (fun s t => (s.advance t).land) s
    Sound dispatcher outer handed s' ∧ s'.queue = [] ∧
      s'.course.cancelAt = s.course.cancelAt ∧ s'.course.now = times.getLastD s.course.now := by
  induction times generalizing s with
  | nil => exact ⟨h, hqueue, rfl, rfl⟩
  | cons t times ih =>
    obtain ⟨hnow, htimes⟩ := List.pairwise_cons.1 htimes
    have hstep := (h.advance (hnow t (List.mem_cons_self ..))
      (hcancel t (List.mem_cons_self ..)) (.inl hqueue)).land
    rw [List.getLastD_cons]
    exact ih hstep hqueue htimes fun u hu => hcancel u (List.mem_cons_of_mem _ hu)

/-- A replay that is cancelled after everything was handed over is over. -/
theorem Sound.ended_of_cancelled (h : Sound dispatcher outer table s)
    (hc : s.course.isCancelled = true)
    (hends : table ≠ [] → ∃ call ∈ table, s.course.now ≤ dispatcher.ends call) :
    s.course.Ended dispatcher outer table table true :=
  { h.toSound with
    handed_prefix := List.prefix_rfl
    calls_eq_or := h.calls_eq_or.imp_right fun hheld => ⟨rfl, hheld⟩
    isCancelled := fun _ => hc
    now_le_start := by simp
    now_le_ends := fun _ => hends
    handed_eq := nofun
    ends_le_now := nofun
    ends_lt_outer := nofun
    ends_eq_now := nofun }

theorem Sound.calls_eq (h : Sound dispatcher outer handed s) (hqueue : s.queue = []) :
    s.course.calls = handed := by
  rw [h.handed_eq, hqueue, List.map_nil, List.append_nil]

/-- The endings still to come are ends of calls. -/
theorem Sound.ends_of_mem_endings (h : Sound dispatcher outer handed s) (hqueue : s.queue = [])
    {t : Time} (ht : t ∈ s.endings) : ∃ call ∈ handed, dispatcher.ends call = t := by
  obtain ⟨⟨f, hf, rfl⟩, -⟩ := mem_endings.1 ht
  obtain ⟨call, hcall, rfl⟩ := h.mem_flights.1 (List.mem_append_right _ hf)
  exact ⟨call, h.calls_eq hqueue ▸ hcall, rfl⟩

/-- Every call has ended by the last ending. -/
theorem Sound.ends_le_getLastD (h : Sound dispatcher outer handed s) (hqueue : s.queue = [])
    {call : Call} (hcall : call ∈ handed) :
    dispatcher.ends call ≤ s.endings.getLastD s.course.now := by
  have hnow : s.course.now ≤ s.endings.getLastD s.course.now := by
    rcases getLastD_eq_or_mem s.endings s.course.now with hlast | hlast
    · exact hlast.ge
    · exact (mem_endings.1 hlast).2.le
  rw [← h.calls_eq hqueue] at hcall
  rcases List.mem_append.1 (h.mem_flights.2 ⟨call, hcall, rfl⟩) with hlanded | hflying
  · exact (h.landed_le_now _ hlanded).trans hnow
  · by_cases hlt : s.course.now < dispatcher.ends call
    · exact le_getLastD s.pairwise_endings (mem_endings.2 ⟨⟨_, hflying, rfl⟩, hlt⟩) _
    · exact (not_lt.1 hlt).trans hnow

/-- Waits for the flights once everything was started. -/
def settle (s : State) : State × Bool :=
  let pass (s : State) (t : Time) : State := (s.advance t).land
  match s.course.cancelledBy (s.endings.getLastD s.course.now) with
  | some t => (((s.endings.filter (· < t)).foldl pass s).advance t, true)
  | none => (s.endings.foldl pass s, false)

theorem drain_eq (dispatcher : Dispatcher) (s : State) :
    drain dispatcher s =
      if s.course.isCancelled then (s, true)
      else if (launchAll dispatcher true s.land).course.isCancelled then
        (launchAll dispatcher true s.land, true)
      else (launchAll dispatcher true s.land).land.settle := rfl

theorem pairwise_now_endings (s : State) : (s.course.now :: s.endings).Pairwise (· ≤ ·) :=
  s.pairwise_endings.cons fun _ ht => (mem_endings.1 ht).2.le

/-- The flights land up to a cancellation that comes before the last ending. -/
theorem Sound.settle_of_cancelAt (h : Sound dispatcher outer table s) (hqueue : s.queue = [])
    {t : Time} (hopen : s.course.now < t)
    (hby : s.course.cancelledBy (s.endings.getLastD s.course.now) = some t) :
    Sound dispatcher outer table s.settle.1 ∧
      s.settle.1.course.Ended dispatcher outer table table s.settle.2 := by
  obtain ⟨ht, hle⟩ := Course.cancelledBy_eq_some.1 hby
  have hcancel : ∀ u ∈ s.course.cancelAt, t ≤ u := fun u hu =>
    (Option.some.inj (ht.symm.trans hu)).le
  have hbefore : ∀ u ∈ s.endings.filter (· < t), u ≤ t := fun u hu =>
    (of_decide_eq_true (List.mem_filter.1 hu).2).le
  obtain ⟨hpass, hqueue', hcancelAt, hnow'⟩ := h.foldl_pass (s.endings.filter (· < t)) hqueue
    (s.pairwise_now_endings.sublist (List.filter_sublist.cons_cons _))
    fun u hu v hv => (hbefore u hu).trans (hcancel v hv)
  have hfinal : s.settle =
      (((s.endings.filter (· < t)).foldl (fun s t => (s.advance t).land) s).advance t, true) := by
    simp only [State.settle, hby]
  rw [hfinal]
  generalize (s.endings.filter (· < t)).foldl (fun s t => (s.advance t).land) s = s' at *
  have hreached : s'.course.now ≤ t := by
    rw [hnow']
    rcases getLastD_eq_or_mem (s.endings.filter (· < t)) s.course.now with hu | hu
    · exact hu.le.trans hopen.le
    · exact hbefore _ hu
  have hsound := hpass.advance hreached (hcancelAt ▸ hcancel) (.inl hqueue')
  refine ⟨hsound, hsound.ended_of_cancelled ?_ fun _ => ?_⟩
  · exact Course.isCancelled_iff.2 ⟨t, hcancelAt.trans ht, le_rfl⟩
  · rcases getLastD_eq_or_mem s.endings s.course.now with hlast | hlast
    · exact absurd hopen (hlast ▸ hle).not_gt
    · obtain ⟨call, hcall, hends⟩ := h.ends_of_mem_endings hqueue hlast
      exact ⟨call, hcall, hends ▸ hle⟩

/-- All flights land if no cancellation comes before the last ending. -/
theorem Sound.settle_of_open (h : Sound dispatcher outer table s) (hqueue : s.queue = [])
    (hby : s.course.cancelledBy (s.endings.getLastD s.course.now) = none)
    (hnow : table ≠ [] → ∃ call ∈ table, call.start = s.course.now) :
    Sound dispatcher outer table s.settle.1 ∧
      s.settle.1.course.Ended dispatcher outer table table s.settle.2 := by
  have hopen := Course.cancelledBy_eq_none.1 hby
  obtain ⟨hpass, hqueue', -, hnow'⟩ := h.foldl_pass s.endings hqueue s.pairwise_now_endings
    fun t ht u hu => (le_getLastD s.pairwise_endings ht _).trans (hopen u hu).le
  have hfinal : s.settle = (s.endings.foldl (fun s t => (s.advance t).land) s, false) := by
    simp only [State.settle, hby]
  rw [hfinal]
  generalize s.endings.foldl (fun s t => (s.advance t).land) s = s' at *
  refine ⟨hpass,
    { hpass.toSound with
      handed_prefix := List.prefix_rfl
      calls_eq_or := .inl (hpass.calls_eq hqueue')
      isCancelled := nofun
      now_le_start := nofun
      now_le_ends := nofun
      handed_eq := fun _ => rfl
      ends_le_now := fun _ call hcall => hnow' ▸ h.ends_le_getLastD hqueue hcall
      ends_lt_outer := ?_
      ends_eq_now := ?_ }⟩
  · intro _ call hcall t ht
    obtain ⟨u, hu, hut⟩ := h.cancel_le_outer t ht
    exact ((h.ends_le_getLastD hqueue hcall).trans_lt (hopen u hu)).trans_le hut
  · intro _ htable
    rw [hnow']
    rcases getLastD_eq_or_mem s.endings s.course.now with hlast | hlast
    · obtain ⟨call, hcall, hstart⟩ := hnow htable
      refine ⟨call, hcall, le_antisymm (h.ends_le_getLastD hqueue hcall) ?_⟩
      rw [hlast, ← hstart]
      exact dispatcher.start_le_ends call
    · exact h.ends_of_mem_endings hqueue hlast

/-- The wait for the flights ends with the last of them or with the cancellation. -/
theorem Sound.settle (h : Sound dispatcher outer table s) (hqueue : s.queue = [])
    (hopen : ∀ t ∈ s.course.cancelAt, s.course.now < t)
    (hnow : table ≠ [] → ∃ call ∈ table, call.start = s.course.now) :
    Sound dispatcher outer table s.settle.1 ∧
      s.settle.1.course.Ended dispatcher outer table table s.settle.2 := by
  cases hby : s.course.cancelledBy (s.endings.getLastD s.course.now) with
  | some t =>
    exact h.settle_of_cancelAt hqueue (hopen t (Course.cancelledBy_eq_some.1 hby).1) hby
  | none => exact h.settle_of_open hqueue hby hnow

theorem Sound.drain (h : Sound dispatcher outer table s)
    (hnow : table ≠ [] → ∃ call ∈ table, call.start = s.course.now) :
    Sound dispatcher outer table (State.drain dispatcher s).1 ∧
      (State.drain dispatcher s).1.course.Ended dispatcher outer table table
        (State.drain dispatcher s).2 := by
  have hends : table ≠ [] → ∃ call ∈ table, s.course.now ≤ dispatcher.ends call := by
    intro htable
    obtain ⟨call, hcall, hstart⟩ := hnow htable
    exact ⟨call, hcall, hstart ▸ dispatcher.start_le_ends call⟩
  have hlaunch := h.land.launchAll true
  have hlaunched : (State.launchAll dispatcher true s.land).course.now = s.course.now :=
    now_launchAll dispatcher true s.land
  rw [drain_eq]
  split
  next hc => exact ⟨h, h.ended_of_cancelled hc hends⟩
  next hc =>
    split
    next hc' => exact ⟨hlaunch, hlaunch.ended_of_cancelled hc' (hlaunched ▸ hends)⟩
    next hc' =>
      refine hlaunch.land.settle ((queue_launchAll dispatcher true s.land).resolve_right hc') ?_ ?_
      · exact Course.isCancelled_eq_false_iff.1 (Bool.not_eq_true _ ▸ hc')
      · exact hlaunched.symm ▸ hnow

/-! ## Records -/

/-- The flights that have ended are those of the calls that have. -/
theorem Sound.ended_perm (h : Sound dispatcher outer handed s) :
    (s.landed ++ s.ended).Perm ((s.course.calls.filter fun call =>
      Pacing.concurrent.counts outer s.course.now (dispatcher.ends call)).map
        (flight dispatcher)) := by
  have hcounts : (fun call => Pacing.concurrent.counts outer s.course.now (dispatcher.ends call)) =
      (fun f : Flight => decide (f.ends ≤ s.course.now)) ∘ flight dispatcher := by
    funext call
    exact Bool.and_true _
  have hlanded : s.landed.filter (fun f => decide (f.ends ≤ s.course.now)) = s.landed :=
    List.filter_eq_self.2 fun f hf => decide_eq_true (h.landed_le_now f hf)
  rw [hcounts, ← List.filter_map]
  have hperm := h.flights_perm.filter fun f => decide (f.ends ≤ s.course.now)
  rwa [List.filter_append, hlanded] at hperm

/-- The record that a flight leaves. -/
def recordOf? (f : Flight) : Option Measurement :=
  match f.reaction.ending with
  | .measured record => some record
  | _ => none

theorem filterMap_flight (dispatcher : Dispatcher) (calls : List Call) :
    (calls.map (flight dispatcher)).filterMap recordOf? = dispatcher.recordsOf calls := by
  induction calls with
  | nil => rfl
  | cons call calls ih =>
    rw [List.map_cons, List.filterMap_cons, ih, dispatcher.recordsOf_cons]
    simp only [recordOf?, flight]
    cases (dispatcher call.departure).ending <;> rfl

/-- Whatever the order in which the flights ended, their records are in the order of the
events. -/
theorem Sound.records_eq (h : Sound dispatcher outer handed s) (hfaithful : dispatcher.Faithful)
    (hindex : s.course.calls.Pairwise fun a b => a.departure.index < b.departure.index) :
    s.records = dispatcher.recordsOf (s.course.calls.filter fun call =>
      Pacing.concurrent.counts outer s.course.now (dispatcher.ends call)) := by
  have hperm := h.ended_perm.filterMap recordOf?
  have hsorted := hfaithful.pairwise_recordsOf (hindex.filter fun call =>
    Pacing.concurrent.counts outer s.course.now (dispatcher.ends call))
  rw [filterMap_flight] at hperm
  have hmerged : s.records.Perm _ := (List.mergeSort_perm _ _).trans hperm
  have hle : s.records.Pairwise fun a b => a.index ≤ b.index :=
    (List.pairwise_mergeSort (fun a b c hab hbc => ?_) (fun a b => ?_) _).imp of_decide_eq_true
  · -- no two records have the same index, so only one order of them does not decrease
    refine hmerged.eq_of_pairwise (fun a b ha hb hab hba => ?_) hle (hsorted.imp (·.le))
    have hnodup := List.pairwise_map.2 (hsorted.imp ne_of_lt)
    exact List.inj_on_of_nodup_map hnodup (hmerged.subset ha) hb (le_antisymm hab hba)
  · simp only [decide_eq_true_eq] at hab hbc ⊢
    exact hab.trans hbc
  · simpa using le_total a.index b.index

end State

/-! ## The whole replay -/

theorem run_ended (dispatcher : Dispatcher) (total : Nat) (outer : Option Time)
    (ds : List Departure) :
    ∃ handed, (run dispatcher total outer ds).1.Sound dispatcher outer handed ∧
      (run dispatcher total outer ds).1.course.Ended dispatcher outer
        (timetable Call.start 0 ds) handed (run dispatcher total outer ds).2 := by
  rcases State.handOverAll_ended total ds (State.sound_start dispatcher outer) rfl
    (fun h => absurd rfl h) (by simp [State.start]) with
    ⟨s, handed, hrun, hsound, hended, -⟩ | ⟨s, hrun, hsound, hnow⟩
  · rw [run, hrun]
    exact ⟨handed, hsound, hended⟩
  · rw [run, hrun]
    exact ⟨_, hsound.drain hnow⟩

/-- The warnings of a concurrent replay that is not cancelled are those of its calls. -/
theorem warnings_perm {dispatcher : Dispatcher} {total : Nat} {outer : Option Time}
    {ds : List Departure} (hopen : (run dispatcher total outer ds).2 = false) :
    (warnings (run dispatcher total outer ds).1.course.log).Perm
      (dispatcher.warningsOf (run dispatcher total outer ds).1.course.calls) := by
  obtain ⟨handed, hsound, hended⟩ := run_ended dispatcher total outer ds
  have hcounts : ∀ call ∈ (run dispatcher total outer ds).1.course.calls,
      Pacing.concurrent.counts outer (run dispatcher total outer ds).1.course.now
        (dispatcher.ends call) = true := by
    intro call hcall
    have hmem := hended.handed_prefix.subset (hsound.calls_prefix.subset hcall)
    exact Pacing.counts_of_lt (hended.ends_le_now hopen call hmem)
      (hended.ends_lt_outer hopen call hmem)
  have hflights := hsound.ended_perm
  rw [List.filter_eq_self.2 hcounts] at hflights
  refine hsound.warnings_perm.trans ((hflights.flatMap_right _).trans ?_)
  rw [List.flatMap_map]
  exact List.Perm.refl _

end LoadReplay.Concurrent
