import LoadReplay.Proofs.Event.Accepted
import LoadReplay.Proofs.Text.Split
import Mathlib.Order.Bounds.Basic

/-!
# Sequences that can be replayed

A sequence can be replayed (`Event.Replayable`) when it is not empty, its events are well-formed and
no event is before any of the earlier ones. These are the sequences that are accepted, so what is
accepted can be cut short (`Event.Replayable.shorten`).

Any other sequence is refused at the end of its shortest piece that cannot be replayed
(`Event.RefusedAt`): the fault is true of the event there, its text names this event, and what
stands behind it does not matter. `Event.refused_at_first` is the whole law.
-/

namespace LoadReplay

/-- The index of the event that a fault is about. -/
def EventFault.index? : EventFault → Option Nat
  | noEvents => none
  | badOffset i _ => some i
  | unsorted i _ _ => some i
  | noBucket i => some i
  | noPrompt i _ => some i
  | outOfRange i _ => some i

/-- The text of a fault begins with the event that it is about. -/
theorem EventFault.begins_message {fault : EventFault} {i : Nat} (h : fault.index? = some i) :
    Text.Begins s!"event {i}: " fault.message := by
  cases fault with
  | noEvents => cases h
  | badOffset =>
    cases h
    have hstart : Text.Begins ": " ": offset must be finite and non-negative, got " :=
      ⟨"offset must be finite and non-negative, got ", by decide⟩
    exact (Text.begins_append _ hstart).append _
  | unsorted =>
    cases h
    have hstart : Text.Begins ": " ": offset " := ⟨"offset ", by decide⟩
    exact (((Text.begins_append _ hstart).append _).append _).append _
  | noBucket =>
    cases h
    have hstart : Text.Begins ": " ": empty bucket id" := ⟨"empty bucket id", by decide⟩
    exact Text.begins_append _ hstart
  | noPrompt =>
    cases h
    have hstart : Text.Begins ": " ": bucket '" := ⟨"bucket '", by decide⟩
    exact ((Text.begins_append _ hstart).append _).append _
  | outOfRange =>
    cases h
    have hstart : Text.Begins ": " ": scaled offset " := ⟨"scaled offset ", by decide⟩
    exact ((Text.begins_append _ hstart).append _).append _

namespace Event

open Double

/-! ## What can be replayed -/

/-- What can be replayed: events that are well-formed, none of them before an earlier one. -/
structure Replayable (events : List Event) : Prop where
  ne_nil : events ≠ []
  wellFormed : ∀ e ∈ events, e.WellFormed
  offset_le : ∀ (i j : Nat) (_ : i < j) (_ : j < events.length),
    events[i].offset ≤ events[j].offset

variable {events : List Event}

theorem replayable_iff_pairwise : Replayable events ↔ events ≠ [] ∧ (∀ e ∈ events, e.WellFormed) ∧
    (events.map (·.offset)).Pairwise (· ≤ ·) := by
  rw [List.pairwise_map, List.pairwise_iff_getElem]
  exact ⟨fun h => ⟨h.ne_nil, h.wellFormed, fun i j _ hj hij => h.offset_le i j hij hj⟩,
    fun ⟨hne, hformed, hle⟩ => ⟨hne, hformed, fun i j hij hj => hle i j (hij.trans hj) hj hij⟩⟩

theorem validate_eq_ok_iff_replayable : validate events = .ok () ↔ Replayable events :=
  validate_eq_ok_iff.trans replayable_iff_pairwise.symm

/-- What can be replayed can be cut short. -/
theorem Replayable.shorten {shorter : List Event} (h : Replayable events)
    (hpiece : shorter <+: events) (hne : shorter ≠ []) : Replayable shorter := by
  obtain ⟨-, hformed, hpairwise⟩ := replayable_iff_pairwise.1 h
  exact replayable_iff_pairwise.2 ⟨hne, fun e he => hformed e (hpiece.subset he),
    hpairwise.sublist (hpiece.sublist.map _)⟩

instance (events : List Event) : Decidable (Replayable events) :=
  decidable_of_iff _ replayable_iff_pairwise.symm

/-! ## What a fault says -/

/-- A fault says of the event at an index what is wrong with it. -/
inductive FaultAt (events : List Event) (i : Nat) : EventFault → Prop where
  | badOffset {e : Event} (he : events[i]? = some e)
    (h : ¬ (e.offset.isFinite = true ∧ 0 ≤ e.offset)) :
    FaultAt events i (.badOffset i e.offset)
  | unsorted {j : Nat} {previous e : Event} (hj : j + 1 = i) (he : events[i]? = some e)
    (hprevious : events[j]? = some previous) (h : e.offset < previous.offset) :
    FaultAt events i (.unsorted i e.offset previous.offset)
  | noBucket {e : Event} (he : events[i]? = some e) (h : e.bucket = "") :
    FaultAt events i (.noBucket i)
  | noPrompt {e : Event} (he : events[i]? = some e) (h : e.prompt = "") :
    FaultAt events i (.noPrompt i e.bucket)

variable {before after : List Event} {e : Event} {i : Nat} {fault : EventFault}

/-- An offset is compared with that of the event before it. The first one is compared with zero, but
an offset below zero has been refused already. -/
theorem faultAt_of_fault?
    (h : e.fault? before.length ((before.map (·.offset)).getLastD 0) = some fault) :
    FaultAt (before ++ e :: after) before.length fault := by
  have he : (before ++ e :: after)[before.length]? = some e := by simp
  unfold fault? at h
  split_ifs at h with hoffset hsorted hbucket hprompt <;> obtain rfl := Option.some.inj h
  · refine .badOffset he fun ⟨hfinite, hpos⟩ => ?_
    have hneg := (not_lt_iff_le (ne_nan_of_isFinite hfinite) zero_ne_nan).2 hpos
    simp [hfinite, hneg] at hoffset
  · rcases List.eq_nil_or_concat before with rfl | ⟨earlier, previous, rfl⟩
    · exact absurd (Bool.or_eq_true_iff.2 (.inr (decide_eq_true hsorted))) hoffset
    · have hlast : ((earlier.concat previous).map (·.offset)).getLastD 0 = previous.offset := by
        simp
      rw [hlast] at hsorted ⊢
      exact .unsorted List.length_concat.symm he (by simp) hsorted
  · exact .noBucket he hbucket
  · exact .noPrompt he hprompt

theorem FaultAt.index?_eq (h : FaultAt events i fault) : fault.index? = some i := by
  cases h <;> rfl

/-! ## Refused sequences -/

/-- A sequence is refused for its event at an index: the first one with which what stands up to it
cannot be replayed. Pieces of its start are refused, for the same fault, if they hold this event. -/
structure RefusedAt (events : List Event) (i : Nat) (fault : EventFault) : Prop where
  isLeast : IsLeast {k | k < events.length ∧ ¬ Replayable (events.take (k + 1))} i
  faultAt : FaultAt events i fault
  index?_eq : fault.index? = some i
  begins_message : Text.Begins s!"event {i}: " fault.message
  validate_take : ∀ k, 0 < k → validate (events.take k) = if k ≤ i then .ok () else .error fault

/-- What stands behind the first fault is not looked at. -/
theorem validate_take_append (hbefore : firstFault? 0 0 before = none)
    (h : e.fault? before.length ((before.map (·.offset)).getLastD 0) = some fault) {k : Nat}
    (hk : 0 < k) : validate ((before ++ e :: after).take k) =
      if k ≤ before.length then .ok () else .error fault := by
  split_ifs with hle
  · have hpos : 0 < before.length := hk.trans_le hle
    obtain ⟨hformed, hpairwise⟩ := (firstFault?_eq_none_iff zero_ne_nan).1 hbefore
    have hreplayable : Replayable before :=
      replayable_iff_pairwise.2 ⟨List.ne_nil_of_length_pos hpos, hformed, hpairwise.of_cons⟩
    rw [List.take_append_of_le_length hle, validate_eq_ok_iff_replayable]
    refine hreplayable.shorten (List.take_prefix ..) (List.ne_nil_of_length_pos ?_)
    rw [List.length_take]
    exact lt_min hk hpos
  · obtain ⟨m, rfl⟩ := Nat.exists_eq_add_of_lt (Nat.lt_of_not_le hle)
    rw [Nat.add_assoc, List.take_length_add_append, List.take_succ_cons,
      validate_eq_error_iff (List.append_ne_nil_of_right_ne_nil _ (List.cons_ne_nil _ _))]
    exact firstFault?_eq_some_iff.2 ⟨before, e, after.take m, rfl, hbefore, by rwa [Nat.zero_add]⟩

/-- The index up to which pieces are accepted is the least one with a piece that is none. -/
theorem isLeast_of_validate_take (hi : i < events.length) (h : ∀ k, 0 < k →
    validate (events.take k) = if k ≤ i then .ok () else .error fault) :
    IsLeast {k | k < events.length ∧ ¬ Replayable (events.take (k + 1))} i := by
  constructor
  · refine ⟨hi, fun hreplayable => ?_⟩
    have haccepted := validate_eq_ok_iff_replayable.2 hreplayable
    rw [h (i + 1) i.succ_pos, if_neg (Nat.not_succ_le_self i)] at haccepted
    cases haccepted
  · rintro k ⟨-, hk⟩
    refine Nat.le_of_not_lt fun hlt => hk (validate_eq_ok_iff_replayable.1 ?_)
    rw [h (k + 1) k.succ_pos, if_pos (Nat.succ_le_of_lt hlt)]

theorem exists_refusedAt (hne : events ≠ []) (h : validate events = .error fault) :
    ∃ i, RefusedAt events i fault := by
  obtain ⟨before, e, after, rfl, hbefore, hfault⟩ :=
    firstFault?_eq_some_iff.1 ((validate_eq_error_iff hne).1 h)
  rw [Nat.zero_add] at hfault
  have hfaultAt : FaultAt (before ++ e :: after) before.length fault := faultAt_of_fault? hfault
  exact ⟨before.length,
    isLeast_of_validate_take (by simp) fun k => validate_take_append hbefore hfault,
    hfaultAt, hfaultAt.index?_eq, EventFault.begins_message hfaultAt.index?_eq,
    fun k => validate_take_append hbefore hfault⟩

/-- A sequence is accepted exactly if it can be replayed, and with it every piece of its start. Any
other sequence, the empty one aside, is refused for the first event with which what stands up to it
cannot be replayed. -/
theorem refused_at_first (events : List Event) :
    (validate events = .ok () ↔ Replayable events) ∧
      (∀ shorter, shorter <+: events → shorter ≠ [] → validate events = .ok () →
        validate shorter = .ok ()) ∧
      (events ≠ [] → ¬ Replayable events →
        ∃ i fault, validate events = .error fault ∧ RefusedAt events i fault) := by
  refine ⟨validate_eq_ok_iff_replayable, fun shorter hpiece hne haccepted => ?_, fun hne h => ?_⟩
  · exact validate_eq_ok_iff_replayable.2
      ((validate_eq_ok_iff_replayable.1 haccepted).shorten hpiece hne)
  · cases hvalidate : validate events with
    | ok => exact absurd (validate_eq_ok_iff_replayable.1 hvalidate) h
    | error fault =>
      obtain ⟨i, hrefused⟩ := exists_refusedAt hne hvalidate
      exact ⟨i, fault, rfl, hrefused⟩

/-- An event at a time. -/
def sampleAt (offset : Double) : Event :=
  { offset
    bucket := "small"
    prompt := "hello"
    contextTokens := 5
    generatedTokens := 7 }

/-- The third event is before the second one, and the fourth one is at no time at all. -/
def straggling : List Event := [sampleAt 0.5, sampleAt 2, sampleAt 1, sampleAt .nan]

theorem refused_at_first_sample :
    (straggling.take 1 <+: straggling.take 2 ∧ straggling.take 1 ≠ [] ∧
        validate (straggling.take 2) = .ok () ∧ validate (straggling.take 1) = .ok ()) ∧
      straggling ≠ [] ∧ ¬ Replayable straggling ∧
        validate straggling = .error (.unsorted 2 1 2) ∧
        RefusedAt straggling 2 (.unsorted 2 1 2) := by
  have hpiece : straggling.take 1 <+: straggling.take 2 := by decide +kernel
  have hshort : straggling.take 1 ≠ [] := List.cons_ne_nil _ _
  have haccepted : validate (straggling.take 2) = .ok () := by decide +kernel
  have hne : straggling ≠ [] := List.cons_ne_nil _ _
  have hnot : ¬ Replayable straggling := by decide +kernel
  have hvalidate : validate straggling = .error (.unsorted 2 1 2) := by decide +kernel
  obtain ⟨-, hpieces, -⟩ := refused_at_first (straggling.take 2)
  obtain ⟨-, -, hrefused⟩ := refused_at_first straggling
  obtain ⟨i, fault, hfault, hrefused⟩ := hrefused hne hnot
  obtain rfl := Except.error.inj (hvalidate.symm.trans hfault)
  obtain rfl : 2 = i := Option.some.inj hrefused.index?_eq
  exact ⟨⟨hpiece, hshort, haccepted, hpieces _ hpiece hshort haccepted⟩, hne, hnot, hvalidate,
    hrefused⟩

end Event

end LoadReplay
