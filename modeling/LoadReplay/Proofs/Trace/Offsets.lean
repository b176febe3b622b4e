import LoadReplay.Proofs.Double.Signed
import LoadReplay.Proofs.Trace.Selection

/-!
# Offsets of sorted rows

The rows are sorted by the total order of their times, and events are checked by the ordinary
comparison of rounded differences. Rounding keeps the order, so the offsets of sorted rows never
decrease and are never negative, whatever zeros and magnitudes there are among the times
(`inOrder_offsets`). Events are made unless there is an `Obstacle`: of the faults that an order of
events can have, only an infinite offset is left (`events_in_order`).
-/

namespace LoadReplay.Trace

variable {rows kept : List TraceRow} {buckets : Buckets} {prompts : Prompts} {limit : Option Nat}
  {found : List Event}

/-! ## Offsets -/

/-- The rows that are replayed, from the first to the last. -/
def keptRows (rows : List TraceRow) (limit : Option Nat) : List TraceRow :=
  limitRows limit (sortRows rows)

/-- The distances of rows from the first of them. -/
def offsets : List TraceRow → List Double
  | [] => []
  | first :: rest => (first :: rest).map fun row => row.timestamp - first.timestamp

/-- The offsets do not decrease, and none of them is negative, not even a negative zero. -/
structure InOrder (offsets : List Double) : Prop where
  pairwise : offsets.Pairwise (· ≤ ·)
  zero_le : ∀ offset ∈ offsets, 0 ≤ offset
  isNegative : ∀ offset ∈ offsets, offset.isNegative = false

theorem keptRows_sublist (rows : List TraceRow) (limit : Option Nat) :
    (keptRows rows limit).Sublist (sortRows rows) := by
  rw [keptRows, limitRows_eq_take]
  exact List.take_sublist ..

theorem mem_of_mem_keptRows {row : TraceRow} (h : row ∈ keptRows rows limit) : row ∈ rows :=
  (sortRows_perm rows).subset ((keptRows_sublist rows limit).subset h)

theorem pairwise_keptRows (rows : List TraceRow) (limit : Option Nat) :
    (keptRows rows limit).Pairwise fun a b => Double.totalLe a.timestamp b.timestamp = true :=
  (pairwise_sortRows rows).sublist (keptRows_sublist rows limit)

/-- The offsets of sorted rows with finite times are in order. -/
theorem inOrder_offsets (hfinite : ∀ row ∈ kept, row.timestamp.isFinite = true)
    (hsorted : kept.Pairwise fun a b => Double.totalLe a.timestamp b.timestamp = true) :
    InOrder (offsets kept) := by
  cases kept with
  | nil => exact ⟨.nil, List.forall_mem_nil _, List.forall_mem_nil _⟩
  | cons first rest =>
    have hfirst : first.timestamp.isFinite = true := hfinite first (List.mem_cons_self ..)
    have hstart : ∀ row ∈ first :: rest,
        Double.totalLe first.timestamp row.timestamp = true := by
      refine List.forall_mem_cons.2 ⟨?_, fun row hrow => List.rel_of_pairwise_cons hsorted hrow⟩
      simp [Double.totalLe]
    have hle : ∀ row ∈ first :: rest, first.timestamp ≤ row.timestamp := fun row hrow =>
      Double.le_of_totalLe hfirst (hfinite row hrow) (hstart row hrow)
    refine ⟨List.pairwise_map.2 (hsorted.imp_of_mem fun {a b} ha hb hab => ?_),
      List.forall_mem_map.2 fun row hrow => ?_, List.forall_mem_map.2 fun row hrow => ?_⟩
    · exact Double.sub_le_sub_right (hfinite a ha) (hfinite b hb) hfirst
        (Double.le_of_totalLe (hfinite a ha) (hfinite b hb) hab)
    · rw [← Double.sub_self_of_isFinite hfirst]
      exact Double.sub_le_sub_right hfirst (hfinite row hrow) hfirst (hle row hrow)
    · exact Double.isNegative_sub (hfinite row hrow) hfirst (hle row hrow)
        (Double.isNegative_of_totalLe (hstart row hrow))

/-! ## Obstacles -/

/-- What keeps events from being made of rows, and the fault that it is told by: there are no rows,
a token count has no label, a label has no text, an offset is out of the range of doubles, or a
label or a text is empty. -/
inductive Obstacle (buckets : Buckets) (prompts : Prompts) (kept : List TraceRow) :
    TraceFault → Prop where
  | noneLeft (hnone : kept = []) : Obstacle buckets prompts kept .noneLeft
  | unclassified {row : TraceRow} {fault : BucketFault} (hrow : row ∈ kept)
    (hlabel : buckets.classify (Double.ofNat row.contextTokens) = .error fault) :
    Obstacle buckets prompts kept (.unclassified row.line (.bucket fault))
  | noPrompt {row : TraceRow} {label : String} (hrow : row ∈ kept)
    (hlabel : buckets.classify (Double.ofNat row.contextTokens) = .ok label)
    (htext : prompts.find? label = none) :
    Obstacle buckets prompts kept (.noPrompt label prompts.labels)
  | overflow {index : Nat} (hoffset : (offsets kept)[index]? = some (.infinite false)) :
    Obstacle buckets prompts kept (.events (.badOffset index (.infinite false)))
  | emptyLabel {index : Nat} {row : TraceRow} (hrow : kept[index]? = some row)
    (hlabel : buckets.classify (Double.ofNat row.contextTokens) = .ok "") :
    Obstacle buckets prompts kept (.events (.noBucket index))
  | emptyText {index : Nat} {row : TraceRow} {label : String} (hrow : kept[index]? = some row)
    (hlabel : buckets.classify (Double.ofNat row.contextTokens) = .ok label)
    (htext : prompts.find? label = some "") :
    Obstacle buckets prompts kept (.events (.noPrompt index label))

theorem obstacle_of_eventOf {start : Double} {row : TraceRow} {fault : TraceFault}
    (hrow : row ∈ kept) (h : eventOf buckets prompts start row = .error fault) :
    Obstacle buckets prompts kept fault := by
  rw [eventOf] at h
  cases hlabel : buckets.classify (Double.ofNat row.contextTokens) with
  | error reason =>
    rw [hlabel] at h
    obtain rfl := Except.error.inj h
    exact .unclassified hrow hlabel
  | ok label =>
    rw [hlabel, labelledEvent] at h
    split at h
    next htext =>
      obtain rfl := Except.error.inj h
      exact .noPrompt hrow hlabel htext
    next => cases h

theorem exists_getElem?_of_forall₂ {α β : Type} {R : α → β → Prop} {xs : List α} {ys : List β}
    (h : List.Forall₂ R xs ys) {index : Nat} {y : β} (hy : ys[index]? = some y) :
    ∃ x, xs[index]? = some x ∧ R x y := by
  obtain ⟨hlt, rfl⟩ := List.getElem?_eq_some_iff.1 hy
  exact ⟨_, List.getElem?_eq_getElem (h.length_eq ▸ hlt), h.get (h.length_eq ▸ hlt) hlt⟩

/-- An infinite offset that is not negative. -/
theorem eq_infinite_of_zero_le {x : Double} (hle : 0 ≤ x) (h : x.isFinite = false) :
    x = .infinite false := by
  rcases x with _ | ⟨_ | _⟩ | ⟨_, _⟩
  · exact absurd rfl (Double.ne_nan_of_le hle).2
  · rfl
  · exact absurd hle (by decide)
  · cases h

theorem map_offset_eq {first : TraceRow} {rest : List TraceRow}
    (hmade : List.Forall₂ (MadeFrom buckets prompts first.timestamp) (first :: rest) found) :
    found.map (·.offset) = offsets (first :: rest) :=
  (List.forall₂_eq_eq_eq ▸ List.forall₂_map_left_iff.2 (List.forall₂_map_right_iff.2
    (hmade.flip.imp fun _ _ h => h.offset)) : _ = _)

theorem exists_made_of_ok (h : events rows buckets prompts limit = .ok found) :
    ∃ first rest, keptRows rows limit = first :: rest ∧
      List.Forall₂ (MadeFrom buckets prompts first.timestamp) (first :: rest) found ∧
      Event.validate found = .ok () := by
  obtain ⟨start, hstart, hmade, hvalid⟩ := events_eq_ok_iff.1 h
  rw [← keptRows] at hstart hmade
  cases hkept : keptRows rows limit with
  | nil =>
    rw [hkept] at hstart
    cases hstart
  | cons first rest =>
    rw [hkept] at hstart hmade
    obtain rfl := Option.some.inj hstart
    exact ⟨first, rest, rfl, hmade, hvalid⟩

/-- Events that are made in order are refused only for an infinite offset, or for an empty label or
text. -/
theorem obstacle_of_validate {first : TraceRow} {rest : List TraceRow} {fault : EventFault}
    (horder : InOrder (offsets (first :: rest)))
    (hmade : List.Forall₂ (MadeFrom buckets prompts first.timestamp) (first :: rest) found)
    (h : Event.validate found = .error fault) :
    Obstacle buckets prompts (first :: rest) (.events fault) := by
  have hoffsets := map_offset_eq hmade
  have hne : found ≠ [] := by
    rintro rfl
    cases hmade
  obtain ⟨before, event, after, heq, -, hevent⟩ :=
    Event.firstFault?_eq_some_iff.1 ((Event.validate_eq_error_iff hne).1 h)
  have hindex : found[before.length]? = some event := by simp [heq]
  obtain ⟨row, hrow, hfrom⟩ := exists_getElem?_of_forall₂ hmade hindex
  have hoffset : (offsets (first :: rest))[before.length]? = some event.offset := by
    rw [← hoffsets, List.getElem?_map, hindex]
    rfl
  have hzero : 0 ≤ event.offset := horder.zero_le _ (List.mem_of_getElem? hoffset)
  have hle : (before.map (·.offset)).getLastD 0 ≤ event.offset := by
    have hpairwise := horder.pairwise
    rw [← hoffsets, heq, List.map_append, List.pairwise_append] at hpairwise
    have hlast : (before.map (·.offset)).getLastD 0 ∈ 0 :: before.map (·.offset) :=
      List.getLastD_mem_cons
    rcases List.mem_cons.1 hlast with hnone | hmem
    · rwa [hnone]
    · exact hpairwise.2.2 _ hmem _ (List.mem_cons_self ..)
  rw [Nat.zero_add] at hevent
  rcases Event.fault?_of_le hzero hle hevent with
    ⟨rfl, hinfinite⟩ | ⟨rfl, hlabel⟩ | ⟨rfl, htext⟩
  · rw [eq_infinite_of_zero_le hzero hinfinite] at hoffset ⊢
    exact .overflow hoffset
  · exact .emptyLabel hrow (hlabel ▸ hfrom.bucket)
  · exact .emptyText hrow hfrom.bucket (htext ▸ hfrom.prompt)

theorem obstacle_of_error (hfinite : ∀ row ∈ rows, row.timestamp.isFinite = true)
    {fault : TraceFault} (h : events rows buckets prompts limit = .error fault) :
    Obstacle buckets prompts (keptRows rows limit) fault := by
  have horder := inOrder_offsets (fun row hrow => hfinite row (mem_of_mem_keptRows hrow))
    (pairwise_keptRows rows limit)
  rw [events, ← keptRows] at h
  cases hkept : keptRows rows limit with
  | nil =>
    rw [hkept] at h
    obtain rfl := Except.error.inj h
    exact .noneLeft rfl
  | cons first rest =>
    rw [hkept] at h horder
    rcases Except.bind_eq_error_iff.1 h with hmap | ⟨found, hfound, hvalid⟩
    · obtain ⟨before, row, after, heq, -, hrow⟩ := Except.mapM_eq_error_iff.1 hmap
      exact obstacle_of_eventOf (heq ▸ List.mem_append_right _ (List.mem_cons_self ..)) hrow
    · have hmade := (Except.mapM_eq_ok_iff.1 hfound).imp fun _ _ => eventOf_eq_ok_iff.1
      split at hvalid
      next hfault =>
        obtain rfl := Except.error.inj hvalid
        exact obstacle_of_validate horder hmade hfault
      next => cases hvalid

/-- Where events are made there is no obstacle. -/
theorem not_obstacle_of_ok (h : events rows buckets prompts limit = .ok found)
    (fault : TraceFault) : ¬ Obstacle buckets prompts (keptRows rows limit) fault := by
  obtain ⟨first, rest, hkept, hmade, hvalid⟩ := exists_made_of_ok h
  obtain ⟨-, hformed, -⟩ := Event.validate_eq_ok_iff.1 hvalid
  have hevent {index : Nat} {row : TraceRow} (hrow : (first :: rest)[index]? = some row) :
      ∃ event ∈ found, MadeFrom buckets prompts first.timestamp row event := by
    obtain ⟨event, hindex, hfrom⟩ := exists_getElem?_of_forall₂ hmade.flip hrow
    exact ⟨event, List.mem_of_getElem? hindex, hfrom⟩
  rw [hkept]
  intro hobstacle
  cases hobstacle with
  | noneLeft hnone => cases hnone
  | unclassified hrow hlabel =>
    obtain ⟨index, hindex⟩ := List.mem_iff_getElem?.1 hrow
    obtain ⟨event, -, hfrom⟩ := hevent hindex
    cases hlabel.symm.trans hfrom.bucket
  | noPrompt hrow hlabel htext =>
    obtain ⟨index, hindex⟩ := List.mem_iff_getElem?.1 hrow
    obtain ⟨event, -, hfrom⟩ := hevent hindex
    obtain rfl := Except.ok.inj (hlabel.symm.trans hfrom.bucket)
    cases htext.symm.trans hfrom.prompt
  | overflow hoffset =>
    rw [← map_offset_eq hmade, List.getElem?_map] at hoffset
    obtain ⟨event, hindex, hinfinite⟩ := Option.map_eq_some_iff.1 hoffset
    have hfinite := (hformed event (List.mem_of_getElem? hindex)).isFinite_offset
    rw [hinfinite] at hfinite
    cases hfinite
  | emptyLabel hrow hlabel =>
    obtain ⟨event, hmem, hfrom⟩ := hevent hrow
    exact (hformed event hmem).bucket_ne (Except.ok.inj (hfrom.bucket.symm.trans hlabel))
  | emptyText hrow hlabel htext =>
    obtain ⟨event, hmem, hfrom⟩ := hevent hrow
    obtain rfl := Except.ok.inj (hlabel.symm.trans hfrom.bucket)
    exact (hformed event hmem).prompt_ne (Option.some.inj (hfrom.prompt.symm.trans htext))

/-- From rows with finite times, in whatever order they stand, events are handed on in order: the
offsets of the kept rows do not decrease and none is negative, and the events have these offsets.
No event is refused for being before another. Events are made unless there is an obstacle among the
kept rows, and what is refused is refused for such an obstacle. -/
theorem events_in_order (hfinite : ∀ row ∈ rows, row.timestamp.isFinite = true) (buckets : Buckets)
    (prompts : Prompts) (limit : Option Nat) :
    InOrder (offsets (keptRows rows limit)) ∧
      (∀ found, events rows buckets prompts limit = .ok found →
        found.map (·.offset) = offsets (keptRows rows limit)) ∧
      (∀ index offset previous, events rows buckets prompts limit ≠
        .error (.events (.unsorted index offset previous))) ∧
      (∀ fault, events rows buckets prompts limit = .error fault →
        Obstacle buckets prompts (keptRows rows limit) fault) ∧
      ((∃ found, events rows buckets prompts limit = .ok found) ↔
        ∀ fault, ¬ Obstacle buckets prompts (keptRows rows limit) fault) := by
  refine ⟨inOrder_offsets (fun row hrow => hfinite row (mem_of_mem_keptRows hrow))
    (pairwise_keptRows rows limit), fun found h => ?_, fun index offset previous h => ?_,
    fun fault => obstacle_of_error hfinite, fun ⟨found, h⟩ => not_obstacle_of_ok h, fun h => ?_⟩
  · obtain ⟨first, rest, hkept, hmade, -⟩ := exists_made_of_ok h
    rw [hkept]
    exact map_offset_eq hmade
  · cases obstacle_of_error hfinite h
  · cases hevents : events rows buckets prompts limit with
    | ok found => exact ⟨found, rfl⟩
    | error fault => exact absurd (obstacle_of_error hfinite hevents) (h fault)

/-- Two rows whose times are too far apart for a double to tell their distance. -/
def farRows : List TraceRow := [⟨1e308, 1, 1, 2⟩, ⟨-1e308, 2, 2, 3⟩]

theorem events_in_order_sample :
    (∀ row ∈ farRows, row.timestamp.isFinite = true) ∧
      InOrder (offsets (keptRows farRows none)) ∧
      ¬ ∃ found, events farRows oneLabel ⟨[("a", "p")]⟩ none = .ok found := by
  have hfinite : ∀ row ∈ farRows, row.timestamp.isFinite = true := by decide +kernel
  obtain ⟨horder, -, -, -, hmade⟩ := events_in_order hfinite oneLabel ⟨[("a", "p")]⟩ none
  have hkept : keptRows farRows none = [⟨-1e308, 2, 2, 3⟩, ⟨1e308, 1, 1, 2⟩] :=
    sortRows_eq_of_pairwise (by decide +kernel) (by decide +kernel) (by decide +kernel)
  have hobstacle : Obstacle oneLabel ⟨[("a", "p")]⟩ (keptRows farRows none)
      (.events (.badOffset 1 (.infinite false))) := by
    rw [hkept]
    exact .overflow (by decide +kernel)
  exact ⟨hfinite, horder, fun hfound => hmade.1 hfound _ hobstacle⟩

end LoadReplay.Trace
