import LoadReplay.Proofs.Disk.Change
import LoadReplay.Proofs.Double.Signed
import LoadReplay.Proofs.Event.Accepted
import LoadReplay.Proofs.Except
import LoadReplay.Proofs.Trace.Order
import Mathlib.Data.List.Zip

/-!
# Which rows are replayed

The rows are replayed by time, and those of one time as they stand in the trace, except that `-0`
is a time before `0` (`Precedes`). A limit keeps the first of them: the events are `MadeFrom` the
kept rows, and a smaller limit gives the first of the same events. The buckets come from all rows,
so that they are the same for every limit (`selection_law`).
-/

namespace LoadReplay

namespace Double

variable {a b : Double}

theorem place_sign (a : Double) : if a.isNegative then a.place ≤ 0 else 0 ≤ a.place := by
  rcases a with _ | ⟨_ | _⟩ | ⟨_ | _, r⟩ <;> simp [isNegative, place]

theorem eq_zero_of_place (ha : a ≠ nan) (h : a.place = 0) : a = zero a.isNegative := by
  rcases a with _ | ⟨_ | _⟩ | ⟨_ | _, r⟩
  · exact absurd rfl ha
  · exact absurd h (by decide)
  · exact absurd h (by decide)
  · exact congrArg _ (Fin.ext (Int.ofNat_eq_zero.1 h))
  · exact congrArg _ (Fin.ext (Int.ofNat_eq_zero.1 (Int.neg_eq_zero.1 h)))

/-- In the total order a number that comes before another is smaller, except for the two zeros. -/
theorem lt_or_zeros_of_totalPlace_lt (ha : a ≠ nan) (hb : b ≠ nan)
    (h : a.totalPlace < b.totalPlace) : a < b ∨ a = zero true ∧ b = zero false := by
  have hsigna := place_sign a
  have hsignb := place_sign b
  rw [totalPlace_eq ha, totalPlace_eq hb] at h
  rw [lt_iff_place ha hb]
  cases hs : a.isNegative <;> cases ht : b.isNegative <;>
    simp only [hs, ht, Bool.false_eq_true, if_true, if_false] at h hsigna hsignb
  case true.false =>
    by_cases hzero : a.place = 0 ∧ b.place = 0
    · exact .inr ⟨hs ▸ eq_zero_of_place ha hzero.1, ht ▸ eq_zero_of_place hb hzero.2⟩
    · left
      omega
  all_goals
    left
    omega

end Double

namespace Trace

open List (zipIdxLE)

variable {rows kept : List TraceRow} {buckets : Buckets} {prompts : Prompts} {limit : Option Nat}
  {found : List Event}

/-! ## The order of the rows -/

/-- A row with its position in the trace comes before another one: its time is earlier, where `-0`
counts as earlier than `0`, or the times are the same and it stands before the other. -/
def Precedes (a b : TraceRow × Nat) : Prop :=
  a.1.timestamp < b.1.timestamp ∨
    (a.1.timestamp = .zero true ∧ b.1.timestamp = .zero false) ∨
      (a.1.timestamp = b.1.timestamp ∧ a.2 < b.2)

/-- The rows of a trace, with their positions, from the first to the last. -/
structure Arranged (rows : List TraceRow) (order : List (TraceRow × Nat)) : Prop where
  perm : order.Perm rows.zipIdx
  pairwise : order.Pairwise Precedes

/-- Whether a row's time is not after another's in the total order. -/
def notAfter (a b : TraceRow) : Bool := Double.totalLe a.timestamp b.timestamp

theorem notAfter_trans (a b c : TraceRow) (hab : notAfter a b = true) (hbc : notAfter b c = true) :
    notAfter a c = true :=
  Double.totalLe_trans a.timestamp b.timestamp c.timestamp hab hbc

theorem notAfter_total (a b : TraceRow) : (notAfter a b || notAfter b a) = true :=
  Double.totalLe_total a.timestamp b.timestamp

theorem precedes_of_zipIdxLE {a b : TraceRow × Nat} (ha : a.1.timestamp ≠ .nan)
    (hb : b.1.timestamp ≠ .nan) (hne : a.2 ≠ b.2) (h : zipIdxLE notAfter a b = true) :
    Precedes a b := by
  rw [zipIdxLE] at h
  split_ifs at h with hab hba
  · have hposition : a.2 ≤ b.2 := of_decide_eq_true h
    exact .inr (.inr ⟨Double.totalLe_antisymm hab hba, lt_of_le_of_ne hposition hne⟩)
  · have hlt : a.1.timestamp.totalPlace < b.1.timestamp.totalPlace := by
      simpa [notAfter, Double.totalLe] using hba
    exact (Double.lt_or_zeros_of_totalPlace_lt ha hb hlt).imp_right .inl

/-- Sorted by their times, the rows stand in their order. -/
theorem exists_arranged (hnumber : ∀ row ∈ rows, row.timestamp ≠ .nan) :
    ∃ order, Arranged rows order ∧ order.map (·.1) = sortRows rows := by
  have hperm := List.mergeSort_perm rows.zipIdx (zipIdxLE notAfter)
  refine ⟨rows.zipIdx.mergeSort (zipIdxLE notAfter), ⟨hperm, ?_⟩, List.mergeSort_zipIdx⟩
  have hsorted := List.pairwise_mergeSort (List.zipIdxLE_trans notAfter_trans)
    (List.zipIdxLE_total notAfter_total) rows.zipIdx
  have hpositions : (rows.zipIdx.mergeSort (zipIdxLE notAfter)).Pairwise fun a b => a.2 ≠ b.2 := by
    refine List.pairwise_map.1 ((hperm.map Prod.snd).symm.nodup ?_)
    rw [List.zipIdx_map_snd]
    exact List.nodup_range' ..
  have hrow (a : TraceRow × Nat) (ha : a ∈ rows.zipIdx.mergeSort (zipIdxLE notAfter)) :
      a.1.timestamp ≠ .nan :=
    hnumber a.1 (List.fst_mem_of_mem_zipIdx (hperm.subset ha))
  refine (hsorted.and hpositions).imp_of_mem fun ha hb hab => ?_
  exact precedes_of_zipIdxLE (hrow _ ha) (hrow _ hb) hab.2 hab.1

/-! ## The events -/

/-- An event is made from a row: it has its token counts, the label of their bucket and its text,
and its offset is counted from the start of the trace. -/
structure MadeFrom (buckets : Buckets) (prompts : Prompts) (start : Double) (row : TraceRow)
    (event : Event) : Prop where
  contextTokens : event.contextTokens = row.contextTokens
  generatedTokens : event.generatedTokens = row.generatedTokens
  offset : event.offset = row.timestamp - start
  bucket : buckets.classify (Double.ofNat row.contextTokens) = .ok event.bucket
  prompt : prompts.find? event.bucket = some event.prompt

theorem eventOf_eq_ok_iff {start : Double} {row : TraceRow} {event : Event} :
    eventOf buckets prompts start row = .ok event ↔ MadeFrom buckets prompts start row event := by
  rw [eventOf]
  constructor
  · intro h
    cases hbucket : buckets.classify (Double.ofNat row.contextTokens) with
    | error fault =>
      rw [hbucket] at h
      exact nomatch h
    | ok bucket =>
      rw [hbucket, labelledEvent] at h
      split at h
      · exact nomatch h
      next prompt hprompt =>
        obtain rfl := Except.ok.inj h
        exact ⟨rfl, rfl, rfl, hbucket, hprompt⟩
  · rintro ⟨hcontext, hgenerated, hoffset, hbucket, hprompt⟩
    rw [hbucket, labelledEvent, hprompt]
    dsimp only
    rw [← hcontext, ← hgenerated, ← hoffset]

theorem limitRows_eq_take (limit : Option Nat) (rows : List TraceRow) :
    limitRows limit rows = rows.take (limit.getD rows.length) := by
  cases limit with
  | none => exact (List.take_length).symm
  | some n => rfl

/-- The events that are made from some rows, the first of which is the start. -/
theorem events_eq_ok_iff : events rows buckets prompts limit = .ok found ↔
    ∃ start, ((limitRows limit (sortRows rows)).map (·.timestamp)).head? = some start ∧
      List.Forall₂ (MadeFrom buckets prompts start) (limitRows limit (sortRows rows)) found ∧
      Event.validate found = .ok () := by
  rw [events]
  cases limitRows limit (sortRows rows) with
  | nil => simp
  | cons first rest =>
    have hmade (events : List Event) :
        (first :: rest).mapM (eventOf buckets prompts first.timestamp) = .ok events ↔
          List.Forall₂ (MadeFrom buckets prompts first.timestamp) (first :: rest) events := by
      simp only [Except.mapM_eq_ok_iff, eventOf_eq_ok_iff]
    dsimp only
    rw [Except.bind_eq_ok_iff]
    constructor
    · rintro ⟨events, hevents, h⟩
      cases hvalid : Event.validate events with
      | error fault =>
        rw [hvalid] at h
        cases h
      | ok =>
        rw [hvalid] at h
        obtain rfl := Except.ok.inj h
        exact ⟨_, rfl, (hmade events).1 hevents, hvalid⟩
    · rintro ⟨_, hstart, hfound, hvalid⟩
      obtain rfl := Option.some.inj hstart
      refine ⟨found, (hmade found).2 hfound, ?_⟩
      rw [hvalid]

/-- What is selected from the rows of a trace: the events are made from the first rows in their
order, as many as the limit allows, and counted from the earliest of all. -/
structure Selection (rows : List TraceRow) (buckets : Buckets) (prompts : Prompts)
    (limit : Option Nat) (order : List (TraceRow × Nat)) (start : Double) (found : List Event) :
    Prop where
  arranged : Arranged rows order
  start_eq : (order.map (·.1.timestamp)).head? = some start
  start_le : ∀ row ∈ rows, start ≤ row.timestamp
  length_eq : found.length = min (limit.getD rows.length) rows.length
  made : List.Forall₂ (MadeFrom buckets prompts start)
    ((order.take (limit.getD rows.length)).map (·.1)) found
  kept_le : ∀ kept ∈ order.take (limit.getD rows.length),
    ∀ dropped ∈ order.drop (limit.getD rows.length), kept.1.timestamp ≤ dropped.1.timestamp
  offset_eq : (found.map (·.offset)).head? = some 0

theorem Precedes.timestamp_le {a b : TraceRow × Nat} (ha : a.1.timestamp.isFinite = true)
    (h : Precedes a b) : a.1.timestamp ≤ b.1.timestamp := by
  rcases h with h | ⟨hnegative, hzero⟩ | ⟨heq, -⟩
  · have hnan : a.1.timestamp ≠ .nan ∧ b.1.timestamp ≠ .nan := by
      change Double.lt _ _ = true at h
      simp only [Double.lt, Bool.and_eq_true, bne_iff_ne] at h
      exact h.1
    rw [Double.lt_iff_place hnan.1 hnan.2] at h
    exact (Double.le_iff_place hnan.1 hnan.2).2 h.le
  · rw [hnegative, hzero]
    decide
  · rw [← heq]
    exact (Double.le_iff_place (Double.ne_nan_of_isFinite ha) (Double.ne_nan_of_isFinite ha)).2
      (Int.le_refl _)

/-- The first of the sorted rows is the earliest of all. -/
theorem timestamp_le_of_sortRows (hfinite : ∀ row ∈ rows, row.timestamp.isFinite = true)
    {first : TraceRow} {rest : List TraceRow} (hsorted : sortRows rows = first :: rest) :
    first ∈ rows ∧ ∀ row ∈ rows, first.timestamp ≤ row.timestamp := by
  have hfirst : first ∈ rows := (sortRows_perm rows).subset (hsorted ▸ List.mem_cons_self ..)
  refine ⟨hfirst, fun row hmem => ?_⟩
  have hpair := hsorted ▸ pairwise_sortRows rows
  refine Double.le_of_totalLe (hfinite first hfirst) (hfinite row hmem) ?_
  rcases List.mem_cons.1 (hsorted ▸ (sortRows_perm rows).symm.subset hmem) with rfl | hlater
  · simp [Double.totalLe]
  · exact List.rel_of_pairwise_cons hpair hlater

theorem exists_selection (hfinite : ∀ row ∈ rows, row.timestamp.isFinite = true)
    (h : events rows buckets prompts limit = .ok found) :
    ∃ order start, Selection rows buckets prompts limit order start found := by
  obtain ⟨order, harranged, horder⟩ :=
    exists_arranged fun row hrow => Double.ne_nan_of_isFinite (hfinite row hrow)
  obtain ⟨start, hstart, hmade, -⟩ := events_eq_ok_iff.1 h
  have hlength : (sortRows rows).length = rows.length := (sortRows_perm rows).length_eq
  rw [limitRows_eq_take, hlength] at hstart hmade
  rw [List.map_take, List.head?_take] at hstart
  have htimes : order.map (·.1.timestamp) = (sortRows rows).map (·.timestamp) := by
    rw [← horder, List.map_map]
    rfl
  have hrow (a : TraceRow × Nat) (ha : a ∈ order) : a.1.timestamp.isFinite = true :=
    hfinite a.1 (List.fst_mem_of_mem_zipIdx (harranged.perm.subset ha))
  split_ifs at hstart with hcount
  obtain ⟨first, hfirst, rfl⟩ := Option.map_eq_some_iff.1 (List.head?_map .. ▸ hstart)
  obtain ⟨rest, hsorted⟩ := List.head?_eq_some_iff.1 hfirst
  obtain ⟨hfirst, hleast⟩ := timestamp_le_of_sortRows hfinite hsorted
  refine ⟨order, first.timestamp, harranged, htimes ▸ hstart, hleast, ?_, ?_, ?_, ?_⟩
  · rw [← hmade.length_eq, List.length_take, hlength]
  · rw [List.map_take, horder]
    exact hmade
  · intro kept hkept dropped hdropped
    have hpair := harranged.pairwise
    rw [← List.take_append_drop (limit.getD rows.length) order, List.pairwise_append] at hpair
    exact (hpair.2.2 kept hkept dropped hdropped).timestamp_le
      (hrow kept (List.mem_of_mem_take hkept))
  · rw [hsorted, List.take_cons (Nat.pos_of_ne_zero hcount)] at hmade
    obtain ⟨event, later, hevent, -, rfl⟩ := List.forall₂_cons_left_iff.1 hmade
    rw [List.map_cons, List.head?_cons, hevent.offset,
      Double.sub_self_of_isFinite (hfinite first hfirst)]

/-! ## Limits -/

/-- A smaller limit gives the first of the same events. -/
theorem events_take (h : events rows buckets prompts limit = .ok found) {count : Nat}
    (hpos : 0 < count) (hle : ∀ n ∈ limit, count ≤ n) :
    events rows buckets prompts (some count) = .ok (found.take count) := by
  obtain ⟨start, hstart, hmade, hvalid⟩ := events_eq_ok_iff.1 h
  obtain ⟨hne, hformed, hpair⟩ := Event.validate_eq_ok_iff.1 hvalid
  have hkept : limitRows (some count) (sortRows rows) =
      (limitRows limit (sortRows rows)).take count := by
    cases limit with
    | none => rfl
    | some n =>
      change (sortRows rows).take count = ((sortRows rows).take n).take count
      rw [List.take_take, Nat.min_eq_left (hle n rfl)]
  refine events_eq_ok_iff.2 ⟨start, ?_, ?_, Event.validate_eq_ok_iff.2 ⟨?_, ?_, ?_⟩⟩
  · rw [hkept, List.map_take, List.head?_take, if_neg hpos.ne', hstart]
  · rw [hkept]
    exact List.forall₂_take count hmade
  · intro hnil
    exact (List.take_eq_nil_iff.1 hnil).elim hpos.ne' hne
  · exact fun e he => hformed e (List.mem_of_mem_take he)
  · rw [List.map_take]
    exact hpair.sublist (List.take_sublist ..)

theorem pos_of_events {count : Nat} (h : events rows buckets prompts (some count) = .ok found) :
    0 < count := by
  obtain ⟨start, hstart, -⟩ := events_eq_ok_iff.1 h
  refine Nat.pos_of_ne_zero ?_
  rintro rfl
  exact nomatch hstart

/-- Of the events for two limits the ones begin with the others. -/
theorem events_prefix {limit' : Option Nat} {found' : List Event}
    (h : events rows buckets prompts limit = .ok found)
    (h' : events rows buckets prompts limit' = .ok found') :
    found <+: found' ∨ found' <+: found := by
  have htake {limit : Option Nat} {found found' : List Event} {count : Nat}
      (h : events rows buckets prompts limit = .ok found)
      (h' : events rows buckets prompts (some count) = .ok found')
      (hle : ∀ n ∈ limit, count ≤ n) : found' <+: found := by
    rw [events_take h (pos_of_events h') hle] at h'
    obtain rfl := Except.ok.inj h'
    exact List.take_prefix ..
  cases limit with
  | none =>
    cases limit' with
    | none =>
      obtain rfl := Except.ok.inj (h.symm.trans h')
      exact .inl (List.prefix_refl _)
    | some n => exact .inr (htake h h' nofun)
  | some n =>
    cases limit' with
    | none => exact .inl (htake h' h nofun)
    | some m =>
      rcases Nat.le_total n m with hle | hle
      · exact .inl (htake h' h fun _ hm => Option.some.inj hm ▸ hle)
      · exact .inr (htake h h' fun _ hn => Option.some.inj hn ▸ hle)

theorem readRows_of_find {disk : Disk} {path : String} {text : List Char}
    (hfind : disk.find path = .ok (.file (Utf8.encode text)))
    (hrows : TraceRow.ofText text = .ok rows) : readRows disk path = .ok rows := by
  rw [readRows, Disk.readText_of_find hfind]
  dsimp only
  rw [hrows]
  rfl

theorem readPrompts_of_find {disk : Disk} {path : String} {text : List Char}
    (hfind : disk.find path = .ok (.file (Utf8.encode text)))
    (hprompts : Prompts.ofText? text = some prompts) :
    readPrompts disk path = .ok prompts := by
  rw [readPrompts, Disk.readText_of_find hfind]
  dsimp only
  rw [hprompts]

/-- Loading goes on from the rows to their buckets, the prompts and the events, whatever it logs. -/
theorem value_load (disk : Disk) (tracePath promptsPath : String) (choice : BucketChoice)
    (limit : Option Nat) : (load disk tracePath promptsPath choice limit).value = do
      let rows ← (readRows disk tracePath).mapError Error.trace
      let buckets ← bucketsFor choice rows
      let prompts ← (readPrompts disk promptsPath).mapError Error.trace
      let events ← (events rows buckets prompts limit).mapError Error.trace
      return { events, totalRows := rows.length, thresholds := buckets.thresholds } := by
  rw [load]
  cases (readRows disk tracePath).mapError Error.trace with
  | error e => rfl
  | ok rows =>
    dsimp only [bind, Except.bind]
    cases bucketsFor choice rows with
    | error e => rfl
    | ok buckets =>
      dsimp only
      cases readPrompts disk promptsPath with
      | error fault => rfl
      | ok prompts =>
        dsimp only [Except.mapError]
        cases events rows buckets prompts limit <;> rfl

/-- What is loaded: the events of the rows in buckets that are made from all of them. -/
theorem load_eq_ok_iff {disk : Disk} {tracePath promptsPath : String} {choice : BucketChoice}
    {loaded : Loaded} : (load disk tracePath promptsPath choice limit).value = .ok loaded ↔
    ∃ rows buckets prompts, readRows disk tracePath = .ok rows ∧
      bucketsFor choice rows = .ok buckets ∧ readPrompts disk promptsPath = .ok prompts ∧
      events rows buckets prompts limit = .ok loaded.events ∧ loaded.totalRows = rows.length ∧
      loaded.thresholds = buckets.thresholds := by
  rw [value_load]
  simp only [Except.bind_eq_ok_iff, Except.mapError_eq_ok_iff]
  constructor
  · rintro ⟨rows, hrows, buckets, hbuckets, prompts, hprompts, found, hfound, h⟩
    obtain rfl := Except.ok.inj h
    exact ⟨rows, buckets, prompts, hrows, hbuckets, hprompts, hfound, rfl, rfl⟩
  · rintro ⟨rows, buckets, prompts, hrows, hbuckets, hprompts, hevents, htotal, hthresholds⟩
    refine ⟨rows, hrows, buckets, hbuckets, prompts, hprompts, _, hevents, ?_⟩
    rw [← htotal, ← hthresholds]
    rfl

/-- From rows with finite times, a limit selects the events of the first ones in their order, the
offsets counted from the earliest, and a smaller limit, which is accepted too, the first of these
events. In what is loaded from a disk the thresholds are the same for all limits, and the events for
one limit begin with those for another. -/
theorem selection_law :
    (∀ {rows : List TraceRow} {buckets : Buckets} {prompts : Prompts} {limit : Option Nat}
        {found : List Event}, (∀ row ∈ rows, row.timestamp.isFinite = true) →
      events rows buckets prompts limit = .ok found →
        (∃ order start, Selection rows buckets prompts limit order start found) ∧
        ∀ count, 0 < count → (∀ n ∈ limit, count ≤ n) →
          events rows buckets prompts (some count) = .ok (found.take count)) ∧
    ∀ {disk : Disk} {tracePath promptsPath : String} {choice : BucketChoice}
        {limit limit' : Option Nat} {loaded loaded' : Loaded},
      (load disk tracePath promptsPath choice limit).value = .ok loaded →
      (load disk tracePath promptsPath choice limit').value = .ok loaded' →
        loaded.thresholds = loaded'.thresholds ∧ loaded.totalRows = loaded'.totalRows ∧
          (loaded.events <+: loaded'.events ∨ loaded'.events <+: loaded.events) := by
  constructor
  · intro rows buckets prompts limit found hfinite h
    exact ⟨exists_selection hfinite h, fun _ => events_take h⟩
  · intro disk tracePath promptsPath choice limit limit' loaded loaded' h h'
    obtain ⟨rows, buckets, prompts, hrows, hbuckets, hprompts, hevents, htotal, hthresholds⟩ :=
      load_eq_ok_iff.1 h
    obtain ⟨_, _, _, hrows', hbuckets', hprompts', hevents', htotal', hthresholds'⟩ :=
      load_eq_ok_iff.1 h'
    obtain rfl := Except.ok.inj (hrows.symm.trans hrows')
    obtain rfl := Except.ok.inj (hbuckets.symm.trans hbuckets')
    obtain rfl := Except.ok.inj (hprompts.symm.trans hprompts')
    exact ⟨hthresholds.trans hthresholds'.symm, htotal.trans htotal'.symm,
      events_prefix hevents hevents'⟩

/-- Three rows whose times do not decrease, the last two at the two zeros. -/
def tiedRows : List TraceRow :=
  [⟨-1, 1, 1, 2⟩, ⟨.zero false, 2, 2, 3⟩, ⟨.zero true, 3, 3, 4⟩]

/-- Buckets with one label for all token counts up to ten. -/
def oneLabel : Buckets := .fixed ⟨0, [⟨"a", 10⟩]⟩

/-- They stand by their times, and the last two are exchanged when they are replayed. -/
theorem replay_tiedRows :
    (∀ row ∈ tiedRows, row.timestamp.isFinite = true) ∧
      tiedRows.Pairwise (fun a b => a.timestamp ≤ b.timestamp) ∧
      bucketsFor (.fixed [0, 10] ["a"]) tiedRows = .ok oneLabel ∧
      events tiedRows oneLabel ⟨[("a", "p")]⟩ none =
        .ok [⟨0, "a", "p", 1, 1⟩, ⟨1, "a", "p", 3, 3⟩, ⟨1, "a", "p", 2, 2⟩] := by
  have hsorted : sortRows tiedRows =
      [⟨-1, 1, 1, 2⟩, ⟨.zero true, 3, 3, 4⟩, ⟨.zero false, 2, 2, 3⟩] :=
    sortRows_eq_of_pairwise (by decide +kernel) (by decide +kernel) (by decide +kernel)
  refine ⟨by decide +kernel, by decide +kernel, by decide +kernel, ?_⟩
  rw [events, hsorted]
  decide +kernel

/-- A trace with two rows, the later one first, and the prompts for their buckets. -/
def sampleDisk : Disk :=
  { entries :=
      [(["t.csv"], .file (Utf8.encode
        "TIMESTAMP,ContextTokens,GeneratedTokens\n1,20,2\n0,10,1\n".toList)),
      (["p.json"], .file (Utf8.encode "\x7b\"low\":\"a\",\"high\":\"d\"\x7d".toList))] }

def sampleRows : List TraceRow := [⟨1, 20, 2, 2⟩, ⟨0, 10, 1, 3⟩]

def sampleBuckets : Buckets := .fixed ⟨0, [⟨"low", 15⟩, ⟨"high", 100⟩]⟩

def samplePrompts : Prompts := ⟨[("high", "d"), ("low", "a")]⟩

def sampleEvents : List Event := [⟨0, "low", "a", 10, 1⟩, ⟨1, "high", "d", 20, 2⟩]

/-- What is read from the disk and made of it. -/
theorem read_sampleDisk :
    readRows sampleDisk "t.csv" = .ok sampleRows ∧
      readPrompts sampleDisk "p.json" = .ok samplePrompts ∧
      bucketsFor (.fixed [0, 15, 100] ["low", "high"]) sampleRows = .ok sampleBuckets ∧
      sortRows sampleRows = [⟨0, 10, 1, 3⟩, ⟨1, 20, 2, 2⟩] ∧
      events sampleRows sampleBuckets samplePrompts none = .ok sampleEvents := by
  have hsorted : sortRows sampleRows = [⟨0, 10, 1, 3⟩, ⟨1, 20, 2, 2⟩] :=
    sortRows_eq_of_pairwise (by decide +kernel) (by decide +kernel) (by decide +kernel)
  refine ⟨readRows_of_find rfl (by decide +kernel), readPrompts_of_find rfl (by decide +kernel),
    by decide +kernel, hsorted, ?_⟩
  rw [events, hsorted]
  decide +kernel

theorem events_sampleRows :
    events sampleRows sampleBuckets samplePrompts none = .ok sampleEvents :=
  read_sampleDisk.2.2.2.2

/-- What is loaded of it, with the limit with which some events were made. -/
theorem load_sampleDisk (h : events sampleRows sampleBuckets samplePrompts limit = .ok found) :
    (load sampleDisk "t.csv" "p.json" (.fixed [0, 15, 100] ["low", "high"]) limit).value =
      .ok ⟨found, 2, sampleBuckets.thresholds⟩ := by
  obtain ⟨hrows, hprompts, hbuckets, -, -⟩ := read_sampleDisk
  exact load_eq_ok_iff.2 ⟨_, _, _, hrows, hbuckets, hprompts, h, rfl, rfl⟩

theorem selection_law_sample :
    (∀ row ∈ tiedRows, row.timestamp.isFinite = true) ∧
      events tiedRows oneLabel ⟨[("a", "p")]⟩ none =
        .ok [⟨0, "a", "p", 1, 1⟩, ⟨1, "a", "p", 3, 3⟩, ⟨1, "a", "p", 2, 2⟩] ∧
      (∃ order start, Selection tiedRows oneLabel ⟨[("a", "p")]⟩ none order start
        [⟨0, "a", "p", 1, 1⟩, ⟨1, "a", "p", 3, 3⟩, ⟨1, "a", "p", 2, 2⟩]) ∧
      events tiedRows oneLabel ⟨[("a", "p")]⟩ (some 2) =
        .ok [⟨0, "a", "p", 1, 1⟩, ⟨1, "a", "p", 3, 3⟩] ∧
      events sampleRows sampleBuckets samplePrompts (some 1) = .ok [⟨0, "low", "a", 10, 1⟩] ∧
      ([⟨0, "low", "a", 10, 1⟩] <+: sampleEvents ∨ sampleEvents <+: [⟨0, "low", "a", 10, 1⟩]) := by
  obtain ⟨hfinite, -, -, htiedEvents⟩ := replay_tiedRows
  have htied := selection_law.1 hfinite htiedEvents
  have hone := events_take events_sampleRows Nat.one_pos nofun
  exact ⟨hfinite, htiedEvents, htied.1, htied.2 2 (by decide) nofun, hone,
    (selection_law.2 (load_sampleDisk hone) (load_sampleDisk events_sampleRows)).2.2⟩

/-- Rows that stand by their times are not replayed as they stand where `-0` follows `0`. -/
theorem tied_rows_exchanged :
    tiedRows.Pairwise (fun a b => a.timestamp ≤ b.timestamp) ∧
      bucketsFor (.fixed [0, 10] ["a"]) tiedRows = .ok oneLabel ∧
      ¬ ∃ found, events tiedRows oneLabel ⟨[("a", "p")]⟩ none = .ok found ∧
        found.map (·.contextTokens) = tiedRows.map (·.contextTokens) := by
  obtain ⟨-, hpairwise, hbuckets, hevents⟩ := replay_tiedRows
  refine ⟨hpairwise, hbuckets, ?_⟩
  rintro ⟨found, hfound, hsame⟩
  obtain rfl := Except.ok.inj (hevents.symm.trans hfound)
  exact absurd hsame (by decide)

end Trace

end LoadReplay
