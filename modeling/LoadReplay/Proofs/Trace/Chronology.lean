import LoadReplay.Proofs.Timestamp.Chronology
import LoadReplay.Proofs.Trace.Selection

/-!
# Rows in order of Unix time

Rows are sorted by the doubles of their times. These keep the order of Unix time, so of two rows
with dates the one with the later Unix time is not replayed first, unless both times are one double:
then the rows stay as they stand in the trace (`unix_order`). Unix time does not tell a leap second
from the second that follows, so a row in the one may be replayed behind a row in the other that is
later by the clock (`clock_order_fails`).
-/

namespace LoadReplay.Trace

open Timestamp (Denotes)

/-- The time of the row was read from a text that denotes an instant. -/
def DatedAs (row : TraceRow) (i : Instant) : Prop :=
  ∃ text, Denotes text i ∧ Timestamp.read? text = some row.timestamp

/-- Two rows, with their positions in the trace, the first of which is replayed before the second:
if both have dates, it does not have the later Unix time, unless both times are one number and the
rows are replayed as they stand. -/
def UnixOrdered (a b : TraceRow × Nat) : Prop :=
  ∀ i j, DatedAs a.1 i → DatedAs b.1 j →
    i.unixNanos ≤ j.unixNanos ∨ a.1.timestamp = b.1.timestamp ∧ a.2 < b.2

variable {row row' : TraceRow} {i j : Instant} {a b : TraceRow × Nat}

theorem DatedAs.timestamp_eq (h : DatedAs row i) : row.timestamp = i.toDouble := by
  obtain ⟨text, hdenotes, hread⟩ := h
  exact Option.some.inj (hread.symm.trans hdenotes.read?)

theorem DatedAs.totalLe (h : DatedAs row i) (h' : DatedAs row' j)
    (hunix : i.unixNanos < j.unixNanos) :
    Double.totalLe row.timestamp row'.timestamp = true := by
  rw [h.timestamp_eq, h'.timestamp_eq]
  obtain ⟨text, hdenotes, -⟩ := h
  obtain ⟨text', hdenotes', -⟩ := h'
  exact hdenotes.totalLe hdenotes' hunix

/-- Rows that are sorted by their times have their Unix times in order. -/
theorem Precedes.unixOrdered (ha : a.1.timestamp.isFinite = true)
    (hb : b.1.timestamp.isFinite = true) (h : Precedes a b) : UnixOrdered a b := by
  intro i j hi hj
  by_contra! hlater
  have hback := hj.totalLe hi hlater.1
  rcases h with hlt | ⟨hnegative, hzero⟩ | ⟨heq, hposition⟩
  · exact (Double.not_le_iff_lt (Double.ne_nan_of_isFinite hb) (Double.ne_nan_of_isFinite ha)).2 hlt
      (Double.le_of_totalLe hb ha hback)
  · rw [hnegative, hzero] at hback
    exact absurd hback (by decide)
  · exact Nat.not_lt.2 (hlater.2 heq) hposition

/-- A text that is no number is read if it denotes an instant, and its timestamp is the double of
the instant. Timestamps keep the order of Unix time, and so the order of instants, but for those in
a leap second and in the second that repeats its Unix times. Events are made of rows whose times
were read in an order that never puts a row with a later Unix time before another with a date,
unless their times are one double and the rows stand so in the trace. -/
theorem unix_order :
    (∀ {text : List Char} {x : Double}, Double.ofChars? (Text.trim text) = none →
      (Timestamp.read? text = some x ↔ ∃ i, Denotes text i ∧ i.toDouble = x)) ∧
    (∀ {text text' : List Char} {i j : Instant}, Denotes text i → Denotes text' j →
      (i.unixNanos < j.unixNanos → i.toDouble ≤ j.toDouble) ∧
      (i.Before j → ¬ i.RepeatedBy j → i.toDouble ≤ j.toDouble)) ∧
    ∀ {rows : List TraceRow} {buckets : Buckets} {prompts : Prompts} {limit : Option Nat}
        {found : List Event},
      (∀ row ∈ rows, ∃ text, Timestamp.read? text = some row.timestamp) →
      events rows buckets prompts limit = .ok found →
        ∃ order start, Selection rows buckets prompts limit order start found ∧
          order.Pairwise UnixOrdered := by
  refine ⟨fun {text x} hnumber => ⟨fun h => ?_, ?_⟩, fun {text text' i j} h h' => ?_,
    fun {rows buckets prompts limit found} hread h => ?_⟩
  · rw [Timestamp.read?, hnumber] at h
    obtain ⟨i, hi, hx⟩ := Option.map_eq_some_iff.1 h
    exact ⟨i, ⟨hnumber, hi⟩, hx⟩
  · rintro ⟨i, hi, rfl⟩
    exact hi.read?
  · have hunix (hlt : i.unixNanos < j.unixNanos) : i.toDouble ≤ j.toDouble :=
      Double.le_of_totalLe (Instant.isFinite_toDouble h.isNear)
        (Instant.isFinite_toDouble h'.isNear) (h.totalLe h' hlt)
    exact ⟨hunix, fun hbefore hrepeat =>
      hunix (Instant.unixNanos_lt_of_before h.isNear hbefore hrepeat)⟩
  · have hfinite : ∀ row ∈ rows, row.timestamp.isFinite = true := by
      intro row hrow
      obtain ⟨text, htext⟩ := hread row hrow
      exact Timestamp.isFinite_of_read? htext
    obtain ⟨order, start, hselection⟩ := exists_selection hfinite h
    have hmem (a : TraceRow × Nat) (ha : a ∈ order) : a.1.timestamp.isFinite = true :=
      hfinite a.1 (List.fst_mem_of_mem_zipIdx (hselection.arranged.perm.subset ha))
    exact ⟨order, start, hselection, hselection.arranged.pairwise.imp_of_mem fun ha hb =>
      Precedes.unixOrdered (hmem _ ha) (hmem _ hb)⟩

/-! ## A leap second -/

/-- Half a second into the last leap second of 2016, and the midnight that follows. -/
def leapText : List Char := "2016-12-31T23:59:60.5Z".toList

def midnightText : List Char := "2017-01-01T00:00:00Z".toList

def leapInstant : Instant := ⟨1483228799, 1500000000⟩

def midnight : Instant := ⟨1483228800, 0⟩

theorem denotes_leapText : Denotes leapText leapInstant := by decide

theorem denotes_midnightText : Denotes midnightText midnight := by decide

/-- The row in the leap second stands first. -/
def leapRows : List TraceRow := [⟨leapInstant.toDouble, 1, 1, 2⟩, ⟨midnight.toDouble, 2, 2, 3⟩]

theorem read?_leapRows : ∀ row ∈ leapRows, ∃ text, Timestamp.read? text = some row.timestamp :=
  List.forall_mem_cons.2 ⟨⟨leapText, denotes_leapText.read?⟩,
    List.forall_mem_singleton.2 ⟨midnightText, denotes_midnightText.read?⟩⟩

theorem events_leapRows : events leapRows oneLabel ⟨[("a", "p")]⟩ none =
    .ok [⟨0, "a", "p", 2, 2⟩, ⟨0.5, "a", "p", 1, 1⟩] := by
  have hsorted : sortRows leapRows =
      [⟨midnight.toDouble, 2, 2, 3⟩, ⟨leapInstant.toDouble, 1, 1, 2⟩] :=
    sortRows_eq_of_pairwise (by decide +kernel) (by decide +kernel) (by decide +kernel)
  rw [events, hsorted]
  decide +kernel

/-- Unix time has midnight first, and so has the replay. -/
theorem unix_order_sample :
    Denotes midnightText midnight ∧ Denotes leapText leapInstant ∧
      midnight.unixNanos < leapInstant.unixNanos ∧ midnight.toDouble ≤ leapInstant.toDouble ∧
      Double.ofChars? (Text.trim leapText) = none ∧
      Timestamp.read? leapText = some leapInstant.toDouble ∧
      (∀ row ∈ leapRows, ∃ text, Timestamp.read? text = some row.timestamp) ∧
      events leapRows oneLabel ⟨[("a", "p")]⟩ none =
        .ok [⟨0, "a", "p", 2, 2⟩, ⟨0.5, "a", "p", 1, 1⟩] ∧
      ∃ order start, Selection leapRows oneLabel ⟨[("a", "p")]⟩ none order start
          [⟨0, "a", "p", 2, 2⟩, ⟨0.5, "a", "p", 1, 1⟩] ∧ order.Pairwise UnixOrdered := by
  have hunix : midnight.unixNanos < leapInstant.unixNanos := by decide
  have hnumber : Double.ofChars? (Text.trim leapText) = none := denotes_leapText.no_number
  exact ⟨denotes_midnightText, denotes_leapText, hunix,
    (unix_order.2.1 denotes_midnightText denotes_leapText).1 hunix, hnumber,
    (unix_order.1 hnumber).2 ⟨_, denotes_leapText, rfl⟩, read?_leapRows, events_leapRows,
    unix_order.2.2 read?_leapRows events_leapRows⟩

/-- Instants that are a tenth of a microsecond apart have one double. -/
def laterText : List Char := "2023-11-16T18:00:00.0000001Z".toList

def earlierText : List Char := "2023-11-16T18:00:00.0000000Z".toList

def later : Instant := ⟨1700157600, 100⟩

def earlier : Instant := ⟨1700157600, 0⟩

/-- The later row stands first. -/
def closeRows : List TraceRow := [⟨later.toDouble, 1, 1, 2⟩, ⟨earlier.toDouble, 2, 2, 3⟩]

/-- In a leap second an instant that is earlier than midnight has a greater timestamp, and its row
is replayed after midnight. Of two instants with one double the later may be replayed first. -/
theorem clock_order_fails :
    (Denotes leapText leapInstant ∧ Denotes midnightText midnight ∧ leapInstant.Before midnight ∧
      ¬ leapInstant.toDouble ≤ midnight.toDouble ∧
      events leapRows oneLabel ⟨[("a", "p")]⟩ none =
        .ok [⟨0, "a", "p", 2, 2⟩, ⟨0.5, "a", "p", 1, 1⟩]) ∧
    (Denotes laterText later ∧ Denotes earlierText earlier ∧ earlier.Before later ∧
      events closeRows oneLabel ⟨[("a", "p")]⟩ none =
        .ok [⟨0, "a", "p", 1, 1⟩, ⟨0, "a", "p", 2, 2⟩]) := by
  refine ⟨⟨denotes_leapText, denotes_midnightText, .inl (by decide), by decide +kernel,
    events_leapRows⟩, by decide +kernel, by decide +kernel, .inr ⟨rfl, by decide⟩, ?_⟩
  have hsorted : sortRows closeRows = closeRows := List.mergeSort_of_pairwise (by decide +kernel)
  rw [events, hsorted]
  decide +kernel

end LoadReplay.Trace
