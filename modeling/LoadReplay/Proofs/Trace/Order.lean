import LoadReplay.Trace.Load
import Mathlib.Data.List.Nodup

/-!
# The order of the rows in a trace

Statistics of a column are taken from the sorted column, and so are the buckets; events are made
from the sorted rows. Where no two rows have one timestamp, it therefore does not matter in which
order a trace holds its rows, neither for the events nor for the fault (`row_order_irrelevant`). The
two zeros are different timestamps here, as the sort takes them.
-/

namespace LoadReplay

/-- Sorting forgets the order that the numbers had. -/
theorem Double.sort_eq_of_perm {values values' : List Double} (h : values.Perm values') :
    sort values = sort values' :=
  List.Perm.eq_of_pairwise (fun _ _ _ _ => totalLe_antisymm)
    (List.pairwise_mergeSort totalLe_trans totalLe_total _)
    (List.pairwise_mergeSort totalLe_trans totalLe_total _)
    ((List.mergeSort_perm ..).trans (h.trans (List.mergeSort_perm ..).symm))

/-! ## Columns -/

namespace Column

variable {values values' : List Double}

theorem sorted_eq_ok (hne : values ≠ []) (hfinite : ∀ v ∈ values, v.isFinite = true) :
    sorted values = .ok (Double.sort values) := by
  have hnone : values.find? (!·.isFinite) = none :=
    List.find?_eq_none.2 fun v hv => by simp [hfinite v hv]
  rw [sorted, if_neg (by simpa using hne), hnone]

/-- Which number a search finds does not depend on the order where it can find only one. -/
theorem find?_eq_of_perm {p : Double → Bool} (h : values.Perm values')
    (hone : ∀ v ∈ values, ∀ w ∈ values, p v = true → p w = true → v = w) :
    values.find? p = values'.find? p := by
  cases hfind : values'.find? p with
  | none =>
    rw [List.find?_eq_none] at hfind ⊢
    exact fun v hv => hfind v (h.subset hv)
  | some w =>
    have hw := h.symm.subset (List.mem_of_find?_eq_some hfind)
    have hpw := List.find?_some hfind
    obtain ⟨v, hv⟩ := Option.isSome_iff_exists.1 (List.find?_isSome.2 ⟨w, hw, hpw⟩)
    rw [hv, hone v (List.mem_of_find?_eq_some hv) w hw (List.find?_some hv) hpw]

theorem sorted_eq_of_perm (h : values.Perm values')
    (hone : ∀ v ∈ values, ∀ w ∈ values, v.isFinite = false → w.isFinite = false → v = w) :
    sorted values = sorted values' := by
  have hfind : values.find? (!·.isFinite) = values'.find? (!·.isFinite) :=
    find?_eq_of_perm h fun v hv w hw hpv hpw =>
      hone v hv w hw (Bool.not_eq_eq_eq_not.1 hpv) (Bool.not_eq_eq_eq_not.1 hpw)
  rw [sorted, sorted, h.isEmpty_eq, hfind, Double.sort_eq_of_perm h]

theorem sorted_eq_of_perm_of_finite (h : values.Perm values')
    (hfinite : ∀ v ∈ values, v.isFinite = true) : sorted values = sorted values' :=
  sorted_eq_of_perm h fun v hv _ _ hnot => absurd (hfinite v hv) (Bool.eq_false_iff.1 hnot)

end Column

/-! ## Rows -/

/-- The only number that is not finite and still nearest to a natural number is infinity. -/
theorem Double.ofNat_of_not_isFinite {n : Nat} (h : (ofNat n).isFinite = false) :
    ofNat n = infinite false := by
  rw [ofNat, ofQuotient, ofRank] at h ⊢
  split_ifs at h ⊢
  · cases h
  · rfl

namespace Trace

variable {rows rows' : List TraceRow}

theorem bucketsFor_eq_of_perm (h : rows.Perm rows') (choice : BucketChoice) :
    bucketsFor choice rows = bucketsFor choice rows' := by
  have hone : ∀ v ∈ TraceRow.contextValues rows, ∀ w ∈ TraceRow.contextValues rows,
      v.isFinite = false → w.isFinite = false → v = w := by
    intro v hv w hw hpv hpw
    obtain ⟨row, -, rfl⟩ := List.mem_map.1 hv
    obtain ⟨row', -, rfl⟩ := List.mem_map.1 hw
    rw [Double.ofNat_of_not_isFinite hpv, Double.ofNat_of_not_isFinite hpw]
  have hperm : (TraceRow.contextValues rows).Perm (TraceRow.contextValues rows') := h.map _
  have hsorted := Column.sorted_eq_of_perm hperm hone
  cases choice with
  | fixed bounds labels => rfl
  | quantile =>
    rw [bucketsFor, bucketsFor, BucketChoice.build, BucketChoice.build, Quartiles.of, Quartiles.of,
      hsorted]

theorem sortRows_perm (rows : List TraceRow) : (sortRows rows).Perm rows := List.mergeSort_perm ..

theorem pairwise_sortRows (rows : List TraceRow) :
    (sortRows rows).Pairwise fun a b => Double.totalLe a.timestamp b.timestamp = true :=
  List.pairwise_mergeSort (fun a b c => Double.totalLe_trans a.timestamp b.timestamp c.timestamp)
    (fun a b => Double.totalLe_total a.timestamp b.timestamp) rows

/-- Rows of different times are sorted in one way. -/
theorem sortRows_eq_of_perm (h : rows.Perm rows')
    (hdistinct : (rows.map (·.timestamp)).Nodup) : sortRows rows = sortRows rows' := by
  refine List.Perm.eq_of_pairwise (fun a b ha hb hab hba => ?_) (pairwise_sortRows rows)
    (pairwise_sortRows rows') ((sortRows_perm rows).trans (h.trans (sortRows_perm rows').symm))
  exact List.inj_on_of_nodup_map hdistinct ((sortRows_perm rows).subset ha)
    (h.symm.subset ((sortRows_perm rows').subset hb)) (Double.totalLe_antisymm hab hba)

theorem sortRows_eq_of_pairwise (h : rows.Perm rows')
    (hdistinct : (rows.map (·.timestamp)).Nodup)
    (hsorted : rows'.Pairwise fun a b => Double.totalLe a.timestamp b.timestamp = true) :
    sortRows rows = rows' :=
  (sortRows_eq_of_perm h hdistinct).trans (List.mergeSort_of_pairwise hsorted)

theorem events_eq_of_perm (h : rows.Perm rows') (hdistinct : (rows.map (·.timestamp)).Nodup)
    (buckets : Buckets) (prompts : Prompts) (limit : Option Nat) :
    events rows buckets prompts limit = events rows' buckets prompts limit := by
  rw [events, events, sortRows_eq_of_perm h hdistinct]

/-- The buckets of rows with different timestamps and the events made with them, or the fault, are
the same in whatever order the rows stand; so are the statistics and the quartiles of a column. -/
theorem row_order_irrelevant :
    (∀ {rows rows' : List TraceRow}, rows.Perm rows' → (rows.map (·.timestamp)).Nodup →
      ∀ (choice : BucketChoice) (prompts : Prompts) (limit : Option Nat),
        (do
          let buckets ← bucketsFor choice rows
          (events rows buckets prompts limit).mapError Error.trace) =
        (do
          let buckets ← bucketsFor choice rows'
          (events rows' buckets prompts limit).mapError Error.trace)) ∧
      ∀ {values values' : List Double}, values.Perm values' →
        (∀ v ∈ values, v.isFinite = true) →
          ColumnStats.of values = ColumnStats.of values' ∧
            Quartiles.of values = Quartiles.of values' := by
  constructor
  · intro rows rows' h hdistinct choice prompts limit
    rw [bucketsFor_eq_of_perm h choice]
    simp only [events_eq_of_perm h hdistinct]
  · intro values values' h hfinite
    have hsorted := Column.sorted_eq_of_perm_of_finite h hfinite
    rw [ColumnStats.of, ColumnStats.of, Quartiles.of, Quartiles.of, hsorted]
    exact ⟨rfl, rfl⟩

/-- Three rows, two of them at the two zeros. -/
def zeroRows : List TraceRow :=
  [⟨Double.zero false, 20, 2, 2⟩, ⟨Double.zero true, 10, 1, 3⟩, ⟨1, 30, 3, 4⟩]

theorem row_order_irrelevant_sample :
    zeroRows.reverse.Perm zeroRows ∧ (zeroRows.reverse.map (·.timestamp)).Nodup ∧
      (do
        let buckets ← bucketsFor .quantile zeroRows.reverse
        (events zeroRows.reverse buckets ⟨[("1", "a"), ("2", "b"), ("4", "c")]⟩ none).mapError
          Error.trace) =
      (do
        let buckets ← bucketsFor .quantile zeroRows
        (events zeroRows buckets ⟨[("1", "a"), ("2", "b"), ("4", "c")]⟩ none).mapError
          Error.trace) ∧
      (∀ v ∈ TraceRow.generatedValues zeroRows.reverse, v.isFinite = true) ∧
      ColumnStats.of (TraceRow.generatedValues zeroRows.reverse) =
        ColumnStats.of (TraceRow.generatedValues zeroRows) := by
  have hdistinct : (zeroRows.reverse.map (·.timestamp)).Nodup := by decide +kernel
  have hfinite : ∀ v ∈ TraceRow.generatedValues zeroRows.reverse, v.isFinite = true := by
    decide +kernel
  have hperm := List.reverse_perm zeroRows
  have hvalues : (TraceRow.generatedValues zeroRows.reverse).Perm
      (TraceRow.generatedValues zeroRows) := hperm.map _
  exact ⟨hperm, hdistinct, row_order_irrelevant.1 hperm hdistinct _ _ _, hfinite,
    (row_order_irrelevant.2 hvalues hfinite).1⟩

end Trace

end LoadReplay
