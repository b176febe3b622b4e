import LoadReplay.Proofs.Bucket.Distribution
import LoadReplay.Proofs.Bucket.Ranks
import LoadReplay.Proofs.Double.Quarters
import LoadReplay.Proofs.Trace.Order
import Mathlib.Data.List.Sort

/-!
# Quartile buckets of token counts

A percentile of token counts below `2 ^ 51` is computed without rounding
(`Column.isQuarters_percentile`). So the quartiles of such a column are the values that are
interpolated at its ranks, they lie between its least and its greatest count, and up to each of them
lie the counts up to its rank; where no two counts are alike, the sizes of the four buckets differ
by one at most (`Quartiles.balanced_of_counts`).
-/

namespace LoadReplay

open Double (IsQuarters isQuarters_ofNat)

/-! ## Percentiles -/

namespace Column

variable {counts : List Nat}

theorem item_map_ofNat (counts : List Nat) (i : Nat) :
    item (counts.map Double.ofNat) i = Double.ofNat (counts.getD i 0) :=
  List.getD_map counts 0 Double.ofNat

/-- Counts are in the same order as numbers. -/
theorem sort_map_ofNat (hcounts : ∀ c ∈ counts, c < 2 ^ 53) :
    Double.sort (counts.map Double.ofNat) = counts.mergeSort.map Double.ofNat := by
  have hquarters : ∀ c ∈ counts, IsQuarters (Double.ofNat c) (4 * c) := fun c hc =>
    isQuarters_ofNat (hcounts c hc)
  have hperm : (counts.map Double.ofNat).Perm (counts.mergeSort.map Double.ofNat) :=
    (List.mergeSort_perm counts _).symm.map _
  have hpairwise : (counts.mergeSort.map Double.ofNat).Pairwise
      fun a b => Double.totalLe a b = true := by
    refine List.pairwise_map.2 ((List.pairwise_mergeSort' (· ≤ ·) counts).imp_of_mem ?_)
    intro a b ha hb hab
    rw [List.mem_mergeSort] at ha hb
    exact Double.IsQuanta.totalLe (hquarters a ha) (hquarters b hb)
      (Nat.mul_le_mul_right _ (Nat.mul_le_mul_left 4 hab))
  rw [Double.sort_eq_of_perm hperm]
  exact List.mergeSort_of_pairwise hpairwise

theorem sorted_map_ofNat (hne : counts ≠ []) (hcounts : ∀ c ∈ counts, c < 2 ^ 51) :
    sorted (counts.map Double.ofNat) = .ok (counts.mergeSort.map Double.ofNat) := by
  have hlt : ∀ c ∈ counts, c < 2 ^ 53 := fun c hc => (hcounts c hc).trans (by decide)
  rw [sorted_eq_ok (by simpa using hne)
    (List.forall_mem_map.2 fun c hc => Double.IsQuanta.isFinite (isQuarters_ofNat (hlt c hc))),
    sort_map_ofNat hlt]

/-- The percentile at a rank of a number of quarters is the exact value there. -/
theorem isQuarters_percentile {q : Double} {j : Nat} (hsorted : counts.Pairwise (· ≤ ·))
    (hcounts : ∀ c ∈ counts, c < 2 ^ 51)
    (hposition : IsQuarters (q * Double.ofNat (counts.length - 1)) j)
    (hj : j + 4 ≤ 4 * counts.length) :
    IsQuarters (percentile (counts.map Double.ofNat) q) (quartersAt counts j) := by
  obtain ⟨hlow, hhigh⟩ := div_lt_length hj
  have hbound : counts.getD ((j + 3) / 4) 0 < 2 ^ 51 := by
    rw [List.getD_eq_getElem _ _ hhigh]
    exact hcounts _ (List.getElem_mem hhigh)
  have hle := getD_mono hsorted (show j / 4 ≤ (j + 3) / 4 by omega) hhigh
  rw [percentile, List.length_map, item_map_ofNat, item_map_ofNat, hposition.floorNat,
    hposition.ceilNat, quartersAt]
  generalize hbelow : counts.getD (j / 4) 0 = below at hle
  generalize habove : counts.getD ((j + 3) / 4) 0 = above at hle hbound
  have hitem : IsQuarters (Double.ofNat below) (4 * below) := isQuarters_ofNat (by omega)
  have hdifference := (isQuarters_ofNat (show above < 2 ^ 53 by omega)).sub hitem
    (by omega) (by omega)
  rw [← Nat.mul_sub] at hdifference
  have hfraction := hposition.sub hposition.ofNat_div (Nat.mul_div_le j 4) (by omega)
  have hpart : (above - below) * (j - 4 * (j / 4)) ≤ (above - below) * 4 :=
    Nat.mul_le_mul_left _ (by omega)
  have hvalue := hitem.add (hdifference.whole_mul hfraction (by omega)) (by omega)
  rwa [show j - 4 * (j / 4) = j % 4 by omega] at hvalue

end Column

/-! ## Quartiles -/

namespace Quartiles

variable {column : List Nat} {q : Quartiles} {j₁ j₂ j₃ : Nat}

/-- The quartiles are the values at three ranks of a sorted column, in quarters. -/
structure AtRanks (sorted : List Nat) (j₁ j₂ j₃ : Nat) (q : Quartiles) : Prop where
  lower : IsQuarters q.lower (Column.quartersAt sorted j₁)
  median : IsQuarters q.median (Column.quartersAt sorted j₂)
  upper : IsQuarters q.upper (Column.quartersAt sorted j₃)

/-- The quartiles of token counts are exact values at ranks of the sorted column, and up to `2 ^ 51`
counts the ranks are the quarters of the way from the first to the last. -/
theorem exists_atRanks (hne : column ≠ []) (hlength : column.length ≤ 2 ^ 64)
    (hcounts : ∀ c ∈ column, c < 2 ^ 51) :
    ∃ q j₁ j₂ j₃, of (column.map Double.ofNat) = .ok q ∧ AtRanks column.mergeSort j₁ j₂ j₃ q ∧
      (column.length ≤ 2 ^ 51 → j₁ = 1 * (column.length - 1) ∧ j₂ = 2 * (column.length - 1) ∧
        j₃ = 3 * (column.length - 1)) := by
  have hpos : 0 < column.length := List.length_pos_iff.2 hne
  have hsortedLength : column.mergeSort.length = column.length := List.length_mergeSort column
  have hpercentile {k j : Nat} {p : Double}
      (hj : IsQuarters (p * Double.ofNat (column.length - 1)) j ∧ j ≤ 4 * (column.length - 1) ∧
        (column.length - 1 < 2 ^ 51 → j = k * (column.length - 1))) :
      IsQuarters (Column.percentile (column.mergeSort.map Double.ofNat) p)
        (Column.quartersAt column.mergeSort j) := by
    obtain ⟨hposition, hle, -⟩ := hj
    refine Column.isQuarters_percentile (List.pairwise_mergeSort' (· ≤ ·) column) ?_ ?_ ?_
    · exact fun c hc => hcounts c (List.mem_mergeSort.1 hc)
    · rwa [hsortedLength]
    · rw [hsortedLength]
      omega
  have hn : column.length - 1 < 2 ^ 64 := by omega
  obtain ⟨j₁, h₁⟩ := Double.exists_isQuarters_mul_ofNat Double.isQuarters_quarter (by decide) hn
  obtain ⟨j₂, h₂⟩ := Double.exists_isQuarters_mul_ofNat Double.isQuarters_half (by decide) hn
  obtain ⟨j₃, h₃⟩ :=
    Double.exists_isQuarters_mul_ofNat Double.isQuarters_threeQuarters (by decide) hn
  refine ⟨⟨_, _, _⟩, j₁, j₂, j₃, ?_, ⟨hpercentile h₁, hpercentile h₂, hpercentile h₃⟩,
    fun hshort => ?_⟩
  · rw [of, Column.sorted_map_ofNat hne hcounts]
    rfl
  · have hlt : column.length - 1 < 2 ^ 51 := by omega
    exact ⟨h₁.2.2 hlt, h₂.2.2 hlt, h₃.2.2 hlt⟩

/-! ## Labels -/

/-- The label of a count is decided by the quarters of the quartiles. -/
theorem AtRanks.label_ofNat {sorted : List Nat} (h : AtRanks sorted j₁ j₂ j₃ q) {c : Nat}
    (hc : c < 2 ^ 53) :
    q.label (Double.ofNat c) =
      if 4 * c ≤ Column.quartersAt sorted j₁ then "1"
      else if 4 * c ≤ Column.quartersAt sorted j₂ then "2"
      else if 4 * c ≤ Column.quartersAt sorted j₃ then "3" else "4" := by
  have hcount := isQuarters_ofNat hc
  simp only [label, hcount.le_iff h.lower, hcount.le_iff h.median, hcount.le_iff h.upper]

/-- How many labels are among the first ones. -/
def countUpTo (found : List String) (k : Nat) : Nat :=
  found.countP fun label => decide (label ∈ labels.take k)

/-- The labels one by one. -/
theorem count_eq_countUpTo {found : List String} (h : ∀ label ∈ found, label ∈ labels) :
    countUpTo found 1 = found.count "1" ∧
      countUpTo found 2 = found.count "1" + found.count "2" ∧
      countUpTo found 3 = found.count "1" + found.count "2" + found.count "3" ∧
      found.length = found.count "1" + found.count "2" + found.count "3" + found.count "4" := by
  induction found with
  | nil => simp [countUpTo]
  | cons label found ih =>
    obtain ⟨hlabel, hfound⟩ := List.forall_mem_cons.1 h
    obtain ⟨ih₁, ih₂, ih₃, ihlength⟩ := ih hfound
    simp only [countUpTo] at ih₁ ih₂ ih₃ ⊢
    simp only [labels, List.mem_cons, List.not_mem_nil, or_false] at hlabel
    rcases hlabel with rfl | rfl | rfl | rfl <;>
      simp [labels] at ih₁ ih₂ ih₃ ⊢ <;> omega

theorem idxOf_label (v : Double) : labels.idxOf (q.label v) =
    if v ≤ q.lower then 0 else if v ≤ q.median then 1 else if v ≤ q.upper then 2 else 3 := by
  unfold label
  split_ifs <;> rfl

/-- A greater number never has an earlier label. -/
theorem idxOf_label_le {v w : Double} (h : v ≤ w) :
    labels.idxOf (q.label v) ≤ labels.idxOf (q.label w) := by
  have hlower : w ≤ q.lower → v ≤ q.lower := Double.le_trans h
  have hmedian : w ≤ q.median → v ≤ q.median := Double.le_trans h
  have hupper : w ≤ q.upper → v ≤ q.upper := Double.le_trans h
  rw [idxOf_label, idxOf_label]
  grind

/-! ## Exact and balanced -/

/-- The quartiles are the exact values at the ranks of a sorted column, and lie between its least
and its greatest count. -/
structure Interpolated (sorted : List Nat) (q : Quartiles) : Prop where
  isFinite : q.lower.isFinite = true ∧ q.median.isFinite = true ∧ q.upper.isFinite = true
  lower_value : q.lower.value = Column.interpolated sorted ((sorted.length - 1) / 4)
  median_value : q.median.value = Column.interpolated sorted ((sorted.length - 1) / 2)
  upper_value : q.upper.value = Column.interpolated sorted (3 * (sorted.length - 1) / 4)
  least_le_lower : ∃ least ∈ sorted, (∀ c ∈ sorted, least ≤ c) ∧ Double.ofNat least ≤ q.lower
  lower_le_median : q.lower ≤ q.median
  median_le_upper : q.median ≤ q.upper
  upper_le_greatest : ∃ greatest ∈ sorted, (∀ c ∈ sorted, c ≤ greatest) ∧
    q.upper ≤ Double.ofNat greatest

/-- The labels of a column of counts: those up to a quartile are at least as many as the counts up
to its rank. Where no two counts are alike they are as many, and so the labels are shared out
evenly. -/
structure Balanced (column : List Nat) (found : List String) : Prop where
  le_countUpTo : ∀ k, 1 ≤ k → k ≤ 3 → k * (column.length - 1) / 4 + 1 ≤ countUpTo found k
  countUpTo_eq : column.Nodup → ∀ k, 1 ≤ k → k ≤ 3 →
    countUpTo found k = k * (column.length - 1) / 4 + 1
  count_le : column.Nodup → ∀ label ∈ labels, ∀ other ∈ labels,
    found.count label ≤ found.count other + 1

section

variable {sorted : List Nat} {m : Nat} (hsorted : sorted.Pairwise (· ≤ ·))
  (hlength : sorted.length = m + 1) (hcounts : ∀ c ∈ sorted, c < 2 ^ 51)
  (h : AtRanks sorted (1 * m) (2 * m) (3 * m) q)

include hlength in
theorem rank_le {k : Nat} (hk : k ≤ 3) : k * m + 4 ≤ 4 * sorted.length := by
  have := Nat.mul_le_mul_right m hk
  omega

include hsorted hlength in
theorem quartersAt_le_quartersAt {k l : Nat} (hkl : k ≤ l) (hl : l ≤ 3) :
    Column.quartersAt sorted (k * m) ≤ Column.quartersAt sorted (l * m) :=
  Column.quartersAt_mono hsorted (Nat.mul_le_mul_right m hkl) (rank_le hlength hl)

include hsorted hlength hcounts h

theorem AtRanks.interpolated : Interpolated sorted q := by
  have hvalue {k : Nat} {x : Double} (hk : k ≤ 3)
      (hx : IsQuarters x (Column.quartersAt sorted (k * m))) :
      x.value = Column.interpolated sorted (k * (sorted.length - 1) / 4) := by
    rw [hx.value_eq, ← Column.interpolated_div_four hsorted (rank_le hlength hk), hlength]
    push_cast
    rw [add_sub_cancel_right]
  have hofNat {i : Nat} (hi : i < sorted.length) :
      IsQuarters (Double.ofNat (sorted.getD i 0)) (4 * sorted.getD i 0) :=
    isQuarters_ofNat ((hcounts _ (Column.getD_mem hi)).trans (by decide))
  have hfirst : 0 < sorted.length := by omega
  have hlast : sorted.length - 1 < sorted.length := by omega
  refine
    { isFinite := ⟨h.lower.isFinite, h.median.isFinite, h.upper.isFinite⟩
      lower_value := (hvalue (by decide) h.lower).trans (by rw [Nat.cast_one, one_mul])
      median_value := (hvalue (by decide) h.median).trans (congrArg _ (by push_cast; ring))
      upper_value := hvalue (by decide) h.upper
      least_le_lower := ⟨_, Column.getD_mem hfirst,
        fun c hc => (Column.getD_le_of_mem hsorted hc).1, ?_⟩
      lower_le_median := (h.lower.le_iff h.median).2
        (quartersAt_le_quartersAt hsorted hlength (by decide) (by decide))
      median_le_upper := (h.median.le_iff h.upper).2
        (quartersAt_le_quartersAt hsorted hlength (by decide) (by decide))
      upper_le_greatest := ⟨_, Column.getD_mem hlast,
        fun c hc => (Column.getD_le_of_mem hsorted hc).2, ?_⟩ }
  · rw [(hofNat hfirst).le_iff h.lower]
    have hmono := Column.getD_mono hsorted (Nat.zero_le (1 * m / 4)) (by omega)
    exact (Nat.mul_le_mul_left 4 hmono).trans (Column.le_quartersAt sorted _)
  · rw [h.upper.le_iff (hofNat hlast)]
    have hmono := Column.getD_mono hsorted
      (show (3 * m + 3) / 4 ≤ sorted.length - 1 by omega) hlast
    exact (Column.quartersAt_le hsorted (rank_le hlength (by decide))).trans
      (Nat.mul_le_mul_left 4 hmono)

/-- The counts with one of the first labels are those up to the quartile. -/
theorem AtRanks.countUpTo_map {k : Nat} (hk : 1 ≤ k) (hk' : k ≤ 3) :
    countUpTo (sorted.map fun c => q.label (Double.ofNat c)) k =
      sorted.countP fun c => decide (4 * c ≤ Column.quartersAt sorted (k * m)) := by
  have hlower : Column.quartersAt sorted (1 * m) ≤ Column.quartersAt sorted (2 * m) :=
    quartersAt_le_quartersAt hsorted hlength (by decide) (by decide)
  have hmedian : Column.quartersAt sorted (2 * m) ≤ Column.quartersAt sorted (3 * m) :=
    quartersAt_le_quartersAt hsorted hlength (by decide) (by decide)
  rw [countUpTo, List.countP_map]
  refine List.countP_congr fun c hc => ?_
  have hlabel := h.label_ofNat ((hcounts c hc).trans (by decide))
  simp only [Function.comp_apply, hlabel, decide_eq_true_eq]
  obtain rfl | rfl | rfl : k = 1 ∨ k = 2 ∨ k = 3 := by omega
  all_goals
    generalize Column.quartersAt sorted (1 * m) = lower at hlower
    generalize Column.quartersAt sorted (2 * m) = median at hlower hmedian
    generalize Column.quartersAt sorted (3 * m) = upper at hmedian
    split_ifs <;> simp [labels] <;> omega

end

theorem AtRanks.balanced {m : Nat} (hlength : column.length = m + 1)
    (hcounts : ∀ c ∈ column, c < 2 ^ 51)
    (h : AtRanks column.mergeSort (1 * m) (2 * m) (3 * m) q) :
    Balanced column (column.map fun c => q.label (Double.ofNat c)) := by
  have hperm : column.mergeSort.Perm column := List.mergeSort_perm column _
  have hsorted := List.pairwise_mergeSort' (· ≤ ·) column
  have hlength' : column.mergeSort.length = m + 1 := hperm.length_eq.trans hlength
  have hcount {k : Nat} (hk : 1 ≤ k) (hk' : k ≤ 3) :
      countUpTo (column.map fun c => q.label (Double.ofNat c)) k = column.mergeSort.countP
        fun c => decide (4 * c ≤ Column.quartersAt column.mergeSort (k * m)) := by
    rw [← h.countUpTo_map hsorted hlength' (fun c hc => hcounts c (hperm.subset hc)) hk hk']
    exact ((hperm.map _).countP_eq _).symm
  have heq (hnodup : column.Nodup) (k : Nat) (hk : 1 ≤ k) (hk' : k ≤ 3) :
      countUpTo (column.map fun c => q.label (Double.ofNat c)) k = k * m / 4 + 1 := by
    have hstrict : column.mergeSort.Pairwise (· < ·) :=
      (hsorted.and (hperm.nodup_iff.2 hnodup)).imp fun hab => lt_of_le_of_ne hab.1 hab.2
    rw [hcount hk hk', Column.countP_quartersAt hstrict (rank_le hlength' hk')]
  have hm : column.length - 1 = m := by omega
  refine ⟨fun k hk hk' => ?_, hm ▸ heq, fun hnodup => ?_⟩
  · rw [hm, hcount hk hk']
    exact Column.lt_countP_quartersAt hsorted (rank_le hlength' hk')
  · have hlabels : ∀ label ∈ column.map fun c => q.label (Double.ofNat c), label ∈ labels :=
      List.forall_mem_map.2 fun c _ => q.label_mem_labels _
    obtain ⟨h₁, h₂, h₃, htotal⟩ := count_eq_countUpTo hlabels
    rw [heq hnodup 1 (by decide) (by decide)] at h₁
    rw [heq hnodup 2 (by decide) (by decide)] at h₂
    rw [heq hnodup 3 (by decide) (by decide)] at h₃
    rw [List.length_map, hlength] at htotal
    intro label hlabel other hother
    simp only [labels, List.mem_cons, List.not_mem_nil, or_false] at hlabel hother
    rcases hlabel with rfl | rfl | rfl | rfl <;> rcases hother with rfl | rfl | rfl | rfl <;> omega

/-- The quartile buckets of token counts: the quartiles are exact, the labels are balanced, and a
greater number never has an earlier label. -/
theorem balanced_of_counts {column : List Nat} (hne : column ≠ [])
    (hlength : column.length < 2 ^ 51) (hcounts : ∀ c ∈ column, c < 2 ^ 51) :
    ∃ q found, of (column.map Double.ofNat) = .ok q ∧
      (column.map Double.ofNat).mapM (Buckets.quartiles q).classify = .ok found ∧
      Interpolated column.mergeSort q ∧ Balanced column found ∧
      ∀ v w earlier later, v ≤ w → (Buckets.quartiles q).classify v = .ok earlier →
        (Buckets.quartiles q).classify w = .ok later →
          labels.idxOf earlier ≤ labels.idxOf later := by
  obtain ⟨q, j₁, j₂, j₃, hof, hranks, hshort⟩ :=
    exists_atRanks hne (hlength.le.trans (by decide)) hcounts
  obtain ⟨rfl, rfl, rfl⟩ := hshort hlength.le
  obtain ⟨m, hm⟩ := Nat.exists_eq_add_one.2 (List.length_pos_iff.2 hne)
  have hperm : column.mergeSort.Perm column := List.mergeSort_perm column _
  rw [hm, Nat.add_sub_cancel] at hranks
  refine ⟨q, column.map fun c => q.label (Double.ofNat c), hof, ?_,
    hranks.interpolated (List.pairwise_mergeSort' (· ≤ ·) column) (hperm.length_eq.trans hm)
      (fun c hc => hcounts c (hperm.subset hc)),
    hranks.balanced hm hcounts, fun v w earlier later hvw hv hw => ?_⟩
  · refine Except.mapM_eq_ok_iff.2 (List.forall₂_map_left_iff.2 ?_)
    refine List.forall₂_map_right_iff.2 (List.forall₂_same.2 fun c hc => ?_)
    have hfinite := (isQuarters_ofNat ((hcounts c hc).trans (by decide))).isFinite
    exact classify_eq_ok_iff.2 ⟨hfinite, rfl⟩
  · rw [(classify_eq_ok_iff.1 hv).2, (classify_eq_ok_iff.1 hw).2]
    exact idxOf_label_le hvw

theorem balanced_of_counts_sample :
    [10, 40, 20, 30] ≠ [] ∧ [10, 40, 20, 30].length < 2 ^ 51 ∧
      (∀ c ∈ [10, 40, 20, 30], c < 2 ^ 51) ∧ ∃ q found,
        of ([10, 40, 20, 30].map Double.ofNat) = .ok q ∧
        ([10, 40, 20, 30].map Double.ofNat).mapM (Buckets.quartiles q).classify = .ok found ∧
        Interpolated [10, 40, 20, 30].mergeSort q ∧ Balanced [10, 40, 20, 30] found ∧
        ∀ v w earlier later, v ≤ w → (Buckets.quartiles q).classify v = .ok earlier →
          (Buckets.quartiles q).classify w = .ok later →
            labels.idxOf earlier ≤ labels.idxOf later :=
  ⟨by decide, by decide, by decide,
    balanced_of_counts (by decide) (by decide) (by decide)⟩

end Quartiles

end LoadReplay
