import LoadReplay.Bucket.Basic
import LoadReplay.Proofs.Bucket.Percentiles
import LoadReplay.Proofs.Double.Quarters
import LoadReplay.Proofs.Double.Signed
import LoadReplay.Proofs.Trace.Order

/-!
# Quartiles within a column

A quartile of a sorted column is a quarter, a half or three quarters of the way from one number to
the next, and is computed from their difference. Where this is a finite number, the rounded part of
it does not reach beyond the next number (`rounded_part_le`), so the quartile lies between the two
(`le_blend`, `blend_le`); where it is not, the quartile is infinite (`blend_eq_infinite`). The
statistics of a column of finite numbers therefore lie inside the data exactly when no difference
that they are computed from overflows (`ColumnStats.inside_iff`).
-/

namespace LoadReplay

/-! ## Part of the way -/

namespace Double

/-- The number that is computed a part of the way from one number to another. -/
def blend (x y part : Double) : Double := x + (y - x) * part

variable {x y f g : Double} {d k l r : Nat}

/-- Three quarters at most of a rounded difference, rounded again, are not more than the
difference. -/
theorem rounded_part_le (hk : k ≤ 3) : rounded (rounded d 1 * k) 4 ≤ d := by
  rcases Nat.lt_or_ge d (2 ^ 53) with hlt | hge
  · have hself : rounded d 1 = d :=
      quanta_roundRank_of_lt (e := 0) (Nat.one_dvd d) (by rwa [Nat.zero_add])
    rw [hself]
    conv_rhs => rw [← hself]
    refine rounded_le_rounded (by decide) Nat.one_pos ?_
    rw [Nat.mul_one]
    exact Nat.mul_le_mul_left d (hk.trans (by decide))
  · -- two roundings add less than a third
    have hfirst : rounded d 1 * binade ≤ d * (binade + 1) := quanta_roundRank_le d
    have hsecond : rounded (rounded d 1 * k) 4 ≤ rounded (rounded d 1 * k / 4 + 1) 1 :=
      rounded_le_rounded (by decide) Nat.one_pos (by omega)
    have hthird : rounded (rounded d 1 * k / 4 + 1) 1 * binade ≤
        (rounded d 1 * k / 4 + 1) * (binade + 1) :=
      quanta_roundRank_le _
    have hpart : rounded d 1 * k ≤ rounded d 1 * 3 := Nat.mul_le_mul_left _ hk
    rw [binade_eq] at hfirst hthird
    omega

theorem isAmount_part (hx : IsAmount x r) (hf : IsQuarters f k) (hk : k ≤ 3) :
    IsAmount (x * f) (rounded (r * k) 4) := by
  have hscaled : r * (k * quarter) = r * k * quarter := (Nat.mul_assoc ..).symm
  have hproduct := hx.mul (IsQuanta.isAmount hf) hx (by
    rw [unit_eq_four_mul]
    exact Nat.mul_le_mul_left r (Nat.mul_le_mul_right _ (hk.trans (by decide))))
  rwa [hscaled, unit_eq_four_mul, rounded_mul_right (by decide) quarter_pos] at hproduct

section

variable (hx : x.isFinite = true) (hy : y.isFinite = true) (hle : x ≤ y)
  (hgap : (y - x).isFinite = true)

include hx hy hle hgap

/-- The exact sum that is rounded last. -/
theorem blend_eq_ofQuanta (hf : IsQuarters f k) (hk : k ≤ 3) : ∃ sign, blend x y f =
    ofQuanta sign
      (x.inQuanta + rounded (rounded (y.inQuanta - x.inQuanta).natAbs 1 * k) 4) := by
  rcases sub_cases hx hy hle with hamount | hinfinite
  · have hpart := isAmount_part hamount hf hk
    rw [blend, add_eq_ofQuanta hx hpart.1, hpart.2]
    exact ⟨_, rfl⟩
  · rw [hinfinite] at hgap
    cases hgap

theorem le_blend (hf : IsQuarters f k) (hk : k ≤ 3) : x ≤ blend x y f := by
  obtain ⟨sign, heq⟩ := blend_eq_ofQuanta hx hy hle hgap hf hk
  rw [heq]
  exact le_ofQuanta hx sign (by omega)

theorem blend_le (hf : IsQuarters f k) (hk : k ≤ 3) : blend x y f ≤ y := by
  obtain ⟨sign, heq⟩ := blend_eq_ofQuanta hx hy hle hgap hf hk
  have hinQuanta := (le_iff_inQuanta hx hy).1 hle
  have hpart := rounded_part_le (d := (y.inQuanta - x.inQuanta).natAbs) hk
  rw [heq]
  exact ofQuanta_le hy sign (by omega)

/-- A greater part is no smaller number. -/
theorem blend_mono (hf : IsQuarters f k) (hg : IsQuarters g l) (hkl : k ≤ l) (hl : l ≤ 3) :
    blend x y f ≤ blend x y g := by
  obtain ⟨sign, hfirst⟩ := blend_eq_ofQuanta hx hy hle hgap hf (hkl.trans hl)
  obtain ⟨sign', hsecond⟩ := blend_eq_ofQuanta hx hy hle hgap hg hl
  have hpart : ∀ {r : Nat}, rounded (r * k) 4 ≤ rounded (r * l) 4 := fun {r} =>
    rounded_le_rounded (by decide) (by decide) (Nat.mul_le_mul_right 4 (Nat.mul_le_mul_left r hkl))
  rw [hfirst, hsecond]
  refine ofQuanta_le_ofQuanta _ _ (Int.add_le_add_left ?_ _)
  exact_mod_cast hpart

end

/-- Any part of a difference that overflows is infinite. -/
theorem blend_eq_infinite (hx : x.isFinite = true) (hy : y.isFinite = true) (hle : x ≤ y)
    (hgap : (y - x).isFinite = false) (hf : IsQuarters f k) (hk : 0 < k) :
    blend x y f = infinite false := by
  rcases sub_cases hx hy hle with hamount | hinfinite
  · rw [hamount.1] at hgap
    cases hgap
  · obtain ⟨rank, rfl, hrank⟩ := hf
    have hne : rank.val ≠ 0 := by
      rw [Ne, ← quanta_eq_zero_iff, hrank]
      exact (Nat.mul_pos hk quarter_pos).ne'
    have hproduct : infinite false * finite false rank = infinite false := if_neg hne
    obtain ⟨sign, other, rfl⟩ := exists_of_isFinite hx
    rw [blend, hinfinite, hproduct]
    rfl

end Double

open Double (IsQuarters blend quarter)

/-! ## Percentiles -/

namespace Column

/-- The numbers around the position of a percentile. -/
def below (column : List Double) (q : Double) : Double := item column (position column q).floorNat

def above (column : List Double) (q : Double) : Double := item column (position column q).ceilNat

/-- The difference that a percentile is computed from. -/
def gap (column : List Double) (q : Double) : Double := above column q - below column q

/-- A percentile lies between the numbers around its position if their difference is finite, and is
infinite otherwise. -/
structure Settled (column : List Double) (q : Double) : Prop where
  between : (gap column q).isFinite = true →
    below column q ≤ percentile column q ∧ percentile column q ≤ above column q
  overflow : (gap column q).isFinite = false → percentile column q = .infinite false

/-- A column of finite numbers in increasing order. -/
structure IsSorted (column : List Double) : Prop where
  isFinite : ∀ x ∈ column, x.isFinite = true
  pairwise : column.Pairwise (· ≤ ·)

/-- The position of a percentile is a number of quarters within the column. -/
structure AtRank (column : List Double) (q : Double) (j : Nat) : Prop where
  position : IsQuarters (position column q) j
  le : j ≤ 4 * (column.length - 1)

variable {column : List Double} {q q' : Double} {i j j' : Nat}

theorem item_mem (hi : i < column.length) : item column i ∈ column := by
  rw [item, List.getD_eq_getElem _ _ hi]
  exact List.getElem_mem hi

theorem IsSorted.item_le (h : IsSorted column) (hij : i ≤ j) (hj : j < column.length) :
    item column i ≤ item column j := by
  rcases hij.eq_or_lt with rfl | hlt
  · exact Double.le_refl (Double.ne_nan_of_isFinite (h.isFinite _ (item_mem hj)))
  · rw [item, item, List.getD_eq_getElem _ _ hj, List.getD_eq_getElem _ _ (hij.trans_lt hj)]
    exact List.pairwise_iff_getElem.1 h.pairwise i j _ hj hlt

/-- The first and the last number of a sorted column are its least and its greatest. -/
theorem IsSorted.bounds (h : IsSorted column) {x : Double} (hx : x ∈ column) :
    item column 0 ≤ x ∧ x ≤ item column (column.length - 1) := by
  obtain ⟨i, hi, rfl⟩ := List.getElem_of_mem hx
  rw [← List.getD_eq_getElem column 0 hi]
  exact ⟨h.item_le (Nat.zero_le i) hi, h.item_le (by omega) (by omega)⟩

theorem isSorted_sort {values : List Double} (hfinite : ∀ v ∈ values, v.isFinite = true) :
    IsSorted (Double.sort values) := by
  have hperm : (Double.sort values).Perm values := List.mergeSort_perm ..
  have hmem : ∀ v ∈ Double.sort values, v.isFinite = true := fun v hv =>
    hfinite v (hperm.subset hv)
  refine ⟨hmem, ?_⟩
  exact (List.pairwise_mergeSort Double.totalLe_trans Double.totalLe_total values).imp_of_mem
    fun {a b} ha hb => Double.le_of_totalLe (hmem a ha) (hmem b hb)

namespace AtRank

theorem below_eq (h : AtRank column q j) : below column q = item column (j / 4) := by
  rw [below, h.position.floorNat]

theorem above_eq (h : AtRank column q j) : above column q = item column ((j + 3) / 4) := by
  rw [above, h.position.ceilNat]

/-- A percentile is so many quarters of the way. -/
theorem exists_percentile_eq (h : AtRank column q j) : ∃ part, IsQuarters part (j % 4) ∧
    percentile column q = blend (below column q) (above column q) part := by
  have hpart := h.position.sub h.position.ofNat_div (Nat.mul_div_le j 4) (by omega)
  rw [show j - 4 * (j / 4) = j % 4 by omega, ← h.position.floorNat] at hpart
  exact ⟨_, hpart, rfl⟩

theorem lt_length (h : AtRank column q j) (hne : column ≠ []) :
    j / 4 < column.length ∧ (j + 3) / 4 < column.length := by
  have hpos := List.length_pos_iff.2 hne
  have hle := h.le
  omega

section

variable (h : AtRank column q j) (hcolumn : IsSorted column) (hne : column ≠ [])

include h hcolumn hne

theorem around : (below column q).isFinite = true ∧ (above column q).isFinite = true ∧
    below column q ≤ above column q := by
  obtain ⟨hlow, hhigh⟩ := h.lt_length hne
  rw [h.below_eq, h.above_eq]
  exact ⟨hcolumn.isFinite _ (item_mem hlow), hcolumn.isFinite _ (item_mem hhigh),
    hcolumn.item_le (by omega) hhigh⟩

theorem settled : Settled column q := by
  obtain ⟨hlow, hhigh, hle⟩ := h.around hcolumn hne
  obtain ⟨part, hpart, heq⟩ := h.exists_percentile_eq
  have hthree : j % 4 ≤ 3 := by omega
  refine ⟨fun hgap => ?_, fun hgap => ?_⟩ <;> rw [heq]
  · exact ⟨Double.le_blend hlow hhigh hle hgap hpart hthree,
      Double.blend_le hlow hhigh hle hgap hpart hthree⟩
  · refine Double.blend_eq_infinite hlow hhigh hle hgap hpart (Nat.pos_of_ne_zero fun hzero => ?_)
    -- at a number itself there is no gap
    have hsame : above column q = below column q := by
      rw [h.below_eq, h.above_eq, show (j + 3) / 4 = j / 4 by omega]
    rw [gap, hsame, Double.sub_self_of_isFinite hlow] at hgap
    exact absurd hgap (by decide)

theorem isFinite_percentile_iff :
    (percentile column q).isFinite = true ↔ (gap column q).isFinite = true := by
  obtain ⟨hlow, hhigh, -⟩ := h.around hcolumn hne
  have hsettled := h.settled hcolumn hne
  constructor
  · intro hfinite
    by_contra hgap
    rw [hsettled.overflow (Bool.eq_false_iff.2 hgap)] at hfinite
    cases hfinite
  · intro hgap
    obtain ⟨hlower, hupper⟩ := hsettled.between hgap
    exact Double.isFinite_of_between hlow hhigh hlower hupper

theorem first_le (hgap : (gap column q).isFinite = true) :
    item column 0 ≤ percentile column q := by
  have hfirst := hcolumn.item_le (Nat.zero_le _) (h.lt_length hne).1
  rw [← h.below_eq] at hfirst
  exact Double.le_trans hfirst ((h.settled hcolumn hne).between hgap).1

theorem le_last (hgap : (gap column q).isFinite = true) :
    percentile column q ≤ item column (column.length - 1) := by
  have hlength := (h.lt_length hne).2
  have hlast := hcolumn.item_le (show (j + 3) / 4 ≤ column.length - 1 by omega) (by omega)
  rw [← h.above_eq] at hlast
  exact Double.le_trans ((h.settled hcolumn hne).between hgap).2 hlast

/-- Percentiles increase with their ranks, unless they overflow. -/
theorem percentile_mono (h' : AtRank column q' j') (hle : j ≤ j')
    (hgap : (gap column q).isFinite = true) (hgap' : (gap column q').isFinite = true) :
    percentile column q ≤ percentile column q' := by
  have hupper := ((h.settled hcolumn hne).between hgap).2
  have hlower := ((h'.settled hcolumn hne).between hgap').1
  by_cases hsame : j / 4 = j' / 4 ∧ 0 < j % 4
  · -- between the same two numbers
    obtain ⟨hlow, hhigh, haround⟩ := h.around hcolumn hne
    obtain ⟨part, hpart, heq⟩ := h.exists_percentile_eq
    obtain ⟨part', hpart', heq'⟩ := h'.exists_percentile_eq
    have hbelow : below column q' = below column q := by rw [h.below_eq, h'.below_eq, hsame.1]
    have habove : above column q' = above column q := by
      rw [h.above_eq, h'.above_eq, show (j' + 3) / 4 = (j + 3) / 4 by omega]
    rw [heq, heq', hbelow, habove]
    exact Double.blend_mono hlow hhigh haround hgap hpart hpart' (by omega) (by omega)
  · -- a number lies between
    have hbetween : above column q ≤ below column q' := by
      rw [h.above_eq, h'.below_eq]
      exact hcolumn.item_le (by omega) (h'.lt_length hne).1
    exact Double.le_trans hupper (Double.le_trans hbetween hlower)

/-- A gap is not wider than the whole column. -/
theorem isFinite_gap (hrange : (item column (column.length - 1) - item column 0).isFinite = true) :
    (gap column q).isFinite = true := by
  obtain ⟨hlow, hhigh, hle⟩ := h.around hcolumn hne
  obtain ⟨hlt, hlt'⟩ := h.lt_length hne
  have hlastLt : column.length - 1 < column.length := by omega
  have hfirst := hcolumn.isFinite _ (item_mem (show 0 < column.length by omega))
  have hlast := hcolumn.isFinite _ (item_mem hlastLt)
  have hbelow := hcolumn.item_le (Nat.zero_le _) hlt
  have habove := hcolumn.item_le (show (j + 3) / 4 ≤ column.length - 1 by omega) hlastLt
  rw [← h.below_eq] at hbelow
  rw [← h.above_eq] at habove
  have hlowQuanta := (Double.le_iff_inQuanta hfirst hlow).1 hbelow
  have hhighQuanta := (Double.le_iff_inQuanta hhigh hlast).1 habove
  have hquanta := (Double.le_iff_inQuanta hlow hhigh).1 hle
  have hzero : Double.isFinite (.ofQuanta false 0) = true := rfl
  refine Double.isFinite_of_between hzero hrange ?_ ?_
  · rw [gap, Double.sub_eq_ofQuanta hhigh hlow]
    exact Double.ofQuanta_le_ofQuanta _ _ (by omega)
  · rw [gap, Double.sub_eq_ofQuanta hhigh hlow, Double.sub_eq_ofQuanta hlast hfirst]
    exact Double.ofQuanta_le_ofQuanta _ _ (by omega)

end

end AtRank

/-! ## Quartiles -/

theorem exists_atRank (hlength : column.length ≤ 2 ^ 64) {k : Nat} (hq : IsQuarters q k)
    (hk : k ≤ 3) : ∃ j, AtRank column q j := by
  have hn : column.length - 1 < 2 ^ 64 := by omega
  obtain ⟨j, hposition, hle, -⟩ := Double.exists_isQuarters_mul_ofNat hq hk hn
  exact ⟨j, hposition, hle⟩

/-- Of two fractions the greater one has no earlier rank. -/
theorem AtRank.le_of_le (hlength : column.length ≤ 2 ^ 64) {k l : Nat} (hq : IsQuarters q k)
    (hq' : IsQuarters q' l) (hkl : k ≤ l) (hl : l ≤ 3) (h : AtRank column q j)
    (h' : AtRank column q' j') : j ≤ j' := by
  have hplaces : 64 + Double.unitPlaces ≤ 2000 := by rw [Double.unitPlaces_eq]; decide
  obtain ⟨m, hm, -⟩ := Double.exists_isQuanta_ofQuotient (n := column.length - 1) 64 (by omega)
    hplaces
  rw [← Double.unit_eq] at hm
  have hposition {p : Double} {n : Nat} (hp : IsQuarters p n) (hn : n ≤ 3) :
      Double.IsAmount (Column.position column p) _ :=
    isAmount_position (Double.IsQuanta.isAmount hp)
      (by rw [Double.unit_eq_four_mul]; exact Nat.mul_le_mul_right _ (hn.trans (by decide)))
      (Double.IsQuanta.isAmount hm)
  refine (h.position.le_iff h'.position).1
    (((hposition hq (hkl.trans hl)).le_iff (hposition hq' hl)).2 ?_)
  refine Double.rounded_le_rounded Double.unit_pos Double.unit_pos ?_
  exact Nat.mul_le_mul_right _ (Nat.mul_le_mul_right _ (Nat.mul_le_mul_right _ hkl))

end Column

namespace ColumnStats

open Column

/-- The fractions of the quartiles. -/
def quartilePoints : List Double := [0.25, 0.5, 0.75]

/-- The quartiles are finite numbers, in order between the least and the greatest. -/
structure Inside (stats : ColumnStats) : Prop where
  isFinite_lower : stats.lowerQuartile.isFinite = true
  isFinite_median : stats.median.isFinite = true
  isFinite_upper : stats.upperQuartile.isFinite = true
  least_le_lower : stats.least ≤ stats.lowerQuartile
  lower_le_median : stats.lowerQuartile ≤ stats.median
  median_le_upper : stats.median ≤ stats.upperQuartile
  upper_le_greatest : stats.upperQuartile ≤ stats.greatest

/-- The least and the greatest number are those of the column, and the quartiles are percentiles of
the sorted column. -/
structure Describes (values : List Double) (stats : ColumnStats) : Prop where
  least_mem : stats.least ∈ values
  least_le : ∀ v ∈ values, stats.least ≤ v
  greatest_mem : stats.greatest ∈ values
  le_greatest : ∀ v ∈ values, v ≤ stats.greatest
  quartiles_eq : [stats.lowerQuartile, stats.median, stats.upperQuartile] =
    quartilePoints.map (percentile (Double.sort values))

variable {values : List Double} {stats : ColumnStats}

theorem of_eq_ok (hne : values ≠ []) (hfinite : ∀ v ∈ values, v.isFinite = true) :
    ∃ stats, of values = .ok stats ∧ Describes values stats ∧
      stats.least = item (Double.sort values) 0 ∧
      stats.greatest = item (Double.sort values) ((Double.sort values).length - 1) ∧
      Quartiles.of values = .ok ⟨stats.lowerQuartile, stats.median, stats.upperQuartile⟩ := by
  have hperm : (Double.sort values).Perm values := List.mergeSort_perm ..
  have hpos : 0 < (Double.sort values).length := by
    rw [hperm.length_eq]
    exact List.length_pos_iff.2 hne
  have hbounds {v : Double} (hv : v ∈ values) := (isSorted_sort hfinite).bounds (hperm.mem_iff.2 hv)
  rw [of, Quartiles.of, sorted_eq_ok hne hfinite]
  exact ⟨_, rfl,
    { least_mem := hperm.subset (item_mem hpos)
      least_le := fun v hv => (hbounds hv).1
      greatest_mem := hperm.subset (item_mem (Nat.sub_one_lt hpos.ne'))
      le_greatest := fun v hv => (hbounds hv).2
      quartiles_eq := rfl }, rfl, rfl, rfl⟩

/-- Of every column of finite numbers the statistics are computed, with the same quartiles as those
of the buckets. Each quartile lies between the two numbers around its position if their difference
is finite, and is infinite otherwise. The statistics lie inside the data exactly when none of these
differences overflows; it is enough that the difference of the greatest and the least number does
not. -/
theorem inside_iff (hne : values ≠ []) (hlength : values.length ≤ 2 ^ 64)
    (hfinite : ∀ v ∈ values, v.isFinite = true) :
    ∃ stats, of values = .ok stats ∧ Describes values stats ∧
      Quartiles.of values = .ok ⟨stats.lowerQuartile, stats.median, stats.upperQuartile⟩ ∧
      (∀ q ∈ quartilePoints, Settled (Double.sort values) q) ∧
      (Inside stats ↔ ∀ q ∈ quartilePoints, (gap (Double.sort values) q).isFinite = true) ∧
      ((stats.greatest - stats.least).isFinite = true → Inside stats) := by
  obtain ⟨stats, hof, hdescribes, hleast, hgreatest, hquartiles⟩ := of_eq_ok hne hfinite
  have hperm : (Double.sort values).Perm values := List.mergeSort_perm ..
  have hsorted := isSorted_sort hfinite
  have hne' : Double.sort values ≠ [] := fun hnil => hne (List.perm_nil.1 (hnil ▸ hperm.symm))
  have hlength' : (Double.sort values).length ≤ 2 ^ 64 := hperm.length_eq.le.trans hlength
  obtain ⟨j₁, h₁⟩ := exists_atRank hlength' Double.isQuarters_quarter (by decide)
  obtain ⟨j₂, h₂⟩ := exists_atRank hlength' Double.isQuarters_half (by decide)
  obtain ⟨j₃, h₃⟩ := exists_atRank hlength' Double.isQuarters_threeQuarters (by decide)
  have hlower := AtRank.le_of_le hlength' Double.isQuarters_quarter Double.isQuarters_half
    (by decide) (by decide) h₁ h₂
  have hupper := AtRank.le_of_le hlength' Double.isQuarters_half Double.isQuarters_threeQuarters
    (by decide) (by decide) h₂ h₃
  have hpoints {P : Double → Prop} (hquarter : P 0.25) (hhalf : P 0.5) (hthree : P 0.75) :
      ∀ q ∈ quartilePoints, P q :=
    List.forall_mem_cons.2 ⟨hquarter, List.forall_mem_cons.2 ⟨hhalf,
      List.forall_mem_singleton.2 hthree⟩⟩
  have hvalues := hdescribes.quartiles_eq
  simp only [quartilePoints, List.map_cons, List.map_nil, List.cons.injEq, and_true] at hvalues
  obtain ⟨hq₁, hq₂, hq₃⟩ := hvalues
  have hinside : Inside stats ↔
      ∀ q ∈ quartilePoints, (gap (Double.sort values) q).isFinite = true := by
    constructor
    · intro h
      exact hpoints ((h₁.isFinite_percentile_iff hsorted hne').1 (hq₁ ▸ h.isFinite_lower))
        ((h₂.isFinite_percentile_iff hsorted hne').1 (hq₂ ▸ h.isFinite_median))
        ((h₃.isFinite_percentile_iff hsorted hne').1 (hq₃ ▸ h.isFinite_upper))
    · intro hgap
      obtain ⟨hgap₁, hgap⟩ := List.forall_mem_cons.1 hgap
      obtain ⟨hgap₂, hgap⟩ := List.forall_mem_cons.1 hgap
      have hgap₃ := List.forall_mem_singleton.1 hgap
      exact
        { isFinite_lower := hq₁ ▸ (h₁.isFinite_percentile_iff hsorted hne').2 hgap₁
          isFinite_median := hq₂ ▸ (h₂.isFinite_percentile_iff hsorted hne').2 hgap₂
          isFinite_upper := hq₃ ▸ (h₃.isFinite_percentile_iff hsorted hne').2 hgap₃
          least_le_lower := by
            rw [hleast, hq₁]
            exact h₁.first_le hsorted hne' hgap₁
          lower_le_median := by
            rw [hq₁, hq₂]
            exact h₁.percentile_mono hsorted hne' h₂ hlower hgap₁ hgap₂
          median_le_upper := by
            rw [hq₂, hq₃]
            exact h₂.percentile_mono hsorted hne' h₃ hupper hgap₂ hgap₃
          upper_le_greatest := by
            rw [hgreatest, hq₃]
            exact h₃.le_last hsorted hne' hgap₃ }
  refine ⟨stats, hof, hdescribes, hquartiles,
    hpoints (h₁.settled hsorted hne') (h₂.settled hsorted hne') (h₃.settled hsorted hne'),
    hinside, fun hrange => hinside.2 ?_⟩
  rw [hleast, hgreatest] at hrange
  exact hpoints (h₁.isFinite_gap hsorted hne' hrange) (h₂.isFinite_gap hsorted hne' hrange)
    (h₃.isFinite_gap hsorted hne' hrange)

/-- A column of negative and positive numbers whose differences are finite. -/
def mixedColumn : List Double := [8, -3, 5.5, 0]

theorem inside_iff_sample :
    mixedColumn ≠ [] ∧ mixedColumn.length ≤ 2 ^ 64 ∧ (∀ v ∈ mixedColumn, v.isFinite = true) ∧
      ∃ stats, of mixedColumn = .ok stats ∧ Inside stats := by
  have hfinite : ∀ v ∈ mixedColumn, v.isFinite = true := by decide +kernel
  obtain ⟨stats, hof, hdescribes, -, -, -, hinside⟩ :=
    @inside_iff mixedColumn (by decide) (by decide) hfinite
  refine ⟨by decide, by decide, hfinite, stats, hof, hinside ?_⟩
  have hrange : ∀ v ∈ mixedColumn, ∀ w ∈ mixedColumn, (v - w).isFinite = true := by decide +kernel
  exact hrange _ hdescribes.greatest_mem _ hdescribes.least_mem

/-- Two numbers that are farther apart than doubles reach. -/
def wideColumn : List Double := [-1e308, 1e308]

/-- Of this column all quartiles are infinite, above its greatest number. -/
theorem quartiles_outside :
    wideColumn ≠ [] ∧ (∀ v ∈ wideColumn, v.isFinite = true) ∧
      ∃ stats, of wideColumn = .ok stats ∧
        Quartiles.of wideColumn = .ok ⟨.infinite false, .infinite false, .infinite false⟩ ∧
        stats.lowerQuartile = .infinite false ∧ stats.median = .infinite false ∧
        stats.upperQuartile = .infinite false ∧ ¬ stats.upperQuartile ≤ stats.greatest := by
  have hne : wideColumn ≠ [] := by decide
  have hfinite : ∀ v ∈ wideColumn, v.isFinite = true := by decide +kernel
  have hsort : Double.sort wideColumn = wideColumn :=
    List.mergeSort_of_pairwise (by decide +kernel)
  have hinfinite : quartilePoints.map (percentile wideColumn) =
      [.infinite false, .infinite false, .infinite false] := by decide +kernel
  have habove : ¬ Double.infinite false ≤ item wideColumn (wideColumn.length - 1) := by
    decide +kernel
  obtain ⟨stats, hof, hdescribes, -, hgreatest, hquartiles⟩ := of_eq_ok hne hfinite
  have hvalues := hdescribes.quartiles_eq
  rw [hsort, hinfinite] at hvalues
  simp only [List.cons.injEq, and_true] at hvalues
  obtain ⟨hlower, hmedian, hupper⟩ := hvalues
  rw [hlower, hmedian, hupper] at hquartiles
  rw [hsort] at hgreatest
  exact ⟨hne, hfinite, stats, hof, hquartiles, hlower, hmedian, hupper,
    by rw [hupper, hgreatest]; exact habove⟩

end ColumnStats

end LoadReplay
