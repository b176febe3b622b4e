import LoadReplay.Bucket.Column
import LoadReplay.Proofs.Bucket.Ranks
import LoadReplay.Proofs.Double.Amount

/-!
# Percentiles of sorted columns

A percentile of a column of counts is computed in five roundings: its position, the part of the
position behind the point, the difference of two counts, the part of that difference, and the sum.
Rounding keeps the order and leaves counts as they are, so the position stays within the column, the
percentile stays between the two counts around it (`le_percentileAt`, `percentileAt_le`), and it
increases with the position (`percentileAt_mono`): between the same two counts the greater part is
added, and otherwise a count lies between.
-/

namespace LoadReplay

open Double (IsAmount isAmount_ofNat rounded unit)

/-- Ordinary `a == b`: the two zeros are equal. -/
def Double.Equal (a b : Double) : Prop := a ≤ b ∧ b ≤ a

/-- The number is whole, not negative and below `2 ^ 53`. -/
def Double.IsCount (x : Double) : Prop :=
  x.isFinite = true ∧ ∃ c : Nat, c < 2 ^ 53 ∧ x.value = c

namespace Column

/-- The position of a percentile among the indices of a sorted column. -/
def position (column : List Double) (q : Double) : Double := q * Double.ofNat (column.length - 1)

/-- The percentiles of a sorted column are between the two numbers around their position, which the
column has, from its first number to its last one; greater fractions have no smaller percentiles. -/
structure Percentiles (column : List Double) : Prop where
  inRange : ∀ q, 0 ≤ q → q ≤ 1 →
    (position column q).floorNat < column.length ∧ (position column q).ceilNat < column.length
  between : ∀ q, 0 ≤ q → q ≤ 1 →
    item column (position column q).floorNat ≤ percentile column q ∧
      percentile column q ≤ item column (position column q).ceilNat
  first : Double.Equal (percentile column 0) (item column 0)
  last : Double.Equal (percentile column 1) (item column (column.length - 1))
  first_eq : (item column 0).isNegative = false → percentile column 0 = item column 0
  last_eq : (item column (column.length - 1)).isNegative = false →
    percentile column 1 = item column (column.length - 1)
  mono : ∀ q q', 0 ≤ q → q ≤ q' → q' ≤ 1 → percentile column q ≤ percentile column q'

/-- A sorted column of numbers which are these counts. -/
structure IsCounts (column : List Double) (counts : List Nat) : Prop where
  length_eq : counts.length = column.length
  isAmount : ∀ i < column.length, IsAmount (item column i) (counts.getD i 0 * unit)
  lt : ∀ c ∈ counts, c < 2 ^ 53
  sorted : counts.Pairwise (· ≤ ·)

/-! ## Between two counts -/

/-- What is computed, in quanta, `part` quanta of the way from a count to another. -/
def blended (below above part : Nat) : Nat :=
  rounded (below * unit + rounded ((above - below) * part) 1) 1

variable {below above part part' : Nat}

section

variable (hle : below ≤ above) (habove : above < 2 ^ 53)

include hle habove

theorem le_blended : below * unit ≤ blended below above part :=
  (isAmount_ofNat (hle.trans_lt habove)).le_rounded Nat.one_pos (by omega)

/-- The part that is added stays below the difference. -/
theorem add_rounded_le (hpart : part ≤ unit) :
    below * unit + rounded ((above - below) * part) 1 ≤ above * unit := by
  have hdifference : rounded ((above - below) * part) 1 ≤ (above - below) * unit :=
    (isAmount_ofNat (show above - below < 2 ^ 53 by omega)).rounded_le Nat.one_pos
      (by rw [Nat.mul_one]; exact Nat.mul_le_mul_left _ hpart)
  calc below * unit + rounded ((above - below) * part) 1
      ≤ below * unit + (above - below) * unit := Nat.add_le_add_left hdifference _
    _ = above * unit := by rw [← Nat.add_mul, Nat.add_sub_cancel' hle]

theorem blended_le (hpart : part ≤ unit) : blended below above part ≤ above * unit :=
  (isAmount_ofNat habove).rounded_le Nat.one_pos
    (by rw [Nat.mul_one]; exact add_rounded_le hle habove hpart)

/-- The value between two numbers has a sign only if the first one has. -/
theorem isAmount_blended {x y f : Double} (hx : IsAmount x (below * unit))
    (hy : IsAmount y (above * unit)) (hf : IsAmount f part) (hpart : part ≤ unit) :
    IsAmount (x + (y - x) * f) (blended below above part) ∧
      (x.isNegative = false → (x + (y - x) * f).isNegative = false) := by
  have hcount := isAmount_ofNat (show above - below < 2 ^ 53 by omega)
  have hdifference := hy.sub hx (Nat.mul_le_mul_right unit hle)
  rw [← Nat.sub_mul, hcount.rounded_self] at hdifference
  have hscaled : (above - below) * unit * part = (above - below) * part * unit :=
    Nat.mul_right_comm ..
  have hproduct := hdifference.mul hf hcount (by
    rw [hscaled]
    exact Nat.mul_le_mul_right _ (Nat.mul_le_mul_left _ hpart))
  have hone : rounded ((above - below) * part * unit) unit = rounded ((above - below) * part) 1 :=
    Double.rounded_mul_unit _
  rw [hscaled, hone] at hproduct
  exact ⟨hx.add hproduct (isAmount_ofNat habove) (add_rounded_le hle habove hpart),
    hx.isNegative_add hproduct⟩

end

theorem blended_mono (h : part ≤ part') : blended below above part ≤ blended below above part' :=
  Double.rounded_one_mono (Nat.add_le_add_left
    (Double.rounded_one_mono (Nat.mul_le_mul_left _ h)) _)

/-! ## At a position -/

/-- What is computed, in quanta, at a position of sorted counts in quanta. -/
def percentileAt (counts : List Nat) (p : Nat) : Nat :=
  blended (counts.getD (p / unit) 0) (counts.getD ((p + (unit - 1)) / unit) 0)
    (rounded (p % unit) 1)

theorem rounded_mod_le (p : Nat) : rounded (p % unit) 1 ≤ unit := by
  have := Nat.mod_lt p Double.unit_pos
  exact Double.isAmount_one.rounded_le Nat.one_pos (by omega)

theorem ceil_le_succ (p : Nat) : (p + (unit - 1)) / unit ≤ p / unit + 1 := by
  rw [← Nat.add_div_right p Double.unit_pos]
  exact Nat.div_le_div_right (by omega)

theorem floor_le_ceil (p : Nat) : p / unit ≤ (p + (unit - 1)) / unit :=
  Nat.div_le_div_right (Nat.le_add_right _ _)

/-- Behind a whole position the next index is the one above. -/
theorem ceil_eq_succ {p : Nat} (h : 0 < p % unit) : (p + (unit - 1)) / unit = p / unit + 1 := by
  have hsplit := Nat.div_add_mod p unit
  refine (ceil_le_succ p).antisymm ((Nat.le_div_iff_mul_le Double.unit_pos).2 ?_)
  rw [Nat.succ_mul, Nat.mul_comm]
  omega

/-- The position is not behind the last index. -/
theorem ceil_lt {p n : Nat} (hp : p ≤ (n - 1) * unit) (hn : 0 < n) :
    (p + (unit - 1)) / unit < n := by
  have hunit := Double.unit_pos
  refine (Nat.div_lt_iff_lt_mul hunit).2 ?_
  have hlast : (n - 1) * unit + unit = n * unit := by rw [← Nat.succ_mul]; congr 1; omega
  omega

section

variable {counts : List Nat} {p p' : Nat} (hsorted : counts.Pairwise (· ≤ ·))
  (hcounts : ∀ c ∈ counts, c < 2 ^ 53) (hp : p ≤ (counts.length - 1) * unit)
  (hne : 0 < counts.length)

include hsorted hcounts hp hne

theorem around_le : counts.getD (p / unit) 0 ≤ counts.getD ((p + (unit - 1)) / unit) 0 ∧
    counts.getD ((p + (unit - 1)) / unit) 0 < 2 ^ 53 :=
  have hceil := ceil_lt hp hne
  ⟨getD_mono hsorted (floor_le_ceil p) hceil, hcounts _ (getD_mem hceil)⟩

theorem le_percentileAt : counts.getD (p / unit) 0 * unit ≤ percentileAt counts p :=
  have haround := around_le hsorted hcounts hp hne
  le_blended haround.1 haround.2

theorem percentileAt_le :
    percentileAt counts p ≤ counts.getD ((p + (unit - 1)) / unit) 0 * unit :=
  have haround := around_le hsorted hcounts hp hne
  blended_le haround.1 haround.2 (rounded_mod_le p)

theorem first_le_percentileAt : counts.getD 0 0 * unit ≤ percentileAt counts p := by
  refine (Nat.mul_le_mul_right _ (getD_mono hsorted (Nat.zero_le (p / unit)) ?_)).trans
    (le_percentileAt hsorted hcounts hp hne)
  exact (floor_le_ceil p).trans_lt (ceil_lt hp hne)

theorem percentileAt_le_last :
    percentileAt counts p ≤ counts.getD (counts.length - 1) 0 * unit := by
  refine (percentileAt_le hsorted hcounts hp hne).trans
    (Nat.mul_le_mul_right _ (getD_mono hsorted ?_ (Nat.sub_one_lt hne.ne')))
  exact Nat.le_sub_one_of_lt (ceil_lt hp hne)

/-- Percentiles increase with their positions. -/
theorem percentileAt_mono {p₀ : Nat} (h : p₀ ≤ p) :
    percentileAt counts p₀ ≤ percentileAt counts p := by
  have hp₀ := h.trans hp
  rcases (Nat.div_le_div_right (c := unit) h).eq_or_lt with heq | hlt
  · have hmod : p₀ % unit ≤ p % unit := by
      have hsplit₀ := Nat.div_add_mod p₀ unit
      have hsplit := Nat.div_add_mod p unit
      rw [heq] at hsplit₀
      omega
    rcases Nat.eq_zero_or_pos (p₀ % unit) with hzero | hpos
    · -- at a count itself
      have hwhole : (p₀ + (unit - 1)) / unit = p / unit := by
        have hunit := Double.unit_pos
        have hsplit := Nat.div_add_mod p₀ unit
        rw [← hsplit, hzero, Nat.add_zero, Nat.mul_add_div hunit,
          Nat.div_eq_of_lt (Nat.sub_one_lt hunit.ne'), Nat.add_zero, heq]
      refine (percentileAt_le hsorted hcounts hp₀ hne).trans ?_
      rw [hwhole]
      exact le_percentileAt hsorted hcounts hp hne
    · -- between the same two counts
      rw [percentileAt, percentileAt, ceil_eq_succ hpos, ceil_eq_succ (hpos.trans_le hmod), heq]
      exact blended_mono (Double.rounded_one_mono hmod)
  · -- a count lies between
    have hindex : (p₀ + (unit - 1)) / unit ≤ p / unit := (ceil_le_succ p₀).trans hlt
    have hfloor : p / unit < counts.length := (floor_le_ceil p).trans_lt (ceil_lt hp hne)
    calc percentileAt counts p₀
        ≤ counts.getD ((p₀ + (unit - 1)) / unit) 0 * unit := percentileAt_le hsorted hcounts hp₀ hne
      _ ≤ counts.getD (p / unit) 0 * unit :=
        Nat.mul_le_mul_right _ (getD_mono hsorted hindex hfloor)
      _ ≤ percentileAt counts p := le_percentileAt hsorted hcounts hp hne

end

/-! ## Positions -/

section

variable {column : List Double} {counts : List Nat} {q : Double} {k m p : Nat}

theorem percentile_eq (column : List Double) (q : Double) :
    percentile column q = item column (position column q).floorNat +
      (item column (position column q).ceilNat - item column (position column q).floorNat) *
        (position column q - Double.ofNat (position column q).floorNat) :=
  rfl

theorem isAmount_position (hq : IsAmount q k) (hk : k ≤ unit)
    (hm : IsAmount (Double.ofNat (column.length - 1)) m) :
    IsAmount (position column q) (rounded (k * m) unit) :=
  hq.mul hm hm (by rw [Nat.mul_comm m]; exact Nat.mul_le_mul_right m hk)

/-- The percentile of counts at a position within the column. -/
theorem IsCounts.isAmount_percentile (h : IsCounts column counts) (hne : column ≠ [])
    (hposition : IsAmount (position column q) p) (hp : p ≤ (column.length - 1) * unit) :
    IsAmount (percentile column q) (percentileAt counts p) ∧
      ((item column (p / unit)).isNegative = false → (percentile column q).isNegative = false) := by
  have hpos : 0 < column.length := List.length_pos_iff.2 hne
  have hceil := ceil_lt hp hpos
  have hfloor := (floor_le_ceil p).trans_lt hceil
  have haround := around_le h.sorted h.lt (h.length_eq ▸ hp) (h.length_eq ▸ hpos)
  have hpart := hposition.sub hposition.ofNat_div (Nat.div_mul_le_self p unit)
  rw [← Nat.mod_eq_sub_div_mul] at hpart
  rw [percentile_eq, hposition.floorNat, hposition.ceilNat, percentileAt]
  exact isAmount_blended haround.1 haround.2 (h.isAmount _ hfloor) (h.isAmount _ hceil) hpart
    (rounded_mod_le p)

section

variable (h : IsCounts column counts) (hne : column ≠ [])
  (hposition : IsAmount (position column q) p) (hp : p ≤ (column.length - 1) * unit)

include hne hposition hp

theorem position_lt :
    (position column q).floorNat < column.length ∧ (position column q).ceilNat < column.length := by
  have hceil := ceil_lt hp (List.length_pos_iff.2 hne)
  rw [hposition.floorNat, hposition.ceilNat]
  exact ⟨(floor_le_ceil p).trans_lt hceil, hceil⟩

include h

theorem IsCounts.between :
    item column (position column q).floorNat ≤ percentile column q ∧
      percentile column q ≤ item column (position column q).ceilNat := by
  have hpos : 0 < column.length := List.length_pos_iff.2 hne
  obtain ⟨hfloor, hceil⟩ := position_lt hne hposition hp
  have hpercentile := (h.isAmount_percentile hne hposition hp).1
  rw [(h.isAmount _ hfloor).le_iff hpercentile, hpercentile.le_iff (h.isAmount _ hceil),
    hposition.floorNat, hposition.ceilNat]
  rw [← h.length_eq] at hp hpos
  exact ⟨le_percentileAt h.sorted h.lt hp hpos, percentileAt_le h.sorted h.lt hp hpos⟩

theorem IsCounts.percentile_mono {q₀ : Double} {p₀ : Nat}
    (hposition₀ : IsAmount (position column q₀) p₀) (hle : p₀ ≤ p) :
    percentile column q₀ ≤ percentile column q := by
  have hpos : 0 < column.length := List.length_pos_iff.2 hne
  rw [(h.isAmount_percentile hne hposition₀ (hle.trans hp)).1.le_iff
    (h.isAmount_percentile hne hposition hp).1]
  rw [← h.length_eq] at hp hpos
  exact percentileAt_mono h.sorted h.lt hp hpos hle

/-- At a whole position the percentile is the number there. -/
theorem IsCounts.percentile_whole {i : Nat} (hi : p = i * unit) :
    Double.Equal (percentile column q) (item column i) ∧
      ((item column i).isNegative = false → percentile column q = item column i) := by
  have hunit := Double.unit_pos
  have hdiv : p / unit = i := by rw [hi, Nat.mul_div_cancel i hunit]
  have hfloor : (position column q).floorNat = i := hposition.floorNat.trans hdiv
  have hceil : (position column q).ceilNat = i := by
    rw [hposition.ceilNat, hi, Nat.mul_comm, Nat.mul_add_div hunit,
      Nat.div_eq_of_lt (Nat.sub_one_lt hunit.ne'), Nat.add_zero]
  have hlt := (position_lt hne hposition hp).1
  have hbetween := h.between hne hposition hp
  obtain ⟨hpercentile, hnegative⟩ := h.isAmount_percentile hne hposition hp
  rw [hfloor] at hlt
  rw [hfloor, hceil] at hbetween
  have hitem := h.isAmount i hlt
  have heq : percentileAt counts p = counts.getD i 0 * unit :=
    le_antisymm ((hpercentile.le_iff hitem).1 hbetween.2) ((hitem.le_iff hpercentile).1 hbetween.1)
  refine ⟨⟨hbetween.2, hbetween.1⟩, fun hsign => ?_⟩
  rw [heq] at hpercentile
  rw [hdiv] at hnegative
  exact hpercentile.eq_of_isNegative hitem (hnegative hsign) hsign

end

/-! ## Whole columns -/

/-- A sorted column of counts. -/
theorem IsCounts.of_isCount (hsorted : column.Pairwise (· ≤ ·))
    (hcounts : ∀ x ∈ column, x.IsCount) : IsCounts column (column.map Double.floorNat) := by
  have hamount : ∀ x ∈ column, x.floorNat < 2 ^ 53 ∧ IsAmount x (x.floorNat * unit) := by
    intro x hx
    obtain ⟨hfinite, c, hc, hvalue⟩ := hcounts x hx
    have hunit : (unit : ℚ) ≠ 0 := Nat.cast_ne_zero.2 Double.unit_pos.ne'
    rw [Double.value, div_eq_iff hunit] at hvalue
    have hquanta : IsAmount x (c * unit) := ⟨hfinite, by exact_mod_cast hvalue⟩
    rw [hquanta.floorNat, Nat.mul_div_cancel c Double.unit_pos]
    exact ⟨hc, hquanta⟩
  refine
    { length_eq := List.length_map ..
      isAmount := fun i hi => ?_
      lt := List.forall_mem_map.2 fun x hx => (hamount x hx).1
      sorted := List.pairwise_map.2 (hsorted.imp_of_mem fun {x y} hx hy hxy => ?_) }
  · rw [item, List.getD_eq_getElem _ _ hi, List.getD_eq_getElem _ _ (by simpa using hi),
      List.getElem_map]
    exact (hamount _ (List.getElem_mem hi)).2
  · exact Nat.le_of_mul_le_mul_right
      (((hamount x hx).2.le_iff (hamount y hy).2).1 hxy) Double.unit_pos

/-- Below `2 ^ 53` numbers the positions of a column are within it. -/
theorem exists_isAmount_position (hlength : column.length < 2 ^ 53) (hq : IsAmount q k)
    (hk : k ≤ unit) :
    IsAmount (position column q) (rounded (k * ((column.length - 1) * unit)) unit) ∧
      rounded (k * ((column.length - 1) * unit)) unit ≤ (column.length - 1) * unit := by
  have hlast := isAmount_ofNat (show column.length - 1 < 2 ^ 53 by omega)
  refine ⟨isAmount_position hq hk hlast, hlast.rounded_le Double.unit_pos ?_⟩
  rw [Nat.mul_comm]
  exact Nat.mul_le_mul_left _ hk

theorem IsCounts.percentiles (h : IsCounts column counts) (hne : column ≠ [])
    (hlength : column.length < 2 ^ 53) : Percentiles column := by
  have hfraction {q : Double} (h₀ : 0 ≤ q) (h₁ : q ≤ 1) : ∃ k, IsAmount q k ∧ k ≤ unit := by
    obtain ⟨k, hk, hq⟩ := Double.exists_isAmount_of_le h₀ h₁ Double.isAmount_one
    exact ⟨k, hq, hk⟩
  have hlast := isAmount_ofNat (show column.length - 1 < 2 ^ 53 by omega)
  have hends {q : Double} {k i : Nat} (hq : IsAmount q k) (hk : k ≤ unit)
      (hi : rounded (k * ((column.length - 1) * unit)) unit = i * unit) :=
    have hposition := exists_isAmount_position hlength hq hk
    h.percentile_whole hne hposition.1 hposition.2 hi
  have hfirst := hends (i := 0) Double.isAmount_zero (Nat.zero_le _)
    (by rw [Nat.zero_mul, Nat.zero_mul, Double.rounded_zero])
  have hlast := hends (i := column.length - 1) Double.isAmount_one le_rfl
    (hlast.rounded_eq Double.unit_pos (Nat.mul_comm ..))
  exact
    { inRange := fun q h₀ h₁ => by
        obtain ⟨k, hq, hk⟩ := hfraction h₀ h₁
        have hposition := exists_isAmount_position hlength hq hk
        exact position_lt hne hposition.1 hposition.2
      between := fun q h₀ h₁ => by
        obtain ⟨k, hq, hk⟩ := hfraction h₀ h₁
        have hposition := exists_isAmount_position hlength hq hk
        exact h.between hne hposition.1 hposition.2
      first := hfirst.1
      last := hlast.1
      first_eq := hfirst.2
      last_eq := hlast.2
      mono := fun q q' h₀ hle h₁ => by
        obtain ⟨k, hq, hk⟩ := hfraction h₀ (Double.le_trans hle h₁)
        obtain ⟨k', hq', hk'⟩ := hfraction (Double.le_trans h₀ hle) h₁
        have hposition := exists_isAmount_position hlength hq hk
        have hposition' := exists_isAmount_position hlength hq' hk'
        refine h.percentile_mono hne hposition'.1 hposition'.2 hposition.1 ?_
        refine Double.rounded_le_rounded Double.unit_pos Double.unit_pos ?_
        exact Nat.mul_le_mul_right _ (Nat.mul_le_mul_right _ ((hq.le_iff hq').1 hle)) }

end

end Column

end LoadReplay
