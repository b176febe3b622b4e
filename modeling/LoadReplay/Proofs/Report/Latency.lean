import LoadReplay.Proofs.Bucket.Percentiles
import LoadReplay.Proofs.Bucket.Quartiles
import LoadReplay.Report.Summary
import Mathlib.Algebra.Order.BigOperators.Group.List

/-!
# Latencies in a summary

Latencies whose sum is below `2 ^ 53` nanoseconds are counts, and so are all their partial sums. So
their mean is rounded once and stays between the least and the greatest latency, and so do the
percentiles (`LatencyStats.ordered_of?`). There may be more than `2 ^ 53` latencies, as many as a
machine word counts: then most of them are nothing, and the positions of the percentiles in use are
far enough from the end to stay within the column when they are rounded.
-/

namespace LoadReplay

open Double (IsAmount isAmount_ofNat rounded unit binade)

/-! ## Counts -/

namespace Double

variable {n : Nat}

theorem isCount_ofNat (h : n < 2 ^ 53) : IsCount (ofNat n) := by
  obtain ⟨hfinite, hquanta⟩ := isAmount_ofNat h
  have hunit : (unit : ℚ) ≠ 0 := Nat.cast_ne_zero.2 unit_pos.ne'
  refine ⟨hfinite, n, h, ?_⟩
  rw [value, hquanta, div_eq_iff hunit]
  push_cast
  rfl

/-- A natural number of 64 binary digits is rounded to a whole number. -/
theorem exists_isAmount_ofNat (h : n ≤ 2 ^ 64) :
    ∃ m, IsAmount (ofNat n) (m * unit) ∧ m * binade ≤ n * (binade + 1) ∧ (n < 2 ^ 53 → m = n) ∧
      (2 ^ 53 ≤ n → 2 ^ 53 - 1 ≤ m) := by
  have hplaces : 64 + unitPlaces ≤ 2000 := by rw [unitPlaces_eq]; decide
  have hbound : n * unit ≤ 2 ^ (64 + unitPlaces) := by
    rw [Nat.pow_add, ← unit_eq]
    exact Nat.mul_le_mul_right _ h
  obtain ⟨m, hround, hle, hexact⟩ := exists_isQuanta_ofQuotient 64 h hplaces
  rw [← unit_eq] at hround
  have hmagnitude : rounded (n * unit) 1 = m * unit :=
    (isQuanta_ofQuotient hbound hplaces).isAmount.unique hround.isAmount
  refine ⟨m, hround.isAmount, hle, hexact, fun hlong => ?_⟩
  have hbelow := isAmount_ofNat (show 2 ^ 53 - 1 < 2 ^ 53 by decide)
  refine Nat.le_of_mul_le_mul_right ?_ unit_pos
  rw [← hmagnitude]
  exact hbelow.le_rounded Nat.one_pos (by
    rw [Nat.mul_one]
    exact Nat.mul_le_mul_right _ (by omega))

/-- The sum of counts below `2 ^ 53` is exact. -/
theorem isAmount_foldl_add {counts : List Nat} {x : Double} {a : Nat} (hx : IsAmount x (a * unit))
    (h : a + counts.sum < 2 ^ 53) :
    IsAmount ((counts.map ofNat).foldl (· + ·) x) ((a + counts.sum) * unit) := by
  induction counts generalizing x a with
  | nil => simpa using hx
  | cons c counts ih =>
    rw [List.sum_cons, ← Nat.add_assoc] at h ⊢
    have hsum := isAmount_ofNat (show a + c < 2 ^ 53 by omega)
    have hadd := hx.add (isAmount_ofNat (show c < 2 ^ 53 by omega)) hsum (Nat.add_mul ..).ge
    rw [← Nat.add_mul, hsum.rounded_self] at hadd
    exact ih hadd h

theorem isAmount_sum {counts : List Nat} (h : counts.sum < 2 ^ 53) :
    IsAmount (sum (counts.map ofNat)) (counts.sum * unit) := by
  have hzero : IsAmount (zero true) (0 * unit) := by
    rw [Nat.zero_mul]
    exact isAmount_signedZero true
  have hsum := isAmount_foldl_add hzero (show 0 + counts.sum < 2 ^ 53 by rwa [Nat.zero_add])
  rwa [Nat.zero_add] at hsum

end Double

namespace LatencyStats

/-! ## The mean -/

/-- The sum of counts against its bounds, for the number they are divided by. If there are so many
that their number is rounded, then the least is nothing, and the number is more than the sum. -/
theorem sum_between {counts : List Nat} {least greatest m : Nat} (hne : counts ≠ [])
    (hsum : counts.sum < 2 ^ 53) (hleast : ∀ c ∈ counts, least ≤ c)
    (hgreatest : ∀ c ∈ counts, c ≤ greatest) (hexact : counts.length < 2 ^ 53 → m = counts.length)
    (hlong : 2 ^ 53 ≤ counts.length → 2 ^ 53 - 1 ≤ m) :
    0 < m ∧ least * m ≤ counts.sum ∧ counts.sum ≤ greatest * m := by
  have hpos : 0 < counts.length := List.length_pos_iff.2 hne
  have hlower : counts.length * least ≤ counts.sum := List.card_nsmul_le_sum _ _ hleast
  have hupper : counts.sum ≤ counts.length * greatest := List.sum_le_card_nsmul _ _ hgreatest
  rcases Nat.lt_or_ge counts.length (2 ^ 53) with hshort | hmany
  · rw [hexact hshort, Nat.mul_comm least, Nat.mul_comm greatest]
    exact ⟨hpos, hlower, hupper⟩
  · have hm := hlong hmany
    have hzero : least = 0 := by
      by_contra hleastne
      have := Nat.le_mul_of_pos_right counts.length (Nat.pos_of_ne_zero hleastne)
      omega
    refine ⟨by omega, by rw [hzero, Nat.zero_mul]; exact Nat.zero_le _, ?_⟩
    rcases Nat.eq_zero_or_pos greatest with hnone | hsome
    · rw [hnone, Nat.mul_zero] at hupper
      rw [Nat.le_zero.1 hupper]
      exact Nat.zero_le _
    · have := Nat.le_mul_of_pos_left m hsome
      omega

/-- The mean of counts lies between the least and the greatest of them. -/
theorem exists_isAmount_meanOf {counts : List Nat} {least greatest : Nat} (hne : counts ≠ [])
    (hlength : counts.length ≤ 2 ^ 64) (hsum : counts.sum < 2 ^ 53)
    (hleast : ∀ c ∈ counts, least ≤ c) (hgreatest : ∀ c ∈ counts, c ≤ greatest)
    (hlt : greatest < 2 ^ 53) :
    ∃ a, IsAmount (meanOf (counts.map Double.ofNat)) a ∧ least * unit ≤ a ∧
      a ≤ greatest * unit := by
  obtain ⟨m, hm, -, hexact, hlong⟩ := Double.exists_isAmount_ofNat hlength
  obtain ⟨hmpos, hleastm, hgreatestm⟩ := sum_between hne hsum hleast hgreatest hexact hlong
  have hden : 0 < m * unit := Nat.mul_pos hmpos Double.unit_pos
  have hgreatestAmount := isAmount_ofNat hlt
  have hmean : counts.sum * unit * unit ≤ greatest * unit * (m * unit) :=
    calc counts.sum * unit * unit ≤ greatest * m * unit * unit :=
          Nat.mul_le_mul_right _ (Nat.mul_le_mul_right _ hgreatestm)
      _ = greatest * unit * (m * unit) := by ring
  refine ⟨rounded (counts.sum * unit * unit) (m * unit), ?_, ?_,
    hgreatestAmount.rounded_le hden hmean⟩
  · rw [meanOf, List.length_map]
    exact (Double.isAmount_sum hsum).div hm hgreatestAmount hden hmean
  · have hleastlt : least < 2 ^ 53 := by
      obtain ⟨c, hc⟩ := List.exists_mem_of_ne_nil counts hne
      exact ((hleast c hc).trans (hgreatest c hc)).trans_lt hlt
    refine (isAmount_ofNat hleastlt).le_rounded hden ?_
    calc least * unit * (m * unit) = least * m * unit * unit := by ring
      _ ≤ counts.sum * unit * unit := Nat.mul_le_mul_right _ (Nat.mul_le_mul_right _ hleastm)

/-! ## Percentiles -/

theorem isCounts_map_ofNat {counts : List Nat} (hsorted : counts.Pairwise (· ≤ ·))
    (hlt : ∀ c ∈ counts, c < 2 ^ 53) : Column.IsCounts (counts.map Double.ofNat) counts :=
  { length_eq := (List.length_map ..).symm
    isAmount := fun i hi => by
      rw [Column.item_map_ofNat]
      exact isAmount_ofNat (hlt _ (Column.getD_mem (by simpa using hi)))
    lt := hlt
    sorted := hsorted }

/-- A position that is not near the end of a column is within it, even if the column has more than
`2 ^ 53` numbers. -/
theorem rounded_position_le {n k m : Nat} (hk : 256 * k ≤ 255 * unit)
    (hm : m * binade ≤ n * (binade + 1)) : rounded (k * (m * unit)) unit ≤ n * unit := by
  rw [← Nat.mul_assoc, Double.rounded_mul_unit]
  have hround : rounded (k * m) 1 * binade ≤ k * m * (binade + 1) :=
    Double.quanta_roundRank_le (k * m)
  have hbinade : 255 * ((binade + 1) * (binade + 1)) ≤ 256 * (binade * binade) := by decide
  have hpos : 0 < 256 * (binade * binade) := by decide
  refine Nat.le_of_mul_le_mul_right ?_ hpos
  calc rounded (k * m) 1 * (256 * (binade * binade))
      = rounded (k * m) 1 * binade * (256 * binade) := by ring
    _ ≤ k * m * (binade + 1) * (256 * binade) := Nat.mul_le_mul_right _ hround
    _ = 256 * k * (m * binade) * (binade + 1) := by ring
    _ ≤ 255 * unit * (n * (binade + 1)) * (binade + 1) :=
      Nat.mul_le_mul_right _ (Nat.mul_le_mul hk hm)
    _ = n * unit * (255 * ((binade + 1) * (binade + 1))) := by ring
    _ ≤ n * unit * (256 * (binade * binade)) := Nat.mul_le_mul_left _ hbinade

/-- The fractions of the percentiles in use, and how far they are from one. -/
theorem exists_fractions : ∃ k₅₀ k₉₀ k₉₉, IsAmount 0.5 k₅₀ ∧ IsAmount 0.9 k₉₀ ∧ IsAmount 0.99 k₉₉ ∧
    k₅₀ ≤ k₉₀ ∧ k₉₀ ≤ k₉₉ ∧ 256 * k₉₉ ≤ 255 * unit :=
  ⟨(0.5 : Double).inQuanta.toNat, (0.9 : Double).inQuanta.toNat, (0.99 : Double).inQuanta.toNat,
    ⟨by decide +kernel, by decide +kernel⟩, ⟨by decide +kernel, by decide +kernel⟩,
    ⟨by decide +kernel, by decide +kernel⟩, by decide +kernel, by decide +kernel,
    by decide +kernel⟩

/-- The positions of the percentiles in use are within the column, one after the other. -/
theorem exists_positions (column : List Double) (hlength : column.length ≤ 2 ^ 64) :
    ∃ p₅₀ p₉₀ p₉₉, IsAmount (Column.position column 0.5) p₅₀ ∧
      IsAmount (Column.position column 0.9) p₉₀ ∧ IsAmount (Column.position column 0.99) p₉₉ ∧
      p₅₀ ≤ p₉₀ ∧ p₉₀ ≤ p₉₉ ∧ p₉₉ ≤ (column.length - 1) * unit := by
  obtain ⟨m, hm, hmle, -, -⟩ :=
    Double.exists_isAmount_ofNat (show column.length - 1 ≤ 2 ^ 64 by omega)
  obtain ⟨k₅₀, k₉₀, k₉₉, h₅₀, h₉₀, h₉₉, hk₅₀, hk₉₀, hk₉₉⟩ := exists_fractions
  have hmono {k l : Nat} (hkl : k ≤ l) :
      rounded (k * (m * unit)) unit ≤ rounded (l * (m * unit)) unit :=
    Double.rounded_le_rounded Double.unit_pos Double.unit_pos
      (Nat.mul_le_mul_right _ (Nat.mul_le_mul_right _ hkl))
  exact ⟨_, _, _, Column.isAmount_position h₅₀ (by omega) hm,
    Column.isAmount_position h₉₀ (by omega) hm, Column.isAmount_position h₉₉ (by omega) hm,
    hmono hk₅₀, hmono hk₉₀, rounded_position_le hk₉₉ hmle⟩

/-- The column has the numbers that the percentiles in use are computed from. -/
def InRange (column : List Double) : Prop :=
  ∀ q ∈ [(0.5 : Double), 0.9, 0.99],
    (Column.position column q).floorNat < column.length ∧
      (Column.position column q).ceilNat < column.length

theorem inRange {column : List Double} (hne : column ≠ []) (hlength : column.length ≤ 2 ^ 64) :
    InRange column := by
  obtain ⟨p₅₀, p₉₀, p₉₉, h₅₀, h₉₀, h₉₉, hp₅₀, hp₉₀, hp₉₉⟩ := exists_positions column hlength
  rw [InRange, List.forall_mem_cons, List.forall_mem_cons, List.forall_mem_singleton]
  exact ⟨Column.position_lt hne h₅₀ (hp₅₀.trans (hp₉₀.trans hp₉₉)),
    Column.position_lt hne h₉₀ (hp₉₀.trans hp₉₉), Column.position_lt hne h₉₉ hp₉₉⟩

/-- The percentiles in use of sorted counts, from the first count to the last. -/
theorem exists_isAmount_percentiles {counts : List Nat} (hne : counts ≠ [])
    (hlength : counts.length ≤ 2 ^ 64) (hsorted : counts.Pairwise (· ≤ ·))
    (hlt : ∀ c ∈ counts, c < 2 ^ 53) : ∃ a₅₀ a₉₀ a₉₉,
      IsAmount (Column.percentile (counts.map Double.ofNat) 0.5) a₅₀ ∧
      IsAmount (Column.percentile (counts.map Double.ofNat) 0.9) a₉₀ ∧
      IsAmount (Column.percentile (counts.map Double.ofNat) 0.99) a₉₉ ∧
      counts.getD 0 0 * unit ≤ a₅₀ ∧ a₅₀ ≤ a₉₀ ∧ a₉₀ ≤ a₉₉ ∧
      a₉₉ ≤ counts.getD (counts.length - 1) 0 * unit := by
  have hpos : 0 < counts.length := List.length_pos_iff.2 hne
  have hcolumn := isCounts_map_ofNat hsorted hlt
  have hne' : counts.map Double.ofNat ≠ [] := by simpa using hne
  obtain ⟨p₅₀, p₉₀, p₉₉, h₅₀, h₉₀, h₉₉, hp₅₀, hp₉₀, hp₉₉⟩ :=
    exists_positions (counts.map Double.ofNat) (by simpa using hlength)
  have hp₉₀₉₉ := hp₉₀.trans hp₉₉
  refine ⟨_, _, _, (hcolumn.isAmount_percentile hne' h₅₀ (hp₅₀.trans hp₉₀₉₉)).1,
    (hcolumn.isAmount_percentile hne' h₉₀ hp₉₀₉₉).1,
    (hcolumn.isAmount_percentile hne' h₉₉ hp₉₉).1, ?_⟩
  rw [List.length_map] at hp₉₉ hp₉₀₉₉
  exact ⟨Column.first_le_percentileAt hsorted hlt (hp₅₀.trans hp₉₀₉₉) hpos,
    Column.percentileAt_mono hsorted hlt hp₉₀₉₉ hpos hp₅₀,
    Column.percentileAt_mono hsorted hlt hp₉₉ hpos hp₉₀,
    Column.percentileAt_le_last hsorted hlt hp₉₉ hpos⟩

/-! ## Descriptions -/

/-- The description of latencies that are sorted numbers. -/
def ofSorted (sorted : List Double) : LatencyStats :=
  { mean := (meanOf sorted).roundNat
    p50 := (Column.percentile sorted 0.5).roundNat
    p90 := (Column.percentile sorted 0.9).roundNat
    p99 := (Column.percentile sorted 0.99).roundNat
    greatest := (Column.item sorted (sorted.length - 1)).roundNat }

theorem of?_eq_some {latencies : List Duration} (h : latencies ≠ []) :
    of? latencies = some (ofSorted (Double.sort (latencies.map Double.ofNat))) :=
  if_neg (by simpa using h)

theorem of?_isSome {latencies : List Duration} :
    (of? latencies).isSome = true ↔ latencies ≠ [] := by
  cases latencies <;> simp [of?]

/-- What is said of latencies is in order, from the least to the greatest of them. -/
structure Ordered (latencies : List Duration) (s : LatencyStats) : Prop where
  least_le_p50 : ∀ least, latencies.min? = some least → least ≤ s.p50
  p50_le_p90 : s.p50 ≤ s.p90
  p90_le_p99 : s.p90 ≤ s.p99
  p99_le_greatest : s.p99 ≤ s.greatest
  greatest_eq : latencies.max? = some s.greatest
  least_le_mean : ∀ least, latencies.min? = some least → least ≤ s.mean
  mean_le_greatest : s.mean ≤ s.greatest

theorem Ordered.perm {latencies others : List Duration} {s : LatencyStats}
    (h : Ordered latencies s) (hperm : latencies.Perm others) : Ordered others s := by
  have hmin (least : Duration) : others.min? = some least → latencies.min? = some least := by
    simp only [List.min?_eq_some_iff, hperm.mem_iff, imp_self]
  have hmax (greatest : Duration) :
      latencies.max? = some greatest → others.max? = some greatest := by
    simp only [List.max?_eq_some_iff, hperm.mem_iff, imp_self]
  exact
    { h with
      least_le_p50 := fun least hleast => h.least_le_p50 least (hmin least hleast)
      greatest_eq := hmax _ h.greatest_eq
      least_le_mean := fun least hleast => h.least_le_mean least (hmin least hleast) }

/-- Sorted counts are described in order. -/
theorem ordered_ofSorted {counts : List Nat} (hne : counts ≠ [])
    (hlength : counts.length ≤ 2 ^ 64) (hsorted : counts.Pairwise (· ≤ ·))
    (hsum : counts.sum < 2 ^ 53) : Ordered counts (ofSorted (counts.map Double.ofNat)) := by
  have hpos : 0 < counts.length := List.length_pos_iff.2 hne
  have hlt : ∀ c ∈ counts, c < 2 ^ 53 := fun c hc => (List.le_sum_of_mem hc).trans_lt hsum
  obtain ⟨a₅₀, a₉₀, a₉₉, h₅₀, h₉₀, h₉₉, hfirst, ha₅₀, ha₉₀, hend⟩ :=
    exists_isAmount_percentiles hne hlength hsorted hlt
  have hleastmem : counts.getD 0 0 ∈ counts := Column.getD_mem hpos
  have hgreatestmem : counts.getD (counts.length - 1) 0 ∈ counts :=
    Column.getD_mem (Nat.sub_one_lt hpos.ne')
  have hbounds : ∀ c ∈ counts, counts.getD 0 0 ≤ c ∧ c ≤ counts.getD (counts.length - 1) 0 :=
    fun c hc => Column.getD_le_of_mem hsorted hc
  obtain ⟨a, hmean, hlower, hupper⟩ := exists_isAmount_meanOf hne hlength hsum
    (fun c hc => (hbounds c hc).1) (fun c hc => (hbounds c hc).2) (hlt _ hgreatestmem)
  have hitem : (ofSorted (counts.map Double.ofNat)).greatest =
      counts.getD (counts.length - 1) 0 := by
    rw [ofSorted, List.length_map, Column.item_map_ofNat,
      Double.roundNat_ofNat (hlt _ hgreatestmem)]
  -- what is above the first count is above the least one, and likewise at the end
  have hleast {x : Double} {b : Nat} (hx : IsAmount x b) (hb : counts.getD 0 0 * unit ≤ b) :
      ∀ least, counts.min? = some least → least ≤ x.roundNat := fun least hmin => by
    refine ((List.min?_eq_some_iff.1 hmin).2 _ hleastmem).trans ?_
    rw [← Double.roundNat_ofNat (hlt _ hleastmem)]
    exact (isAmount_ofNat (hlt _ hleastmem)).roundNat_le hx hb
  have hgreatest {x : Double} {b : Nat} (hx : IsAmount x b)
      (hb : b ≤ counts.getD (counts.length - 1) 0 * unit) :
      x.roundNat ≤ (ofSorted (counts.map Double.ofNat)).greatest := by
    rw [hitem, ← Double.roundNat_ofNat (hlt _ hgreatestmem)]
    exact hx.roundNat_le (isAmount_ofNat (hlt _ hgreatestmem)) hb
  exact
    { least_le_p50 := hleast h₅₀ hfirst
      p50_le_p90 := h₅₀.roundNat_le h₉₀ ha₅₀
      p90_le_p99 := h₉₀.roundNat_le h₉₉ ha₉₀
      p99_le_greatest := hgreatest h₉₉ hend
      greatest_eq := by
        rw [hitem]
        exact List.max?_eq_some_iff.2 ⟨hgreatestmem, fun c hc => (hbounds c hc).2⟩
      least_le_mean := hleast hmean hlower
      mean_le_greatest := hgreatest hmean hupper }

theorem ordered_of? {latencies : List Duration} {s : LatencyStats}
    (hlength : latencies.length ≤ 2 ^ 64) (hsum : latencies.sum < 2 ^ 53)
    (h : of? latencies = some s) : Ordered latencies s := by
  have hne : latencies ≠ [] := of?_isSome.1 (by rw [h]; rfl)
  have hlt : ∀ c ∈ latencies, c < 2 ^ 53 := fun c hc => (List.le_sum_of_mem hc).trans_lt hsum
  have hperm : latencies.mergeSort.Perm latencies := List.mergeSort_perm latencies _
  rw [of?_eq_some hne, Column.sort_map_ofNat hlt, Option.some.injEq] at h
  rw [← h]
  refine (ordered_ofSorted ?_ ?_ (List.pairwise_mergeSort' (· ≤ ·) latencies) ?_).perm hperm
  · exact fun hnil => hne (List.nil_perm.1 (hnil ▸ hperm))
  · rwa [hperm.length_eq]
  · rwa [hperm.sum_eq]

end LatencyStats

/-! ## Summaries -/

/-- The latencies that were measured. -/
def Outcome.latencies (o : Outcome) : List Duration := o.records.filterMap (·.latency)

/-- The percentiles of a sorted column of counts are computed from numbers that are there, and they
are in order, and so is what a summary says of latencies; it says something if and only if there are
any. -/
theorem Summary.latency_ordered (column : List Double) (o : Outcome) (hne : column ≠ [])
    (hsorted : column.Pairwise (· ≤ ·)) (hcounts : ∀ x ∈ column, x.IsCount)
    (hlength : column.length < 2 ^ 53) (hrecords : o.records.length ≤ 2 ^ 64)
    (hsum : o.latencies.sum < 2 ^ 53) :
    Column.Percentiles column ∧
      ((Summary.of o).latency.isSome = true ↔ ∃ m ∈ o.records, m.latency.isSome = true) ∧
      ∀ s, (Summary.of o).latency = some s →
        LatencyStats.InRange (Double.sort (o.latencies.map Double.ofNat)) ∧
          s.Ordered o.latencies := by
  have hlatencies : o.latencies.length ≤ 2 ^ 64 := (List.length_filterMap_le ..).trans hrecords
  refine ⟨(Column.IsCounts.of_isCount hsorted hcounts).percentiles hne hlength, ?_,
    fun s hs => ⟨?_, LatencyStats.ordered_of? hlatencies hsum hs⟩⟩
  · rw [Summary.of, LatencyStats.of?_isSome]
    simp [List.filterMap_eq_nil_iff, Option.isSome_iff_ne_none]
  · have hsome : o.latencies ≠ [] := LatencyStats.of?_isSome.1 (Option.isSome_of_eq_some hs)
    have hlength : (Double.sort (o.latencies.map Double.ofNat)).length = o.latencies.length := by
      rw [Double.sort, List.length_mergeSort, List.length_map]
    refine LatencyStats.inRange (fun hnil => hsome ?_) (hlength.trans_le hlatencies)
    rw [hnil] at hlength
    exact List.length_eq_zero_iff.1 hlength.symm

/-- A measurement of a number of milliseconds. -/
def sampleMeasurement (millis : Nat) : Measurement :=
  { Measurement.ofEvent 0 0 ⟨0, "1", "", 1, 2⟩ with
    latency := some (millis * Duration.millisecond) }

/-- The outcome of two requests, the first of which took longer. -/
def sampleOutcome : Outcome :=
  { records := [sampleMeasurement 30, sampleMeasurement 10]
    total := 2
    dispatched := 2
    elapsed := 40 * Duration.millisecond
    maxLag := 0
    maxInflight := 1
    cancelled := false }

theorem Summary.latency_ordered_sample :
    Column.Percentiles [Double.ofNat 1, Double.ofNat 4] ∧
      ∃ s, (Summary.of sampleOutcome).latency = some s ∧ s.Ordered [30000000, 10000000] := by
  have hcount {n : Nat} (h : n < 2 ^ 53) := Double.isCount_ofNat h
  obtain ⟨hpercentiles, hsome, hordered⟩ :=
    Summary.latency_ordered [Double.ofNat 1, Double.ofNat 4] sampleOutcome (by simp)
      (by decide +kernel) (by simp [hcount]) (by simp) (by decide) (by decide)
  obtain ⟨s, hs⟩ := Option.isSome_iff_exists.1 (hsome.2 ⟨_, List.mem_cons_self .., rfl⟩)
  exact ⟨hpercentiles, s, hs, (hordered s hs).2⟩

end LoadReplay
