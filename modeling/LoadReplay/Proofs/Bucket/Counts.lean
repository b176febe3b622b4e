import LoadReplay.Proofs.Bucket.Intervals
import LoadReplay.Proofs.Bucket.Quartiles
import Mathlib.Algebra.BigOperators.Ring.Finset

/-!
# Counting by labels and counting by buckets

A number that is classified lies in one bucket and gets its label (`BucketChoice.sorts_of_build`).
A distribution counts by labels, not by buckets: the first bucket with a label counts the numbers of
all buckets that share it, and the others none (`Buckets.Counted`). So the numbers of every bucket
are counted where it stands if and only if no two buckets share a label
(`BucketChoice.distribution_counts`, and `BucketChoice.shared_label_miscounted` for two that do).
-/

namespace LoadReplay

/-! ## Buckets -/

namespace Quartiles

/-- The bounds from the lowest up. -/
def bounds (q : Quartiles) : List Double := [q.lower, q.median, q.upper]

/-- A number lies in the bucket with this index: it is above the bounds before and not above the
bucket's own bound, which the last bucket does not have. -/
def InBucket (q : Quartiles) (i : Nat) (v : Double) : Prop :=
  i < labels.length ∧ (∀ bound ∈ q.bounds.take i, ¬ v ≤ bound) ∧ ∀ bound ∈ q.bounds[i]?, v ≤ bound

instance (q : Quartiles) (i : Nat) (v : Double) : Decidable (q.InBucket i v) :=
  inferInstanceAs (Decidable (i < labels.length ∧ (∀ bound ∈ q.bounds.take i, ¬ v ≤ bound) ∧
    ∀ bound ∈ q.bounds[i]?, v ≤ bound))

variable {q : Quartiles} {i : Nat} {v : Double}

theorem inBucket_iff : q.InBucket i v ↔ labels[i]? = some (q.label v) := by
  rw [label, InBucket]
  split_ifs with hlower hmedian hupper
  all_goals rcases i with _ | _ | _ | _ | i <;> simp [labels, bounds, *]

end Quartiles

namespace Buckets

/-- The bucket with this index contains the number. -/
def Contains : Buckets → Nat → Double → Prop
  | quartiles q => q.InBucket
  | fixed f => InInterval f.bounds

instance (b : Buckets) (i : Nat) (v : Double) : Decidable (b.Contains i v) :=
  match b with
  | quartiles q => inferInstanceAs (Decidable (q.InBucket i v))
  | fixed f => inferInstanceAs (Decidable (InInterval f.bounds i v))

/-- How many numbers a bucket contains. -/
def bucketCount (b : Buckets) (values : List Double) (i : Nat) : Nat :=
  values.countP fun v => decide (b.Contains i v)

/-- Numbers get the label of the bucket that contains them. -/
structure Sorts (b : Buckets) : Prop where
  classify_eq_ok_iff : ∀ v label, b.classify v = .ok label ↔
    v.isFinite = true ∧ ∃ i, b.Contains i v ∧ b.labels[i]? = some label
  index_unique : ∀ v i j, v.isFinite = true → b.Contains i v → b.Contains j v → i = j

end Buckets

theorem Quartiles.sorts (q : Quartiles) : (Buckets.quartiles q).Sorts := by
  have hnodup : labels.Nodup := by decide
  refine ⟨fun v label => ?_, fun v i j _ hi hj => ?_⟩
  · rw [classify_eq_ok_iff]
    refine and_congr_right fun _ => ?_
    constructor
    · rintro rfl
      obtain ⟨i, hi⟩ := List.mem_iff_getElem?.1 (q.label_mem_labels v)
      exact ⟨i, inBucket_iff.2 hi, hi⟩
    · rintro ⟨i, hi, hlabel⟩
      exact Option.some.inj (hlabel.symm.trans (inBucket_iff.1 hi))
  · have hlabel := (inBucket_iff.1 hi).trans (inBucket_iff.1 hj).symm
    exact (List.getElem?_inj hi.1 hnodup).1 hlabel

theorem FixedBuckets.sorts {bounds : List Double} {labels : List String} {f : FixedBuckets}
    (h : FixedBuckets.of bounds labels = .ok f) : (Buckets.fixed f).Sorts := by
  obtain ⟨hadmissible, rfl, rfl⟩ := of_eq_ok_iff.1 h
  refine ⟨fun v label => classify_eq_ok_iff_inInterval h, fun v i j hv hi hj => ?_⟩
  have hrefl := Double.le_refl (Double.ne_nan_of_isFinite hv)
  have hle {i j : Nat} :=
    @index_le_index f i j v v hadmissible.isFinite hadmissible.increasing hrefl
  exact Nat.le_antisymm (hle hi hj) (hle hj hi)

theorem BucketChoice.sorts_of_build {choice : BucketChoice} {column : List Double} {b : Buckets}
    (h : choice.build column = .ok b) : b.Sorts := by
  obtain ⟨q, -, -, rfl⟩ | ⟨bounds, labels, f, -, hof, rfl⟩ := exists_of_build h
  · exact q.sorts
  · exact FixedBuckets.sorts hof

/-! ## Counts -/

namespace Buckets

variable {b : Buckets} {values : List Double} {found : List String}

theorem bucketCount_cons (b : Buckets) (v : Double) (values : List Double) (i : Nat) :
    b.bucketCount (v :: values) i =
      b.bucketCount values i + if b.Contains i v then 1 else 0 := by
  simp [bucketCount, List.countP_cons]

/-- A label is given to the numbers in all buckets that have it. -/
theorem Sorts.count_eq (h : b.Sorts)
    (hfound : List.Forall₂ (fun v label => b.classify v = .ok label) values found)
    (label : String) : found.count label =
      ∑ j ∈ Finset.range b.labels.length with b.labels[j]? = some label,
        b.bucketCount values j := by
  induction hfound with
  | nil => simp [bucketCount]
  | @cons v other values found hv _ ih =>
    -- one bucket contains the number, and has the label that the number gets
    obtain ⟨hfinite, i, hi, hother⟩ := (h.classify_eq_ok_iff v other).1 hv
    have hcontains (j : Nat) : b.Contains j v ↔ i = j :=
      ⟨h.index_unique v i j hfinite hi, fun hij => hij ▸ hi⟩
    have hlt : i < b.labels.length := (List.getElem?_eq_some_iff.1 hother).1
    rw [List.count_cons, ih]
    simp only [bucketCount_cons, Finset.sum_add_distrib, hcontains, Finset.sum_ite_eq,
      Finset.mem_filter, Finset.mem_range, hlt, hother, true_and, Option.some.injEq, beq_iff_eq]

/-- Every label that was found is counted once, at the first place of that label. -/
theorem sum_first_counts {labels : List String} (hfound : ∀ label ∈ found, label ∈ labels) :
    (labels.zipIdx.map fun (label, place) =>
      if labels.idxOf label = place then found.count label else 0).sum = found.length := by
  have hplaces : (labels.zipIdx.map Prod.snd).Nodup := by
    rw [List.zipIdx_map_snd]
    exact List.nodup_range'
  let firsts := labels.zipIdx.filter fun p => decide (labels.idxOf p.1 = p.2)
  have hnodup : (firsts.map Prod.fst).Nodup := by
    refine (hplaces.of_map.filter _).map_on fun p hp p' hp' hlabel => ?_
    have hp := of_decide_eq_true (List.mem_filter.1 hp).2
    have hp' := of_decide_eq_true (List.mem_filter.1 hp').2
    exact Prod.ext hlabel (by rw [← hp, ← hp', hlabel])
  have hfirsts : ∀ label ∈ found, label ∈ firsts.map Prod.fst := fun label hlabel => by
    refine List.mem_map.2 ⟨(label, labels.idxOf label), List.mem_filter.2 ⟨?_, by simp⟩, rfl⟩
    exact List.mk_mem_zipIdx_iff_getElem?.2 (List.getElem?_idxOf (hfound label hlabel))
  have hsplit := List.sum_map_ite (fun p : String × Nat => labels.idxOf p.1 = p.2)
    (fun p => found.count p.1) (fun _ => 0) labels.zipIdx
  rw [List.map_const', List.sum_replicate, smul_zero, add_zero] at hsplit
  rw [← sum_count_labels hnodup hfirsts, List.map_map]
  exact hsplit

/-- What a distribution says: the first bucket with a label counts the numbers in all buckets with
that label, and the others none. -/
structure Counted (b : Buckets) (values : List Double) (counts : List (String × Nat)) : Prop where
  labels_eq : counts.map Prod.fst = b.labels
  sum_eq : (counts.map Prod.snd).sum = values.length
  count_eq : ∀ i label n, counts[i]? = some (label, n) → n =
    if b.labels.idxOf label = i then
      ∑ j ∈ Finset.range b.labels.length with b.labels[j]? = some label, b.bucketCount values j
    else 0

theorem Sorts.counted {counts : List (String × Nat)} (h : b.Sorts)
    (hcounts : b.distribution values = .ok counts) : b.Counted values counts := by
  rw [distribution, Except.bind_eq_ok_iff] at hcounts
  obtain ⟨found, hfound, hcounts⟩ := hcounts
  obtain rfl := Except.ok.inj hcounts
  rw [Except.mapM_eq_ok_iff] at hfound
  refine ⟨?_, ?_, fun i label n hn => ?_⟩
  · rw [List.map_map]
    exact List.zipIdx_map_fst 0 b.labels
  · rw [List.map_map, hfound.length_eq]
    exact sum_first_counts (mem_labels_of_forall₂ hfound)
  · rw [List.getElem?_map, Option.map_eq_some_iff] at hn
    obtain ⟨entry, hentry, hn⟩ := hn
    rw [List.getElem?_zipIdx, Option.map_eq_some_iff] at hentry
    obtain ⟨other, -, rfl⟩ := hentry
    rw [Nat.zero_add] at hn
    obtain ⟨rfl, rfl⟩ := Prod.mk.inj hn
    rw [← h.count_eq hfound]

/-- The numbers in every bucket are counted where it stands. -/
def CountsEach (b : Buckets) (values : List Double) (counts : List (String × Nat)) : Prop :=
  counts = b.labels.mapIdx fun i label => (label, b.bucketCount values i)

theorem Sorts.countsEach {counts : List (String × Nat)} (h : b.Sorts) (hnodup : b.labels.Nodup)
    (hcounts : b.distribution values = .ok counts) : b.CountsEach values counts := by
  obtain ⟨found, hfound, rfl⟩ := (distribution_eq_ok_iff hnodup).1 hcounts
  refine List.ext_getElem? fun i => ?_
  rw [List.getElem?_map, List.getElem?_mapIdx]
  refine Option.map_congr fun label hlabel => ?_
  have hi := (List.getElem?_eq_some_iff.1 hlabel).1
  have honly (j : Nat) : b.labels[j]? = some label ↔ i = j := by
    rw [← hlabel, eq_comm, List.getElem?_inj hi hnodup]
  rw [h.count_eq hfound]
  simp only [honly, Finset.filter_eq, Finset.mem_range, hi, if_true, Finset.sum_singleton]

theorem exists_distribution_iff : (∃ counts, b.distribution values = .ok counts) ↔
    ∀ v ∈ values, ∃ label, b.classify v = .ok label := by
  rw [← Except.exists_mapM_eq_ok_iff]
  simp only [distribution, Except.bind_eq_ok_iff]
  constructor
  · rintro ⟨counts, found, hfound, -⟩
    exact ⟨found, hfound⟩
  · rintro ⟨found, hfound⟩
    exact ⟨_, found, hfound, rfl⟩

/-- A number of a bucket is counted where the bucket stands only if the label stands there for the
first time. -/
theorem Sorts.nodup_labels (h : b.Sorts)
    (hinhabited : ∀ i < b.labels.length, ∃ v, v.isFinite = true ∧ b.Contains i v)
    (heach : ∀ values counts, b.distribution values = .ok counts → b.CountsEach values counts) :
    b.labels.Nodup := by
  have hplace : ∀ i (hi : i < b.labels.length), b.labels.idxOf b.labels[i] = i := by
    intro i hi
    obtain ⟨v, hfinite, hv⟩ := hinhabited i hi
    have hlabel := List.getElem?_eq_getElem hi
    have hclassify := (h.classify_eq_ok_iff v _).2 ⟨hfinite, i, hv, hlabel⟩
    obtain ⟨counts, hcounts⟩ := (@exists_distribution_iff b [v]).2 (by simpa using ⟨_, hclassify⟩)
    have hentry : counts[i]? = some (b.labels[i], b.bucketCount [v] i) := by
      rw [heach [v] counts hcounts, List.getElem?_mapIdx, hlabel, Option.map_some]
    have hone : b.bucketCount [v] i = 1 := by simp [bucketCount, hv]
    have hcount := (h.counted hcounts).count_eq i _ _ hentry
    by_contra hother
    rw [if_neg hother, hone] at hcount
    cases hcount
  refine List.nodup_iff_injective_getElem.2 fun i j hsame => Fin.ext ?_
  have hsame : b.labels[i.val] = b.labels[j.val] := hsame
  rw [← hplace i i.isLt, ← hplace j j.isLt, hsame]

end Buckets

namespace FixedBuckets

/-- Every interval contains its upper bound. -/
theorem exists_inInterval {bounds : List Double} {labels : List String}
    (h : Admissible bounds labels) {i : Nat} (hi : i < labels.length) :
    ∃ v, v.isFinite = true ∧ InInterval bounds i v := by
  have hlength := h.length_eq
  have hupper : i + 1 < bounds.length := by omega
  have hfinite := h.isFinite _ (List.getElem_mem hupper)
  refine ⟨bounds[i + 1], hfinite, _, List.getElem?_eq_getElem (Nat.lt_of_succ_lt hupper), _,
    List.getElem?_eq_getElem hupper, .inl ?_, Double.le_refl (Double.ne_nan_of_isFinite hfinite)⟩
  exact List.pairwise_iff_getElem.1 h.increasing i (i + 1) _ hupper (Nat.lt_succ_self i)

end FixedBuckets

namespace BucketChoice

variable {choice : BucketChoice} {column : List Double} {b : Buckets}

theorem nodup_labels_iff (h : choice.build column = .ok b) : b.labels.Nodup ↔
    ∀ values counts, b.distribution values = .ok counts → b.CountsEach values counts := by
  have hsorts := sorts_of_build h
  refine ⟨fun hnodup values counts => hsorts.countsEach hnodup, fun heach => ?_⟩
  obtain ⟨q, -, -, rfl⟩ | ⟨bounds, labels, f, -, hof, rfl⟩ := exists_of_build h
  · exact (by decide : Quartiles.labels.Nodup)
  · obtain ⟨hadmissible, rfl, rfl⟩ := FixedBuckets.of_eq_ok_iff.1 hof
    exact hsorts.nodup_labels (fun i hi => FixedBuckets.exists_inInterval hadmissible hi) heach

/-- Distributions of the buckets that are asked for, which sort each number into one bucket. There
is a distribution of all numbers that can be classified and of no others. It counts every number
once, under its label, and it counts the numbers of each bucket where that stands if and only if no
two buckets share a label. -/
theorem distribution_counts (h : choice.build column = .ok b) :
    b.Sorts ∧
    (∀ values, (∃ counts, b.distribution values = .ok counts) ↔
      ∀ v ∈ values, ∃ label, b.classify v = .ok label) ∧
    (∀ values counts, b.distribution values = .ok counts → b.Counted values counts) ∧
    (b.labels.Nodup ↔
      ∀ values counts, b.distribution values = .ok counts → b.CountsEach values counts) :=
  ⟨sorts_of_build h, fun _ => Buckets.exists_distribution_iff,
    fun _ _ => (sorts_of_build h).counted, nodup_labels_iff h⟩

theorem distribution_counts_sample :
    ∃ b, (fixed [0, 10, 20] ["short", "long"]).build [] = .ok b ∧ b.Sorts ∧
      ∃ counts, b.distribution [5, 15] = .ok counts ∧ b.Counted [5, 15] counts ∧
        b.CountsEach [5, 15] counts := by
  let b := Buckets.fixed ⟨0, [⟨"short", 10⟩, ⟨"long", 20⟩]⟩
  have hbuild : (fixed [0, 10, 20] ["short", "long"]).build [] = .ok b := by decide +kernel
  have hnodup : b.labels.Nodup := by decide
  have hclassify : ∀ v ∈ [5, 15], ∃ label, b.classify v = .ok label :=
    List.forall_mem_cons.2 ⟨⟨"short", by decide +kernel⟩,
      List.forall_mem_singleton.2 ⟨"long", by decide +kernel⟩⟩
  obtain ⟨hsorts, hexists, hcounted, heach⟩ := distribution_counts hbuild
  obtain ⟨counts, hcounts⟩ := (hexists [5, 15]).2 hclassify
  exact ⟨b, hbuild, hsorts, counts, hcounts, hcounted _ _ hcounts, heach.1 hnodup _ _ hcounts⟩

/-- Two buckets share a label and hold one number each: the first is said to hold both. -/
theorem shared_label_miscounted :
    ∃ b, (fixed [0, 10, 20] ["a", "a"]).build [] = .ok b ∧
      b.distribution [5, 15] = .ok [("a", 2), ("a", 0)] ∧
      b.bucketCount [5, 15] 0 = 1 ∧ b.bucketCount [5, 15] 1 = 1 :=
  ⟨.fixed ⟨0, [⟨"a", 10⟩, ⟨"a", 20⟩]⟩, by decide +kernel, by decide +kernel, by decide +kernel,
    by decide +kernel⟩

end BucketChoice

end LoadReplay
