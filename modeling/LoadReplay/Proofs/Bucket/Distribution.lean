import LoadReplay.Proofs.Bucket.Intervals
import LoadReplay.Proofs.Except
import Mathlib.Algebra.BigOperators.Group.Finset.Basic
import Mathlib.Algebra.Ring.Nat

/-!
# How numbers fall into buckets

The buckets that are built have the labels that were asked for (`BucketChoice.labels_of_build`), and
a number that is classified gets one of them. Where no label comes twice,
`Buckets.distribution` counts for each label the numbers that get it
(`Buckets.distribution_eq_ok_iff`), so that the counts add up to all numbers
(`Buckets.sum_count_labels`).
-/

namespace LoadReplay

/-! ## Labels -/

/-- The labels of the buckets that are asked for. -/
def BucketChoice.labels : BucketChoice → List String
  | quantile => Quartiles.labels
  | fixed _ labels => labels

theorem BucketChoice.exists_of_build {choice : BucketChoice} {column : List Double} {b : Buckets}
    (h : choice.build column = .ok b) :
    (∃ q, choice = quantile ∧ Quartiles.of column = .ok q ∧ b = .quartiles q) ∨
      ∃ bounds labels f, choice = fixed bounds labels ∧ FixedBuckets.of bounds labels = .ok f ∧
        b = .fixed f := by
  cases choice with
  | quantile =>
    rw [build] at h
    split at h
    next q hq => exact .inl ⟨q, rfl, hq, (Except.ok.inj h).symm⟩
    next => cases h
  | fixed bounds labels =>
    rw [build] at h
    cases hof : FixedBuckets.of bounds labels with
    | error fault =>
      rw [hof] at h
      cases h
    | ok f =>
      rw [hof] at h
      exact .inr ⟨bounds, labels, f, rfl, hof, (Except.ok.inj h).symm⟩

theorem BucketChoice.labels_of_build {choice : BucketChoice} {column : List Double} {b : Buckets}
    (h : choice.build column = .ok b) : b.labels = choice.labels := by
  obtain ⟨q, rfl, -, rfl⟩ | ⟨bounds, labels, f, rfl, hof, rfl⟩ := exists_of_build h
  · rfl
  · exact (FixedBuckets.of_eq_ok_iff.1 hof).2.2

theorem Quartiles.classify_eq_ok_iff {q : Quartiles} {v : Double} {found : String} :
    (Buckets.quartiles q).classify v = .ok found ↔ v.isFinite = true ∧ found = q.label v := by
  rw [Buckets.classify]
  split_ifs with h
  · simp [h, eq_comm]
  · simp [h]

theorem Quartiles.label_mem_labels (q : Quartiles) (v : Double) : q.label v ∈ labels := by
  rw [label, labels]
  split_ifs <;> simp

namespace Buckets

variable {b : Buckets} {v : Double} {values : List Double} {label : String} {found : List String}

theorem mem_labels_of_classify (h : b.classify v = .ok label) : label ∈ b.labels := by
  cases b with
  | quartiles q =>
    obtain ⟨-, rfl⟩ := Quartiles.classify_eq_ok_iff.1 h
    exact q.label_mem_labels v
  | fixed f =>
    obtain ⟨-, interval, hinterval, rfl⟩ := FixedBuckets.classify_eq_ok_iff.1 h
    have hfind := (Option.ite_none_right_eq_some.1 hinterval).2
    exact List.mem_map_of_mem (List.mem_of_find?_eq_some hfind)

/-- All labels that numbers are given are labels of the buckets. -/
theorem mem_labels_of_forall₂
    (h : List.Forall₂ (fun v label => b.classify v = .ok label) values found) :
    ∀ label ∈ found, label ∈ b.labels := by
  induction h with
  | nil => nofun
  | cons hlabel _ ih => exact List.forall_mem_cons.2 ⟨mem_labels_of_classify hlabel, ih⟩

/-! ## Counts -/

/-- Labels that come only once all stand at their first place. -/
theorem map_zipIdx_of_nodup {labels : List String} (h : labels.Nodup) (count : String → Nat) :
    (labels.zipIdx.map fun (label, place) =>
      (label, if labels.idxOf label = place then count label else 0)) =
      labels.map fun label => (label, count label) := by
  refine List.ext_getElem (by simp) fun i hi _ => ?_
  have hplace : i < labels.length := by simpa using hi
  simp [h.idxOf_getElem i hplace]

theorem distribution_eq_ok_iff (h : b.labels.Nodup) {counts : List (String × Nat)} :
    b.distribution values = .ok counts ↔
      ∃ found, List.Forall₂ (fun v label => b.classify v = .ok label) values found ∧
        counts = b.labels.map fun label => (label, found.count label) := by
  rw [distribution, Except.bind_eq_ok_iff]
  refine exists_congr fun found => and_congr Except.mapM_eq_ok_iff ?_
  rw [map_zipIdx_of_nodup h fun label => found.count label, Except.ok.injEq, eq_comm]

/-- Labels that come only once count every label that was found, and each of them once. -/
theorem sum_count_labels {labels : List String} (h : labels.Nodup)
    (hfound : ∀ label ∈ found, label ∈ labels) :
    (labels.map fun label => found.count label).sum = found.length := by
  have hsubset : ∀ label ∈ (found : Multiset String), label ∈ labels.toFinset := by
    simpa using hfound
  have hsum := Multiset.sum_count_eq_card hsubset
  rw [List.sum_toFinset _ h] at hsum
  simpa using hsum

end Buckets

end LoadReplay
