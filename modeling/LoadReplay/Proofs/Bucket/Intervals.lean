import LoadReplay.Bucket.Basic
import LoadReplay.Proofs.Double.Order
import Mathlib.Data.List.Chain

/-!
# Fixed buckets partition their range

Fixed buckets are made of finite bounds of which each one is smaller than all later ones, with a
label for every two neighbours (`FixedBuckets.of_eq_ok_iff`). A number is sorted into the interval
that it lies in (`FixedBuckets.interval?_eq_some_iff`); there is one for every number from the first
bound to the last, there is only one, and a greater number lies in no earlier one
(`FixedBuckets.partition`).
-/

namespace LoadReplay

/-- A number lies in the interval with this index: above the lower bound, or on it in the first
interval, and not above the upper bound. -/
def InInterval (bounds : List Double) (i : Nat) (v : Double) : Prop :=
  ∃ lower ∈ bounds[i]?, ∃ upper ∈ bounds[i + 1]?, (lower < v ∨ i = 0 ∧ lower ≤ v) ∧ v ≤ upper

instance (bounds : List Double) (i : Nat) (v : Double) : Decidable (InInterval bounds i v) :=
  inferInstanceAs (Decidable (∃ lower ∈ bounds[i]?, ∃ upper ∈ bounds[i + 1]?,
    (lower < v ∨ i = 0 ∧ lower ≤ v) ∧ v ≤ upper))

namespace FixedBuckets

/-- The bounds from the lowest up. -/
def bounds (f : FixedBuckets) : List Double := f.lowest :: f.intervals.map (·.upper)

/-- What fixed buckets can be made of. -/
structure Admissible (bounds : List Double) (labels : List String) : Prop where
  labels_ne : labels ≠ []
  length_eq : bounds.length = labels.length + 1
  isFinite : ∀ b ∈ bounds, b.isFinite = true
  increasing : bounds.Pairwise (· < ·)

variable {bounds : List Double} {labels : List String} {f : FixedBuckets} {i j : Nat}
  {a b v w : Double} {interval : Interval}

/-! ## Making buckets -/

/-- Between neighbours it is enough to look. -/
theorem notIncreasing?_eq_none_iff (h : ∀ b ∈ bounds, b.isFinite = true) :
    notIncreasing? bounds = none ↔ bounds.Pairwise (· < ·) := by
  rw [← List.isChain_iff_pairwise]
  induction bounds with
  | nil => simp [notIncreasing?]
  | cons a bounds ih =>
    cases bounds with
    | nil => simp [notIncreasing?]
    | cons b bounds =>
      obtain ⟨ha, hrest⟩ := List.forall_mem_cons.1 h
      have hb := hrest b List.mem_cons_self
      rw [notIncreasing?, List.isChain_cons_cons, ← ih hrest,
        ← Double.not_le_iff_lt (Double.ne_nan_of_isFinite hb) (Double.ne_nan_of_isFinite ha)]
      split_ifs with hle <;> simp [hle]

theorem mk_eq_iff {lowest : Double} {uppers : List Double} (h : uppers.length = labels.length) :
    ⟨lowest, List.zipWith Interval.mk labels uppers⟩ = f ↔
      f.bounds = lowest :: uppers ∧ f.intervals.map (·.label) = labels := by
  constructor
  · rintro rfl
    refine ⟨congrArg _ (List.ext_getElem (by simp [h]) (by simp)),
      List.ext_getElem (by simp [h]) (by simp)⟩
  · rintro ⟨hbounds, rfl⟩
    obtain ⟨rfl, rfl⟩ := List.cons_eq_cons.1 hbounds
    simp

theorem of_eq_ok_iff : of bounds labels = .ok f ↔
    Admissible bounds labels ∧ f.bounds = bounds ∧ f.intervals.map (·.label) = labels := by
  unfold of
  by_cases hlabels : labels = []
  · exact iff_of_false (by simp [hlabels]) fun h => h.1.labels_ne hlabels
  rw [if_neg (by simpa using hlabels)]
  cases bounds with
  | nil => exact iff_of_false nofun fun h => absurd h.1.length_eq (by simp)
  | cons lowest uppers =>
    dsimp only
    by_cases hlength : uppers.length = labels.length
    · rw [if_neg (not_not.2 hlength)]
      cases hfind : (lowest :: uppers).find? (!·.isFinite) with
      | some b =>
        refine iff_of_false nofun fun h => ?_
        have hb := h.1.isFinite b (List.mem_of_find?_eq_some hfind)
        simpa [hb] using List.find?_some hfind
      | none =>
        have hfinite : ∀ b ∈ lowest :: uppers, b.isFinite = true := by
          simpa using List.find?_eq_none.1 hfind
        cases hincreasing : notIncreasing? (lowest :: uppers) with
        | some pair =>
          refine iff_of_false nofun fun h => ?_
          rw [(notIncreasing?_eq_none_iff hfinite).2 h.1.increasing] at hincreasing
          cases hincreasing
        | none =>
          have hadmissible : Admissible (lowest :: uppers) labels :=
            { labels_ne := hlabels
              length_eq := congrArg (· + 1) hlength
              isFinite := hfinite
              increasing := (notIncreasing?_eq_none_iff hfinite).1 hincreasing }
          rw [Except.ok.injEq, mk_eq_iff hlength, and_iff_right hadmissible]
    · rw [if_pos hlength]
      exact iff_of_false nofun fun h => hlength (Nat.succ_injective h.1.length_eq)

theorem exists_of_eq_ok_iff : (∃ f, of bounds labels = .ok f) ↔ Admissible bounds labels := by
  constructor
  · rintro ⟨f, hf⟩
    exact (of_eq_ok_iff.1 hf).1
  · intro h
    cases bounds with
    | nil => exact absurd h.length_eq (by simp)
    | cons lowest uppers =>
      have hlength : uppers.length = labels.length := Nat.succ_injective h.length_eq
      exact ⟨_, of_eq_ok_iff.2 ⟨h, (mk_eq_iff hlength).1 rfl⟩⟩

/-! ## Intervals -/

section

variable (hfinite : ∀ b ∈ f.bounds, b.isFinite = true) (hincreasing : f.bounds.Pairwise (· < ·))

include hfinite hincreasing in
theorem bound_le_bound (hij : i ≤ j) (ha : f.bounds[i]? = some a) (hb : f.bounds[j]? = some b) :
    a ≤ b := by
  rcases hij.eq_or_lt with rfl | hlt
  · obtain rfl := Option.some.inj (ha.symm.trans hb)
    exact Double.le_refl (Double.ne_nan_of_isFinite (hfinite a (List.mem_of_getElem? ha)))
  · obtain ⟨hi, rfl⟩ := List.getElem?_eq_some_iff.1 ha
    obtain ⟨hj, rfl⟩ := List.getElem?_eq_some_iff.1 hb
    exact Double.le_of_lt (List.pairwise_iff_getElem.1 hincreasing i j hi hj hlt)

include hfinite hincreasing in
/-- A greater number lies in no earlier interval. -/
theorem index_le_index (hvw : v ≤ w) (hv : InInterval f.bounds i v) (hw : InInterval f.bounds j w) :
    i ≤ j := by
  obtain ⟨lower, hlower, -, -, habove, -⟩ := hv
  obtain ⟨-, -, upper, hupper, -, hbelow⟩ := hw
  refine Nat.le_of_not_lt fun hlt => ?_
  rcases habove with habove | ⟨rfl, -⟩
  · have hle := bound_le_bound hfinite hincreasing hlt hupper hlower
    have hless := Double.lt_of_le_of_lt (Double.le_trans (Double.le_trans hvw hbelow) hle) habove
    exact (Double.not_lt_iff_le (Double.ne_nan_of_lt hless).1 (Double.ne_nan_of_lt hless).1).2
      (Double.le_refl (Double.ne_nan_of_lt hless).1) hless
  · exact absurd hlt (Nat.not_lt_zero _)

include hfinite hincreasing in
theorem interval?_eq_some_iff (hv : v.isFinite = true) : f.interval? v = some interval ↔
    ∃ i, InInterval f.bounds i v ∧ f.intervals[i]? = some interval := by
  have hnan : v ≠ .nan := Double.ne_nan_of_isFinite hv
  have hupper {k : Nat} (hk : k < f.intervals.length) :
      f.bounds[k + 1]? = some f.intervals[k].upper := by
    simp [FixedBuckets.bounds, hk]
  have hupper_ne {k : Nat} (hk : k < f.intervals.length) : f.intervals[k].upper ≠ .nan :=
    Double.ne_nan_of_isFinite (hfinite _ (List.mem_of_getElem? (hupper hk)))
  rw [interval?]
  constructor
  · intro h
    obtain ⟨hlowest, hfind⟩ := Option.ite_none_right_eq_some.1 h
    obtain ⟨hle, i, hi, rfl, hbefore⟩ := List.find?_eq_some_iff_getElem.1 hfind
    refine ⟨i, ?_, List.getElem?_eq_getElem hi⟩
    cases i with
    | zero => exact ⟨f.lowest, rfl, _, hupper hi, .inr ⟨rfl, hlowest⟩, of_decide_eq_true hle⟩
    | succ k =>
      have habove := (Double.not_le_iff_lt hnan (hupper_ne (Nat.lt_of_succ_lt hi))).1
        (by simpa using hbefore k (Nat.lt_succ_self k))
      exact ⟨_, hupper _, _, hupper hi, .inl habove, of_decide_eq_true hle⟩
  · rintro ⟨i, ⟨lower, hlower, upper, hupper', habove, hle⟩, hget⟩
    obtain ⟨hi, rfl⟩ := List.getElem?_eq_some_iff.1 hget
    obtain rfl := Option.some.inj ((hupper hi).symm.trans hupper')
    have hlower_le : lower ≤ v := habove.elim Double.le_of_lt And.right
    have hlowest : f.lowest ≤ lower :=
      bound_le_bound hfinite hincreasing (Nat.zero_le i) rfl hlower
    refine Option.ite_none_right_eq_some.2 ⟨Double.le_trans hlowest hlower_le, ?_⟩
    refine List.find?_eq_some_iff_getElem.2 ⟨decide_eq_true hle, i, hi, rfl, fun k hk => ?_⟩
    rcases habove with habove | ⟨rfl, -⟩
    · have hkl := bound_le_bound hfinite hincreasing hk (hupper (hk.trans hi)) hlower
      simpa [Double.not_le_iff_lt hnan (hupper_ne (hk.trans hi))] using
        Double.lt_of_le_of_lt hkl habove
    · exact absurd hk (Nat.not_lt_zero k)

end

theorem getLast?_bounds (f : FixedBuckets) : f.bounds.getLast? = some f.highest := by
  rw [FixedBuckets.bounds, List.getLast?_cons, highest, List.getLast?_map]
  cases f.intervals.getLast? <;> rfl

theorem classify_eq_ok_iff {label : String} : (Buckets.fixed f).classify v = .ok label ↔
    v.isFinite = true ∧ ∃ interval, f.interval? v = some interval ∧ interval.label = label := by
  rw [Buckets.classify]
  split_ifs with hv
  · cases f.interval? v <;> simp [hv]
  · simp [hv]

/-- A number has the label of the interval that it lies in. -/
theorem classify_eq_ok_iff_inInterval (h : of bounds labels = .ok f) {label : String} :
    (Buckets.fixed f).classify v = .ok label ↔
      v.isFinite = true ∧ ∃ i, InInterval bounds i v ∧ labels[i]? = some label := by
  obtain ⟨hadmissible, rfl, rfl⟩ := of_eq_ok_iff.1 h
  rw [classify_eq_ok_iff]
  refine and_congr_right fun hv => ?_
  simp only [interval?_eq_some_iff hadmissible.isFinite hadmissible.increasing hv,
    List.getElem?_map, Option.map_eq_some_iff]
  constructor
  · rintro ⟨interval, ⟨i, hi, hinterval⟩, hlabel⟩
    exact ⟨i, hi, interval, hinterval, hlabel⟩
  · rintro ⟨i, hi, interval, hinterval, hlabel⟩
    exact ⟨interval, ⟨i, hi, hinterval⟩, hlabel⟩

theorem exists_classify_iff (h : of bounds labels = .ok f) :
    (∃ label, (Buckets.fixed f).classify v = .ok label) ↔ v.isFinite = true ∧
      ∃ lowest ∈ bounds.head?, ∃ highest ∈ bounds.getLast?, lowest ≤ v ∧ v ≤ highest := by
  obtain ⟨hadmissible, rfl, rfl⟩ := of_eq_ok_iff.1 h
  constructor
  · rintro ⟨label, hlabel⟩
    obtain ⟨hv, i, ⟨lower, hlower, upper, hupper, habove, hle⟩, -⟩ :=
      (classify_eq_ok_iff_inInterval h).1 hlabel
    have hbound {i j : Nat} {a b : Double} (hij : i ≤ j) := @bound_le_bound f i j a b
      hadmissible.isFinite hadmissible.increasing hij
    have hlast := getLast?_bounds f
    have hi : i + 1 ≤ f.bounds.length - 1 := by
      have := (List.getElem?_eq_some_iff.1 hupper).1
      omega
    refine ⟨hv, f.lowest, rfl, f.highest, hlast, ?_, ?_⟩
    · exact Double.le_trans (hbound (Nat.zero_le i) rfl hlower)
        (habove.elim Double.le_of_lt And.right)
    · rw [List.getLast?_eq_getElem?] at hlast
      exact Double.le_trans hle (hbound hi hupper hlast)
  · rintro ⟨hv, lowest, hlowest, highest, hhighest, hle, hle'⟩
    obtain rfl := Option.some.inj hlowest
    obtain rfl := Option.some.inj ((getLast?_bounds f).symm.trans hhighest)
    have hne : f.intervals ≠ [] := fun hnil =>
      hadmissible.labels_ne (List.map_eq_nil_iff.2 hnil)
    have hlast : f.highest = (f.intervals.getLast hne).upper := by
      rw [highest, List.getLast?_eq_some_getLast hne]
    have hfind : (f.intervals.find? fun i => decide (v ≤ i.upper)).isSome = true :=
      List.find?_isSome.2 ⟨_, List.getLast_mem hne, decide_eq_true (hlast ▸ hle')⟩
    obtain ⟨interval, hinterval⟩ := Option.isSome_iff_exists.1 hfind
    exact ⟨interval.label, classify_eq_ok_iff.2
      ⟨hv, interval, by rw [interval?, if_pos hle, hinterval], rfl⟩⟩

/-! ## Bounds by their indices -/

/-- Classification with every bound taken by its index, if no index is out of range. -/
def classifyByIndex? (bounds : List Double) (labels : List String) (v : Double) :
    Option (Except BucketFault String) := do
  if !v.isFinite then return .error (.notFinite v)
  let lowest ← bounds[0]?
  let uppers ← bounds.tail?
  if lowest ≤ v then
    if let some (label, _) := (labels.zip uppers).find? fun (_, upper) => decide (v ≤ upper) then
      return .ok label
  let highest ← bounds[bounds.length - 1]?
  return .error (.outside v lowest highest)

/-- The interval with an index in words, if its bounds are not out of range. -/
def thresholdByIndex? (bounds : List Double) : String × Nat → Option String
  | (label, i) => do
    let lower ← bounds[i]?
    let upper ← bounds[i + 1]?
    let bracket := if i = 0 then "[" else "("
    return s!"{label}: {bracket}{lower.plain}, {upper.plain}]"

/-- The intervals in words with every bound taken by its index, if no index is out of range. -/
def thresholdsByIndex? (bounds : List Double) (labels : List String) : Option (List String) :=
  labels.zipIdx.mapM (thresholdByIndex? bounds)

theorem classifyByIndex?_eq (h : of bounds labels = .ok f) (v : Double) :
    classifyByIndex? bounds labels v = some ((Buckets.fixed f).classify v) := by
  obtain ⟨-, rfl, rfl⟩ := of_eq_ok_iff.1 h
  have hlowest : f.bounds[0]? = some f.lowest := rfl
  have huppers : f.bounds.tail? = some (f.intervals.map (·.upper)) := rfl
  have hhighest := List.getLast?_eq_getElem?.symm.trans (getLast?_bounds f)
  have hfind : ((f.intervals.map (·.label)).zip (f.intervals.map (·.upper))).find?
      (fun p => decide (v ≤ p.2)) =
      (f.intervals.find? fun i => decide (v ≤ i.upper)).map fun i => (i.label, i.upper) := by
    rw [List.zip_map', List.find?_map]
    rfl
  rw [classifyByIndex?, Buckets.classify, hlowest, huppers, hhighest]
  by_cases hv : v.isFinite = true
  · by_cases hle : f.lowest ≤ v
    · simp only [hv, hle, interval?, Option.bind_eq_bind, Option.bind_some, if_true, hfind]
      cases f.intervals.find? fun i => decide (v ≤ i.upper) <;> rfl
    · simp [hv, hle, interval?]
  · simp [hv]

/-- From an index on, when the bounds from there on are known. -/
theorem mapM_thresholdByIndex? {intervals : List Interval} {lower : Double}
    (h : bounds.drop i = lower :: intervals.map (·.upper)) :
    ((intervals.map (·.label)).zipIdx i).mapM (thresholdByIndex? bounds) =
      some (thresholds.go (if i = 0 then "[" else "(") lower intervals) := by
  induction intervals generalizing i lower with
  | nil => rfl
  | cons interval intervals ih =>
    have hlower : bounds[i]? = some lower := by
      simpa [h] using (@List.getElem?_drop _ bounds i 0).symm
    have hupper : bounds[i + 1]? = some interval.upper := by
      simpa [h] using (@List.getElem?_drop _ bounds i 1).symm
    have hrest : bounds.drop (i + 1) = interval.upper :: intervals.map (·.upper) := by
      rw [← List.drop_drop, h]
      rfl
    have ih := ih hrest
    rw [if_neg (Nat.succ_ne_zero i)] at ih
    rw [List.map_cons, List.zipIdx_cons, List.mapM_cons, ih, thresholdByIndex?, hlower, hupper]
    rfl

theorem thresholdsByIndex?_eq (h : of bounds labels = .ok f) :
    thresholdsByIndex? bounds labels = some f.thresholds := by
  obtain ⟨-, rfl, rfl⟩ := of_eq_ok_iff.1 h
  exact mapM_thresholdByIndex? rfl

/-! ## The partition -/

/-- The buckets partition the range of their bounds, and every bound they are found by is there. -/
structure Partitions (f : FixedBuckets) (bounds : List Double) (labels : List String) : Prop where
  classifies_iff : ∀ v, (∃ label, (Buckets.fixed f).classify v = .ok label) ↔ v.isFinite = true ∧
    ∃ lowest ∈ bounds.head?, ∃ highest ∈ bounds.getLast?, lowest ≤ v ∧ v ≤ highest
  classify_eq : ∀ v label, (Buckets.fixed f).classify v = .ok label →
    ∃ i, labels[i]? = some label ∧ InInterval bounds i v ∧ ∀ j, InInterval bounds j v → j = i
  index_mono : ∀ v w i j, v ≤ w → InInterval bounds i v → InInterval bounds j w → i ≤ j
  classifyByIndex_eq : ∀ v,
    classifyByIndex? bounds labels v = some ((Buckets.fixed f).classify v)
  thresholdsByIndex_eq : thresholdsByIndex? bounds labels = some f.thresholds

/-- Fixed buckets are made of admissible bounds and labels and of no others, and partition the
range of the bounds. -/
theorem partition (bounds : List Double) (labels : List String) :
    ((∃ f, of bounds labels = .ok f) ↔ Admissible bounds labels) ∧
      ∀ f, of bounds labels = .ok f → Partitions f bounds labels := by
  refine ⟨exists_of_eq_ok_iff, fun f h => ?_⟩
  have hmono {v w : Double} {i j : Nat} (hvw : v ≤ w) (hv : InInterval bounds i v)
      (hw : InInterval bounds j w) : i ≤ j := by
    obtain ⟨hadmissible, rfl, -⟩ := of_eq_ok_iff.1 h
    exact index_le_index hadmissible.isFinite hadmissible.increasing hvw hv hw
  refine
    { classifies_iff := fun v => exists_classify_iff h
      classify_eq := fun v label hlabel => ?_
      index_mono := fun v w i j => hmono
      classifyByIndex_eq := classifyByIndex?_eq h
      thresholdsByIndex_eq := thresholdsByIndex?_eq h }
  obtain ⟨hv, i, hi, hlabel⟩ := (classify_eq_ok_iff_inInterval h).1 hlabel
  have hrefl := Double.le_refl (Double.ne_nan_of_isFinite hv)
  exact ⟨i, hlabel, hi, fun j hj => Nat.le_antisymm (hmono hrefl hj hi) (hmono hrefl hi hj)⟩

theorem partition_sample : Admissible [0, 10, 20] ["short", "long"] ∧
    ∃ f, of [0, 10, 20] ["short", "long"] = .ok f ∧
      Partitions f [0, 10, 20] ["short", "long"] := by
  have hof : of [0, 10, 20] ["short", "long"] = .ok ⟨0, [⟨"short", 10⟩, ⟨"long", 20⟩]⟩ := by
    decide +kernel
  have hpartition := partition [0, 10, 20] ["short", "long"]
  exact ⟨hpartition.1.1 ⟨_, hof⟩, _, hof, hpartition.2 _ hof⟩

end FixedBuckets

end LoadReplay
