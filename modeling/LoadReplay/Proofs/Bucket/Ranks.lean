import Mathlib.Algebra.Order.Floor.Semifield
import Mathlib.Algebra.Order.Ring.Rat
import Mathlib.Data.List.GetD
import Mathlib.Data.Rat.Floor
import Mathlib.Tactic.LinearCombination

/-!
# Values at the ranks of a sorted column

Between two neighbouring numbers of a sorted column lie the values that are interpolated for the
ranks between them. At a rank that is a whole number of quarters the value is one as well, and it is
`quartersAt` of them. Such values increase with the rank (`quartersAt_mono`), the numbers up to the
rank are not above the value (`lt_countP_quartersAt`), and where no two numbers are alike the others
are (`countP_quartersAt`).
-/

namespace LoadReplay.Column

/-- The value at a rank of a sorted column, on the line between the two numbers around it. -/
def interpolated (sorted : List Nat) (rank : ℚ) : ℚ :=
  let below : ℚ := sorted.getD ⌊rank⌋₊ 0
  let above : ℚ := sorted.getD ⌈rank⌉₊ 0
  below + (above - below) * (rank - ⌊rank⌋₊)

/-- Four times the value at the rank `j / 4`. -/
def quartersAt (sorted : List Nat) (j : Nat) : Nat :=
  4 * sorted.getD (j / 4) 0 +
    (sorted.getD ((j + 3) / 4) 0 - sorted.getD (j / 4) 0) * (j % 4)

variable {sorted : List Nat} {i j k : Nat}

/-! ## The order of a sorted column -/

theorem getD_mono (h : sorted.Pairwise (· ≤ ·)) (hij : i ≤ j) (hj : j < sorted.length) :
    sorted.getD i 0 ≤ sorted.getD j 0 := by
  rw [List.getD_eq_getElem _ _ hj, List.getD_eq_getElem _ _ (hij.trans_lt hj)]
  rcases hij.eq_or_lt with rfl | hlt
  · exact le_rfl
  · exact List.pairwise_iff_getElem.1 h i j _ hj hlt

theorem getD_strictMono (h : sorted.Pairwise (· < ·)) (hij : i < j) (hj : j < sorted.length) :
    sorted.getD i 0 < sorted.getD j 0 := by
  rw [List.getD_eq_getElem _ _ hj, List.getD_eq_getElem _ _ (hij.trans hj)]
  exact List.pairwise_iff_getElem.1 h i j _ hj hij

theorem getD_mem (hi : i < sorted.length) : sorted.getD i 0 ∈ sorted := by
  rw [List.getD_eq_getElem _ _ hi]
  exact List.getElem_mem hi

/-- The first and the last number of a sorted column are its least and its greatest. -/
theorem getD_le_of_mem (h : sorted.Pairwise (· ≤ ·)) {c : Nat} (hc : c ∈ sorted) :
    sorted.getD 0 0 ≤ c ∧ c ≤ sorted.getD (sorted.length - 1) 0 := by
  obtain ⟨i, hi, rfl⟩ := List.getElem_of_mem hc
  rw [← List.getD_eq_getElem sorted 0 hi]
  exact ⟨getD_mono h (Nat.zero_le i) hi, getD_mono h (by omega) (by omega)⟩

/-- Where a property holds of the first elements of a list only, it counts them. -/
theorem lt_countP_iff {α : Type} {p : α → Bool} {xs : List α}
    (h : xs.Pairwise fun a b => p b = true → p a = true) :
    i < xs.countP p ↔ ∃ a ∈ xs[i]?, p a = true := by
  induction xs generalizing i with
  | nil => simp
  | cons x xs ih =>
    obtain ⟨hx, hxs⟩ := List.pairwise_cons.1 h
    by_cases hp : p x = true
    · cases i with
      | zero => simp [hp]
      | succ i => simpa [hp] using ih hxs
    · have hnone : xs.countP p = 0 := List.countP_eq_zero.2 fun a ha hpa => hp (hx a ha hpa)
      refine iff_of_false (by simp [hp, hnone]) ?_
      rintro ⟨a, ha, hpa⟩
      rcases List.mem_cons.1 (List.mem_of_getElem? ha) with rfl | hmem
      · exact hp hpa
      · exact hp (hx a hmem hpa)

theorem lt_countP_four_mul_le_iff (h : sorted.Pairwise (· ≤ ·)) (hi : i < sorted.length)
    {bound : Nat} :
    i < (sorted.countP fun c => decide (4 * c ≤ bound)) ↔ 4 * sorted.getD i 0 ≤ bound := by
  rw [lt_countP_iff (h.imp fun {a b} hab => by simp only [decide_eq_true_eq]; omega),
    List.getElem?_eq_getElem hi, List.getD_eq_getElem _ _ hi]
  simp

/-! ## Values at quarters -/

/-- The rank `j / 4` is one of a column of which `j / 4` numbers are not the last. -/
theorem div_lt_length (hj : j + 4 ≤ 4 * sorted.length) :
    j / 4 < sorted.length ∧ (j + 3) / 4 < sorted.length := by
  omega

theorem le_quartersAt (sorted : List Nat) (j : Nat) :
    4 * sorted.getD (j / 4) 0 ≤ quartersAt sorted j :=
  Nat.le_add_right _ _

theorem quartersAt_le (h : sorted.Pairwise (· ≤ ·)) (hj : j + 4 ≤ 4 * sorted.length) :
    quartersAt sorted j ≤ 4 * sorted.getD ((j + 3) / 4) 0 := by
  have hle := getD_mono h (show j / 4 ≤ (j + 3) / 4 by omega) (div_lt_length hj).2
  have hpart : (sorted.getD ((j + 3) / 4) 0 - sorted.getD (j / 4) 0) * (j % 4) ≤
      (sorted.getD ((j + 3) / 4) 0 - sorted.getD (j / 4) 0) * 4 :=
    Nat.mul_le_mul_left _ (by omega)
  unfold quartersAt
  omega

theorem quartersAt_mono (h : sorted.Pairwise (· ≤ ·)) (hjk : j ≤ k)
    (hk : k + 4 ≤ 4 * sorted.length) : quartersAt sorted j ≤ quartersAt sorted k := by
  rcases (show j / 4 ≤ k / 4 by omega).eq_or_lt with heq | hlt
  · -- between the same two numbers
    rcases Nat.eq_zero_or_pos (j % 4) with hzero | hpos
    · rw [quartersAt, hzero, Nat.mul_zero, Nat.add_zero, heq]
      exact le_quartersAt sorted k
    · have habove : (j + 3) / 4 = (k + 3) / 4 := by omega
      unfold quartersAt
      rw [heq, habove]
      exact Nat.add_le_add_left (Nat.mul_le_mul_left _ (by omega)) _
  · calc quartersAt sorted j ≤ 4 * sorted.getD ((j + 3) / 4) 0 := quartersAt_le h (by omega)
      _ ≤ 4 * sorted.getD (k / 4) 0 :=
        Nat.mul_le_mul_left _ (getD_mono h (by omega) (div_lt_length hk).1)
      _ ≤ quartersAt sorted k := le_quartersAt sorted k

/-- The numbers up to a rank are not above its value. -/
theorem lt_countP_quartersAt (h : sorted.Pairwise (· ≤ ·)) (hj : j + 4 ≤ 4 * sorted.length) :
    j / 4 < sorted.countP fun c => decide (4 * c ≤ quartersAt sorted j) :=
  (lt_countP_four_mul_le_iff h (div_lt_length hj).1).2 (le_quartersAt sorted j)

/-- Where no two numbers are alike, the numbers behind a rank are above its value. -/
theorem countP_quartersAt (h : sorted.Pairwise (· < ·)) (hj : j + 4 ≤ 4 * sorted.length) :
    (sorted.countP fun c => decide (4 * c ≤ quartersAt sorted j)) = j / 4 + 1 := by
  have hle : sorted.Pairwise (· ≤ ·) := h.imp le_of_lt
  have hlower := lt_countP_quartersAt hle hj
  refine le_antisymm (Nat.le_of_not_lt fun hlt => ?_) hlower
  have hnext : j / 4 + 1 < sorted.length := hlt.trans_le List.countP_le_length
  have hvalue := (lt_countP_four_mul_le_iff hle hnext).1 hlt
  have hgap := getD_strictMono h (show j / 4 < j / 4 + 1 by omega) hnext
  rcases Nat.eq_zero_or_pos (j % 4) with hzero | hpos
  · rw [quartersAt, hzero, Nat.mul_zero] at hvalue
    omega
  · have hpart : (sorted.getD (j / 4 + 1) 0 - sorted.getD (j / 4) 0) * (j % 4) ≤
        (sorted.getD (j / 4 + 1) 0 - sorted.getD (j / 4) 0) * 3 :=
      Nat.mul_le_mul_left _ (by omega)
    rw [quartersAt, show (j + 3) / 4 = j / 4 + 1 by omega] at hvalue
    omega

theorem interpolated_div_four (h : sorted.Pairwise (· ≤ ·)) (hj : j + 4 ≤ 4 * sorted.length) :
    interpolated sorted ((j : ℚ) / 4) = (quartersAt sorted j : ℚ) / 4 := by
  have hfloor : ⌊(j : ℚ) / 4⌋₊ = j / 4 := Nat.floor_div_eq_div j 4
  have hceil : ⌈(j : ℚ) / 4⌉₊ = (j + 3) / 4 := by
    refine eq_of_forall_ge_iff fun n => ?_
    rw [Nat.ceil_le, div_le_iff₀ (by norm_num)]
    norm_cast
    omega
  have hsplit : (j : ℚ) = 4 * (j / 4 : Nat) + (j % 4 : Nat) := by
    exact_mod_cast (Nat.div_add_mod j 4).symm
  have hle := getD_mono h (show j / 4 ≤ (j + 3) / 4 by omega) (div_lt_length hj).2
  rw [interpolated, hfloor, hceil, quartersAt]
  push_cast [Nat.cast_sub hle]
  linear_combination (sorted.getD ((j + 3) / 4) 0 - sorted.getD (j / 4) 0 : ℚ) / 4 * hsplit

end LoadReplay.Column
