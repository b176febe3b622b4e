import LoadReplay.Double.Arithmetic
import LoadReplay.Duration
import LoadReplay.Proofs.Double.Rounding

/-!
# The order of binary64 numbers

Finite numbers are compared by their places (`le_iff_place`), whatever the signs of zeros. Since
rounding keeps the order, a finite positive factor keeps it too (`mul_le_mul_of_pos`), and so does
the duration of a number of seconds (`Duration.le_of_ofSeconds?`).
-/

namespace LoadReplay

namespace Double

variable {a b : Double}

theorem exists_of_isFinite (h : a.isFinite = true) : ∃ negative rank, a = finite negative rank := by
  cases a with
  | finite negative rank => exact ⟨negative, rank, rfl⟩
  | nan => cases h
  | infinite negative => cases h

theorem ne_nan_of_isFinite (h : a.isFinite = true) : a ≠ nan := by
  rintro rfl
  cases h

theorem le_iff_place (ha : a ≠ nan) (hb : b ≠ nan) : a ≤ b ↔ a.place ≤ b.place := by
  change le a b = true ↔ _
  simp [le, ha, hb]

theorem lt_iff_place (ha : a ≠ nan) (hb : b ≠ nan) : a < b ↔ a.place < b.place := by
  change lt a b = true ↔ _
  simp [lt, ha, hb]

theorem ne_nan_of_le (h : a ≤ b) : a ≠ nan ∧ b ≠ nan := by
  change le a b = true at h
  simp only [le, Bool.and_eq_true, bne_iff_ne] at h
  exact h.1

theorem ne_nan_of_lt (h : a < b) : a ≠ nan ∧ b ≠ nan := by
  change lt a b = true at h
  simp only [lt, Bool.and_eq_true, bne_iff_ne] at h
  exact h.1

theorem place_le_of_le (h : a ≤ b) : a.place ≤ b.place :=
  (le_iff_place (ne_nan_of_le h).1 (ne_nan_of_le h).2).1 h

theorem not_lt_iff_le (ha : a ≠ nan) (hb : b ≠ nan) : ¬ a < b ↔ b ≤ a := by
  rw [lt_iff_place ha hb, le_iff_place hb ha, Int.not_lt]

protected theorem le_trans {c : Double} (hab : a ≤ b) (hbc : b ≤ c) : a ≤ c :=
  (le_iff_place (ne_nan_of_le hab).1 (ne_nan_of_le hbc).2).2
    ((place_le_of_le hab).trans (place_le_of_le hbc))

theorem not_le_iff_lt (ha : a ≠ nan) (hb : b ≠ nan) : ¬ a ≤ b ↔ b < a := by
  rw [le_iff_place ha hb, lt_iff_place hb ha, Int.not_le]

protected theorem le_of_lt (h : a < b) : a ≤ b :=
  (le_iff_place (ne_nan_of_lt h).1 (ne_nan_of_lt h).2).2
    ((lt_iff_place (ne_nan_of_lt h).1 (ne_nan_of_lt h).2).1 h).le

protected theorem le_refl (h : a ≠ nan) : a ≤ a := (le_iff_place h h).2 le_rfl

protected theorem lt_of_le_of_lt {c : Double} (hab : a ≤ b) (hbc : b < c) : a < c :=
  (lt_iff_place (ne_nan_of_le hab).1 (ne_nan_of_lt hbc).2).2
    ((place_le_of_le hab).trans_lt ((lt_iff_place (ne_nan_of_lt hbc).1 (ne_nan_of_lt hbc).2).1 hbc))

instance : IsTrans Double (· < ·) :=
  ⟨fun _ _ _ hab hbc => Double.lt_of_le_of_lt (Double.le_of_lt hab) hbc⟩

/-- The total order leaves room for a negative zero. -/
theorem totalPlace_eq (ha : a ≠ nan) :
    a.totalPlace = if a.isNegative then a.place - 1 else a.place := by
  rcases a with _ | ⟨_ | _⟩ | ⟨_ | _, r⟩
  · exact absurd rfl ha
  all_goals rfl

theorem le_of_totalLe (ha : a.isFinite = true) (hb : b.isFinite = true)
    (h : totalLe a b = true) : a ≤ b := by
  have hle : a.totalPlace ≤ b.totalPlace := of_decide_eq_true h
  obtain ⟨s, r, rfl⟩ := exists_of_isFinite ha
  obtain ⟨t, q, rfl⟩ := exists_of_isFinite hb
  rw [le_iff_place (ne_nan_of_isFinite ha) (ne_nan_of_isFinite hb)]
  cases s <;> cases t <;> simp only [place, totalPlace] at hle ⊢ <;> omega

theorem place_zero : place 0 = 0 := by decide

theorem pos_finite_iff {negative : Bool} {rank : Fin infiniteRank} :
    0 < finite negative rank ↔ negative = false ∧ 0 < rank.val := by
  rw [lt_iff_place (show (0 : Double) ≠ nan by decide) (ne_nan_of_isFinite rfl), place_zero]
  cases negative <;> simp [place]

theorem finite_lt_finite_iff {rank other : Fin infiniteRank} :
    finite false rank < finite false other ↔ rank.val < other.val := by
  rw [lt_iff_place (ne_nan_of_isFinite rfl) (ne_nan_of_isFinite rfl)]
  simp [place]

/-- Between zero and a finite number there are finite numbers only. -/
theorem between_iff {bound : Fin infiniteRank} : 0 < a ∧ a < finite false bound ↔
    ∃ rank, a = finite false rank ∧ 0 < rank.val ∧ rank.val < bound.val := by
  constructor
  · rintro ⟨hpos, hlt⟩
    cases a with
    | finite negative rank =>
      obtain ⟨rfl, hrank⟩ := pos_finite_iff.1 hpos
      exact ⟨rank, rfl, hrank, finite_lt_finite_iff.1 hlt⟩
    | nan => exact absurd rfl (ne_nan_of_lt hlt).1
    | infinite negative =>
      rw [lt_iff_place (ne_nan_of_lt hpos).1 (ne_nan_of_lt hpos).2, place_zero] at hpos
      rw [lt_iff_place (ne_nan_of_lt hlt).1 (ne_nan_of_lt hlt).2] at hlt
      have := bound.isLt
      cases negative <;> simp only [place] at hpos hlt <;> omega
  · rintro ⟨rank, rfl, hrank, hlt⟩
    exact ⟨pos_finite_iff.2 ⟨rfl, hrank⟩, finite_lt_finite_iff.2 hlt⟩

/-! ## Products -/

theorem ofRank_ne_nan (negative : Bool) (rank : Nat) : ofRank negative rank ≠ nan := by
  unfold ofRank
  split <;> nofun

/-- Past the finite magnitudes all ranks have the place of infinity. -/
theorem place_ofRank (negative : Bool) (rank : Nat) :
    (ofRank negative rank).place =
      if negative then -((min rank infiniteRank : Nat) : Int)
      else (min rank infiniteRank : Nat) := by
  unfold ofRank
  split
  next h =>
    rw [Nat.min_eq_left h.le]
    cases negative <;> rfl
  next h =>
    rw [Nat.min_eq_right (Nat.not_lt.1 h)]
    cases negative <;> rfl

theorem finite_mul_finite (n m : Bool) (r q : Fin infiniteRank) :
    finite n r * finite m q = ofRank (n != m) (roundRank (quanta r * quanta q) unit) := by
  change mul (finite n r) (finite m q) = _
  simp only [mul, ofQuotient]

theorem unit_pos : 0 < unit := by
  rw [unit, Nat.shiftLeft_eq]
  positivity

theorem roundRank_mul_le {r s : Nat} (h : r ≤ s) (q : Nat) :
    roundRank (quanta r * quanta q) unit ≤ roundRank (quanta s * quanta q) unit :=
  roundRank_le_roundRank unit_pos unit_pos <|
    Nat.mul_le_mul_right _ <| Nat.mul_le_mul_right _ <| quanta_strictMono.monotone h

theorem roundRank_zero_mul (q : Nat) : roundRank (quanta 0 * quanta q) unit = 0 := by
  rw [quanta_zero, Nat.zero_mul]
  decide

/-- A finite positive factor keeps the order of finite numbers. -/
theorem mul_le_mul_of_pos {s : Double} (ha : a.isFinite = true) (hb : b.isFinite = true)
    (hs : s.isFinite = true) (hpos : 0 < s) (h : a ≤ b) : a * s ≤ b * s := by
  obtain ⟨n, r, rfl⟩ := exists_of_isFinite ha
  obtain ⟨m, q, rfl⟩ := exists_of_isFinite hb
  obtain ⟨negative, k, rfl⟩ := exists_of_isFinite hs
  obtain ⟨rfl, -⟩ := pos_finite_iff.1 hpos
  have hplace := place_le_of_le h
  rw [finite_mul_finite, finite_mul_finite,
    le_iff_place (ofRank_ne_nan _ _) (ofRank_ne_nan _ _), place_ofRank, place_ofRank]
  cases n <;> cases m <;> simp only [place] at hplace
  case false.false =>
    have := roundRank_mul_le (show r.val ≤ q.val by omega) k
    simp only [bne_self_eq_false, Bool.false_eq_true, if_false]
    omega
  case false.true =>
    -- only the two zeros compare like this, and their products are zeros
    rw [show r.val = 0 by omega, show q.val = 0 by omega, roundRank_zero_mul]
    simp
  case true.false =>
    simp only [Bool.true_bne, Bool.not_false, bne_self_eq_false, Bool.false_eq_true, if_false,
      if_true]
    omega
  case true.true =>
    have := roundRank_mul_le (show q.val ≤ r.val by omega) k
    simp only [Bool.true_bne, Bool.not_false, if_true]
    omega

end Double

/-! ## Durations -/

namespace Duration

open Double

/-- Only finite numbers that are zero or positive are durations of seconds. -/
theorem exists_of_ofSeconds? {x : Double} {d : Duration} (h : ofSeconds? x = some d) :
    ∃ negative rank, x = finite negative rank ∧ (negative = true → rank.val = 0) ∧
      d = roundHalfEven (quanta rank * second) unit := by
  cases x with
  | nan => cases h
  | infinite negative => cases h
  | finite negative rank =>
    refine ⟨negative, rank, rfl, ?_⟩
    simp only [ofSeconds?] at h
    split at h
    next hzero =>
      refine ⟨fun _ => hzero, ?_⟩
      rw [hzero, quanta_zero, Nat.zero_mul, ← Option.some.inj h]
      decide
    next =>
      split at h
      · cases h
      next hsign =>
        split at h
        · cases h
        · exact ⟨fun hn => absurd hn hsign, (Option.some.inj h).symm⟩

/-- More seconds are no shorter a duration. -/
theorem le_of_ofSeconds? {x y : Double} {d e : Duration} (h : x ≤ y)
    (hx : ofSeconds? x = some d) (hy : ofSeconds? y = some e) : d ≤ e := by
  obtain ⟨n, r, rfl, hr, rfl⟩ := exists_of_ofSeconds? hx
  obtain ⟨m, q, rfl, hq, rfl⟩ := exists_of_ofSeconds? hy
  have hrank : r.val ≤ q.val := by
    have hplace := place_le_of_le h
    cases n <;> cases m <;> simp only [place] at hplace
    · omega
    · have := hq rfl
      omega
    · have := hr rfl
      omega
    · have := hr rfl
      omega
  refine roundHalfEven_le_roundHalfEven unit_pos unit_pos ?_
  exact Nat.mul_le_mul_right _ (Nat.mul_le_mul_right _ (quanta_strictMono.monotone hrank))

end Duration

end LoadReplay
