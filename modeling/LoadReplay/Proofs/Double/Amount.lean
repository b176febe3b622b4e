import LoadReplay.Proofs.Double.Exact

/-!
# Amounts

An amount is a finite number that is not negative, given by its quanta; a zero of either sign is the
amount of no quanta. `rounded` is the number of quanta that a quotient is rounded to. Rounding keeps
the order and leaves the amounts of numbers as they are, so it never leaves the range between two
numbers (`IsAmount.le_rounded`, `IsAmount.rounded_le`): whatever stays below a number can be added,
multiplied and divided without an overflow.
-/

namespace LoadReplay.Double

variable {x y z : Double} {a b c n num den num' den' : Nat}

/-! ## Rounding -/

/-- The number of quanta that a quotient of quanta is rounded to. -/
def rounded (num den : Nat) : Nat := quanta (roundRank num den)

theorem rounded_le_rounded (hden : 0 < den) (hden' : 0 < den') (h : num * den' ≤ num' * den) :
    rounded num den ≤ rounded num' den' :=
  quanta_strictMono.monotone (roundRank_le_roundRank hden hden' h)

theorem rounded_one_mono (h : a ≤ b) : rounded a 1 ≤ rounded b 1 :=
  rounded_le_rounded Nat.one_pos Nat.one_pos (by omega)

theorem rounded_mul_right (hden : 0 < den) (hn : 0 < n) :
    rounded (num * n) (den * n) = rounded num den :=
  congrArg quanta (roundRank_mul_right hden hn)

theorem rounded_mul_unit (num : Nat) : rounded (num * unit) unit = rounded num 1 := by
  rw [← rounded_mul_right Nat.one_pos unit_pos, Nat.one_mul]

/-- The magnitude of a number is not rounded. -/
theorem rounded_quanta (rank : Nat) : rounded (quanta rank) 1 = quanta rank := by
  obtain ⟨digits, places, hquanta, hdigits⟩ := exists_quanta_eq rank
  rw [hquanta]
  refine quanta_roundRank_of_lt (Nat.dvd_mul_left _ _) ?_
  rw [Nat.pow_add, Nat.mul_comm (2 ^ places)]
  exact Nat.mul_lt_mul_of_pos_right hdigits (Nat.two_pow_pos places)

theorem rounded_zero (den : Nat) : rounded 0 den = 0 := by
  have hrank : roundRank 0 den = 0 := by simp [roundRank, roundHalfEven]
  rw [rounded, hrank, quanta_zero]

/-! ## Numbers and their amounts -/

/-- The number is finite and has so many quanta; a zero may have either sign. -/
def IsAmount (x : Double) (a : Nat) : Prop := x.isFinite = true ∧ x.inQuanta = a

theorem IsAmount.exists_rank (h : IsAmount x a) : ∃ negative rank,
    x = finite negative rank ∧ quanta rank.val = a ∧ (negative = true → rank.val = 0) := by
  obtain ⟨hfinite, hquanta⟩ := h
  obtain ⟨negative, rank, rfl⟩ := exists_of_isFinite hfinite
  cases negative with
  | false => exact ⟨_, _, rfl, Int.ofNat.inj hquanta, nofun⟩
  | true =>
    have hzero : quanta rank.val = 0 ∧ a = 0 := by
      simp only [inQuanta] at hquanta
      omega
    have hrank : rank.val = 0 := quanta_strictMono.injective (hzero.1.trans quanta_zero.symm)
    exact ⟨_, _, rfl, hzero.1.trans hzero.2.symm, fun _ => hrank⟩

theorem IsQuanta.isAmount (h : IsQuanta x a) : IsAmount x a := by
  obtain ⟨rank, rfl, rfl⟩ := h
  exact ⟨rfl, rfl⟩

theorem isAmount_signedZero (negative : Bool) : IsAmount (zero negative) 0 := by
  cases negative <;> exact ⟨rfl, rfl⟩

theorem IsAmount.unique (h : IsAmount x a) (h' : IsAmount x b) : a = b :=
  Int.ofNat.inj (h.2.symm.trans h'.2)

theorem IsAmount.le_iff (hx : IsAmount x a) (hy : IsAmount y b) : x ≤ y ↔ a ≤ b := by
  obtain ⟨s, r, rfl, rfl, hr⟩ := hx.exists_rank
  obtain ⟨t, q, rfl, rfl, hq⟩ := hy.exists_rank
  rw [le_iff_place (ne_nan_of_isFinite rfl) (ne_nan_of_isFinite rfl), quanta_strictMono.le_iff_le]
  cases s <;> cases t <;> simp only [place] <;> simp at hr hq <;> omega

/-- Numbers of one amount are alike, but for the sign of a zero. -/
theorem IsAmount.eq_of_isNegative (hx : IsAmount x a) (hy : IsAmount y a)
    (hsx : x.isNegative = false) (hsy : y.isNegative = false) : x = y := by
  obtain ⟨s, r, rfl, rfl, -⟩ := hx.exists_rank
  obtain ⟨t, q, rfl, heq, -⟩ := hy.exists_rank
  obtain rfl : q = r := Fin.ext (quanta_strictMono.injective heq)
  obtain rfl : s = false := hsx
  obtain rfl : t = false := hsy
  rfl

/-- What lies between zero and an amount is an amount. -/
theorem exists_isAmount_of_le (hzero : 0 ≤ x) (hle : x ≤ y) (hy : IsAmount y b) :
    ∃ a ≤ b, IsAmount x a := by
  obtain ⟨t, q, rfl, -, hq⟩ := hy.exists_rank
  have hlower := place_le_of_le hzero
  have hupper := place_le_of_le hle
  rw [place_zero] at hlower
  have hfinite : ∃ a, IsAmount x a := by
    have hbound := q.isLt
    rcases x with _ | s | ⟨s, r⟩
    · exact absurd rfl (ne_nan_of_le hle).1
    · cases s <;> cases t <;> simp only [place] at hlower hupper <;> omega
    · refine ⟨quanta r.val, rfl, ?_⟩
      cases s with
      | false => rfl
      | true =>
        have hr : r.val = 0 := by
          simp only [place] at hlower
          omega
        simp [inQuanta, hr, quanta_zero]
  obtain ⟨a, ha⟩ := hfinite
  exact ⟨a, (ha.le_iff hy).1 hle, ha⟩

/-! ## Rounding between amounts -/

theorem IsAmount.rounded_self (h : IsAmount x a) : rounded a 1 = a := by
  obtain ⟨s, r, -, rfl, -⟩ := h.exists_rank
  exact rounded_quanta r.val

theorem IsAmount.rounded_le (h : IsAmount x a) (hden : 0 < den) (hle : num ≤ a * den) :
    rounded num den ≤ a := by
  rw [← h.rounded_self]
  exact rounded_le_rounded hden Nat.one_pos (by omega)

theorem IsAmount.le_rounded (h : IsAmount x a) (hden : 0 < den) (hle : a * den ≤ num) :
    a ≤ rounded num den := by
  rw [← h.rounded_self]
  exact rounded_le_rounded Nat.one_pos hden (by omega)

theorem IsAmount.rounded_eq (h : IsAmount x a) (hden : 0 < den) (heq : num = a * den) :
    rounded num den = a :=
  le_antisymm (h.rounded_le hden heq.le) (h.le_rounded hden heq.ge)

/-- A quotient that is not above a number is rounded to a number. -/
theorem IsAmount.ofQuotient (h : IsAmount x a) {negative : Bool} (hsign : negative = true → num = 0)
    (hden : 0 < den) (hle : num ≤ a * den) :
    IsAmount (ofQuotient negative num den) (rounded num den) := by
  obtain ⟨s, r, -, rfl, -⟩ := h.exists_rank
  have hrank : roundRank num den < infiniteRank :=
    (quanta_strictMono.le_iff_le.1 (h.rounded_le hden hle)).trans_lt r.isLt
  rw [Double.ofQuotient, ofRank, dif_pos hrank]
  refine ⟨rfl, ?_⟩
  cases negative with
  | false => rfl
  | true =>
    have hzero := rounded_zero den
    rw [rounded] at hzero
    simp [inQuanta, rounded, hsign rfl, hzero]

theorem IsAmount.ofQuanta (h : IsAmount x a) (sign : Bool) (hle : n ≤ a) :
    IsAmount (ofQuanta sign (n : Int)) (rounded n 1) := by
  unfold Double.ofQuanta
  split
  next hzero =>
    rw [Int.natCast_eq_zero.1 hzero, rounded_zero]
    exact isAmount_signedZero sign
  next =>
    rw [decide_eq_false (Int.not_lt.2 (Int.natCast_nonneg n)), Int.natAbs_natCast]
    exact h.ofQuotient nofun Nat.one_pos (by omega)

/-! ## Arithmetic -/

theorem IsAmount.add_eq (hx : IsAmount x a) (hy : IsAmount y b) :
    x + y = Double.ofQuanta (x.isNegative && y.isNegative) ((a + b : Nat) : Int) := by
  obtain ⟨s, r, rfl, -, -⟩ := hx.exists_rank
  obtain ⟨t, q, rfl, -, -⟩ := hy.exists_rank
  rw [Int.natCast_add, ← hx.2, ← hy.2]
  rfl

theorem IsAmount.add (hx : IsAmount x a) (hy : IsAmount y b) (hz : IsAmount z c)
    (h : a + b ≤ c) : IsAmount (x + y) (rounded (a + b) 1) := by
  rw [hx.add_eq hy]
  exact hz.ofQuanta _ h

theorem IsAmount.isNegative_add (hx : IsAmount x a) (hy : IsAmount y b)
    (hsign : x.isNegative = false) : (x + y).isNegative = false := by
  rw [hx.add_eq hy, hsign, Bool.false_and, Double.ofQuanta]
  split
  · rfl
  · rw [decide_eq_false (Int.not_lt.2 (Int.natCast_nonneg _)), Double.ofQuotient, ofRank]
    split <;> rfl

theorem IsAmount.sub (hx : IsAmount x a) (hy : IsAmount y b) (h : b ≤ a) :
    IsAmount (x - y) (rounded (a - b) 1) := by
  obtain ⟨s, r, rfl, -, -⟩ := id hx.exists_rank
  obtain ⟨t, q, rfl, -, -⟩ := id hy.exists_rank
  have hneg : (finite (!t) q).inQuanta = -(finite t q).inQuanta := by
    cases t <;> simp [inQuanta]
  have hsub : finite s r - finite t q = Double.ofQuanta (s && !t) ((a - b : Nat) : Int) := by
    rw [Int.natCast_sub h, ← hx.2, ← hy.2, Int.sub_eq_add_neg, ← hneg]
    rfl
  rw [hsub]
  exact hx.ofQuanta _ (Nat.sub_le a b)

theorem IsAmount.mul (hx : IsAmount x a) (hy : IsAmount y b) (hz : IsAmount z c)
    (h : a * b ≤ c * unit) : IsAmount (x * y) (rounded (a * b) unit) := by
  obtain ⟨s, r, rfl, rfl, hr⟩ := hx.exists_rank
  obtain ⟨t, q, rfl, rfl, hq⟩ := hy.exists_rank
  rw [finite_mul_finite]
  refine hz.ofQuotient (fun hsign => ?_) unit_pos h
  -- only a zero has a sign
  cases s with
  | true => rw [hr rfl, quanta_zero, Nat.zero_mul]
  | false => rw [hq (by simpa using hsign), quanta_zero, Nat.mul_zero]

theorem IsAmount.div (hx : IsAmount x a) (hy : IsAmount y b) (hz : IsAmount z c) (hb : 0 < b)
    (h : a * unit ≤ c * b) : IsAmount (x / y) (rounded (a * unit) b) := by
  obtain ⟨s, r, rfl, rfl, hr⟩ := hx.exists_rank
  obtain ⟨t, q, rfl, rfl, hq⟩ := hy.exists_rank
  have hrank : q.val ≠ 0 := by
    intro hzero
    rw [hzero, quanta_zero] at hb
    exact absurd hb (Nat.lt_irrefl 0)
  have ht : t = false := Bool.eq_false_iff.2 fun h => hrank (hq h)
  have hdiv : finite s r / finite t q =
      Double.ofQuotient (s != t) (quanta r.val * unit) (quanta q.val) := if_neg hrank
  rw [hdiv, ht]
  refine hz.ofQuotient (fun hsign => ?_) hb h
  rw [hr (by simpa using hsign), quanta_zero, Nat.zero_mul]

/-! ## Whole numbers -/

theorem IsAmount.floorNat (h : IsAmount x a) : x.floorNat = a / unit := by
  obtain ⟨s, r, rfl, rfl, hr⟩ := h.exists_rank
  cases s with
  | false => rfl
  | true => rw [hr rfl, quanta_zero, Nat.zero_div]; rfl

theorem IsAmount.ceilNat (h : IsAmount x a) : x.ceilNat = (a + (unit - 1)) / unit := by
  obtain ⟨s, r, rfl, rfl, hr⟩ := h.exists_rank
  cases s with
  | false => rfl
  | true =>
    rw [hr rfl, quanta_zero, Nat.zero_add, Nat.div_eq_of_lt (Nat.sub_one_lt unit_pos.ne')]
    rfl

/-- The whole part of an amount is an amount. -/
theorem IsAmount.ofNat_div (h : IsAmount x a) : IsAmount (ofNat (a / unit)) (a / unit * unit) := by
  obtain ⟨s, r, -, rfl, -⟩ := h.exists_rank
  exact (IsQuanta.ofNat_div ⟨r, rfl, rfl⟩).isAmount

theorem IsAmount.roundNat (h : IsAmount x a) :
    x.roundNat = min ((2 * a + unit) / (2 * unit)) ((1 <<< 64) - 1) := by
  obtain ⟨s, r, rfl, rfl, hr⟩ := h.exists_rank
  cases s with
  | false => rfl
  | true =>
    have hunit := unit_pos
    rw [hr rfl, quanta_zero, Nat.div_eq_of_lt (by omega)]
    rfl

theorem IsAmount.roundNat_le (hx : IsAmount x a) (hy : IsAmount y b) (h : a ≤ b) :
    x.roundNat ≤ y.roundNat := by
  rw [hx.roundNat, hy.roundNat]
  refine min_le_min_right _ (Nat.div_le_div_right ?_)
  omega

theorem isAmount_ofNat (h : n < 2 ^ 53) : IsAmount (ofNat n) (n * unit) := by
  have hround := isQuanta_ofQuotient_of_lt h (show unitPlaces ≤ 1900 by rw [unitPlaces_eq]; decide)
  rw [← unit_eq] at hround
  exact hround.isAmount

theorem isAmount_zero : IsAmount 0 0 := by
  have hzero := isAmount_ofNat (show 0 < 2 ^ 53 by decide)
  rwa [Nat.zero_mul] at hzero

theorem isAmount_one : IsAmount 1 unit := by
  have hone := isAmount_ofNat (show 1 < 2 ^ 53 by decide)
  rwa [Nat.one_mul] at hone

theorem roundNat_ofNat (h : n < 2 ^ 53) : (ofNat n).roundNat = n := by
  have hunit := unit_pos
  rw [(isAmount_ofNat h).roundNat, ← Nat.mul_assoc, Nat.mul_right_comm,
    Nat.mul_add_div (by omega), Nat.div_eq_of_lt (by omega), Nat.add_zero]
  exact Nat.min_eq_left (h.le.trans (by decide))

end LoadReplay.Double
