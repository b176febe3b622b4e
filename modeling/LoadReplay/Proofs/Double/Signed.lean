import LoadReplay.Proofs.Double.Amount

/-!
# Rounding with signs

A finite number is a whole number of quanta with a sign, and compares with others as that number
does (`le_iff_inQuanta`). Sums and differences of finite numbers are rounded once, by `ofQuanta`
(`add_eq_ofQuanta`, `sub_eq_ofQuanta`). It keeps the order of what is rounded and leaves numbers as
they are, so what lies between two numbers is rounded to a number between them (`le_ofQuanta`,
`ofQuanta_le`).
-/

namespace LoadReplay.Double

variable {x y z : Double} {s t : Bool} {a b : Int}

/-! ## Numbers and their quanta -/

theorem quanta_eq_zero_iff {rank : Nat} : quanta rank = 0 ↔ rank = 0 := by
  conv_lhs => rw [← quanta_zero]
  exact quanta_strictMono.injective.eq_iff

theorem le_iff_inQuanta (hx : x.isFinite = true) (hy : y.isFinite = true) :
    x ≤ y ↔ x.inQuanta ≤ y.inQuanta := by
  obtain ⟨s, r, rfl⟩ := exists_of_isFinite hx
  obtain ⟨t, q, rfl⟩ := exists_of_isFinite hy
  have hmono : quanta r.val ≤ quanta q.val ↔ r.val ≤ q.val := quanta_strictMono.le_iff_le
  have hmono' : quanta q.val ≤ quanta r.val ↔ q.val ≤ r.val := quanta_strictMono.le_iff_le
  have hr : quanta r.val = 0 ↔ r.val = 0 := quanta_eq_zero_iff
  have hq : quanta q.val = 0 ↔ q.val = 0 := quanta_eq_zero_iff
  rw [le_iff_place (ne_nan_of_isFinite hx) (ne_nan_of_isFinite hy)]
  cases s <;> cases t <;> simp only [place, inQuanta] <;> omega

/-- What lies between two finite numbers is finite. -/
theorem isFinite_of_between (hx : x.isFinite = true) (hz : z.isFinite = true) (hxy : x ≤ y)
    (hyz : y ≤ z) : y.isFinite = true := by
  obtain ⟨s, r, rfl⟩ := exists_of_isFinite hx
  obtain ⟨t, q, rfl⟩ := exists_of_isFinite hz
  have hr := r.isLt
  have hq := q.isLt
  have hlower := place_le_of_le hxy
  have hupper := place_le_of_le hyz
  rcases y with _ | ⟨_ | _⟩ | ⟨_, _⟩
  · exact absurd rfl (ne_nan_of_le hxy).2
  · cases t <;> simp only [place] at hupper <;> omega
  · cases s <;> simp only [place] at hlower <;> omega
  · rfl

/-! ## Rounding -/

theorem roundRank_zero : roundRank 0 1 = 0 := by decide

theorem place_ofQuanta (s : Bool) (a : Int) : (ofQuanta s a).place =
    if a < 0 then -((min (roundRank a.natAbs 1) infiniteRank : Nat) : Int)
    else (min (roundRank a.natAbs 1) infiniteRank : Nat) := by
  unfold ofQuanta
  split_ifs with hzero hneg hneg
  · omega
  · rw [hzero, Int.natAbs_zero, roundRank_zero]
    cases s <;> rfl
  · rw [decide_eq_true hneg, ofQuotient, place_ofRank, if_pos rfl]
  · rw [decide_eq_false hneg, ofQuotient, place_ofRank, if_neg Bool.false_ne_true]

theorem ofQuanta_ne_nan (s : Bool) (a : Int) : ofQuanta s a ≠ nan := by
  rw [ofQuanta]
  split_ifs
  · rintro ⟨⟩
  · exact ofRank_ne_nan _ _

/-- A greater number of quanta is not rounded to a smaller number. -/
theorem ofQuanta_le_ofQuanta (s t : Bool) (h : a ≤ b) : ofQuanta s a ≤ ofQuanta t b := by
  have hrank {m n : Nat} (hmn : m ≤ n) : roundRank m 1 ≤ roundRank n 1 :=
    roundRank_le_roundRank Nat.one_pos Nat.one_pos (Nat.mul_le_mul_right 1 hmn)
  rw [le_iff_place (ofQuanta_ne_nan s a) (ofQuanta_ne_nan t b), place_ofQuanta, place_ofQuanta]
  split_ifs with ha hb hb
  · have := hrank (show b.natAbs ≤ a.natAbs by omega)
    omega
  · omega
  · omega
  · have := hrank (show a.natAbs ≤ b.natAbs by omega)
    omega

/-- A number is rounded to itself, but for the sign of a zero. -/
theorem place_ofQuanta_inQuanta (hx : x.isFinite = true) (s : Bool) :
    (ofQuanta s x.inQuanta).place = x.place := by
  obtain ⟨t, r, rfl⟩ := exists_of_isFinite hx
  have hround : roundRank (quanta r.val) 1 = r.val :=
    quanta_strictMono.injective (rounded_quanta r.val)
  have hrank := r.isLt
  have hzero : quanta r.val = 0 ↔ r.val = 0 := quanta_eq_zero_iff
  rw [place_ofQuanta]
  cases t
  · rw [inQuanta, Int.natAbs_natCast, hround, if_neg (by omega), Nat.min_eq_left hrank.le, place]
  · rw [inQuanta, Int.natAbs_neg, Int.natAbs_natCast, hround, Nat.min_eq_left hrank.le, place]
    split_ifs <;> omega

theorem le_ofQuanta (hx : x.isFinite = true) (s : Bool) (h : x.inQuanta ≤ a) :
    x ≤ ofQuanta s a := by
  have hself : x ≤ ofQuanta s x.inQuanta := by
    rw [le_iff_place (ne_nan_of_isFinite hx) (ofQuanta_ne_nan _ _), place_ofQuanta_inQuanta hx]
  exact Double.le_trans hself (ofQuanta_le_ofQuanta s s h)

theorem ofQuanta_le (hx : x.isFinite = true) (s : Bool) (h : a ≤ x.inQuanta) :
    ofQuanta s a ≤ x := by
  have hself : ofQuanta s x.inQuanta ≤ x := by
    rw [le_iff_place (ofQuanta_ne_nan _ _) (ne_nan_of_isFinite hx), place_ofQuanta_inQuanta hx]
  exact Double.le_trans (ofQuanta_le_ofQuanta s s h) hself

theorem isNegative_ofQuanta (s : Bool) (a : Int) :
    (ofQuanta s a).isNegative = if a = 0 then s else decide (a < 0) := by
  unfold ofQuanta
  split
  · rfl
  · rw [ofQuotient, ofRank]
    split <;> rfl

/-! ## Sums and differences -/

theorem add_eq_ofQuanta (hx : x.isFinite = true) (hy : y.isFinite = true) :
    x + y = ofQuanta (x.isNegative && y.isNegative) (x.inQuanta + y.inQuanta) := by
  obtain ⟨s, r, rfl⟩ := exists_of_isFinite hx
  obtain ⟨t, q, rfl⟩ := exists_of_isFinite hy
  rfl

theorem sub_eq_ofQuanta (hx : x.isFinite = true) (hy : y.isFinite = true) :
    x - y = ofQuanta (x.isNegative && !y.isNegative) (x.inQuanta - y.inQuanta) := by
  obtain ⟨s, r, rfl⟩ := exists_of_isFinite hx
  obtain ⟨t, q, rfl⟩ := exists_of_isFinite hy
  have hneg : (finite (!t) q).inQuanta = -(finite t q).inQuanta := by
    cases t <;> simp [inQuanta]
  rw [Int.sub_eq_add_neg, ← hneg]
  rfl

theorem sub_self_of_isFinite (hx : x.isFinite = true) : x - x = 0 := by
  rw [sub_eq_ofQuanta hx hx, Int.sub_self, Bool.and_not_self]
  decide

/-- What is taken from a number that is not smaller leaves an amount, or is past the finite
numbers. -/
theorem sub_cases (hx : x.isFinite = true) (hy : y.isFinite = true) (h : x ≤ y) :
    IsAmount (y - x) (rounded (y.inQuanta - x.inQuanta).natAbs 1) ∨ y - x = infinite false := by
  have hle := (le_iff_inQuanta hx hy).1 h
  rw [sub_eq_ofQuanta hy hx, ofQuanta]
  split_ifs with hzero
  · rw [hzero, Int.natAbs_zero, rounded_zero]
    exact .inl (isAmount_signedZero _)
  · rw [decide_eq_false (by omega), ofQuotient, ofRank]
    split_ifs
    · exact .inl ⟨rfl, rfl⟩
    · exact .inr rfl

/-- Subtracting a number keeps the order. -/
theorem sub_le_sub_right (hx : x.isFinite = true) (hy : y.isFinite = true) (hz : z.isFinite = true)
    (h : x ≤ y) : x - z ≤ y - z := by
  rw [sub_eq_ofQuanta hx hz, sub_eq_ofQuanta hy hz]
  exact ofQuanta_le_ofQuanta _ _ (Int.sub_le_sub_right ((le_iff_inQuanta hx hy).1 h) _)

/-- A difference that is not below zero is no negative zero either, unless one zero is taken from
the other. -/
theorem isNegative_sub (hx : x.isFinite = true) (hz : z.isFinite = true) (h : z ≤ x)
    (hsign : x.isNegative = true → z.isNegative = true) : (x - z).isNegative = false := by
  have hle := (le_iff_inQuanta hz hx).1 h
  have hzero : (x.isNegative && !z.isNegative) = false := by
    cases hneg : x.isNegative with
    | false => rfl
    | true => rw [hsign hneg]; rfl
  rw [sub_eq_ofQuanta hx hz, isNegative_ofQuanta, hzero]
  split
  · rfl
  · exact decide_eq_false (by omega)

/-! ## The total order -/

/-- In the total order the negative numbers, a negative zero among them, come first. -/
theorem isNegative_iff (x : Double) : x.isNegative = true ↔ x.totalPlace < 0 := by
  rcases x with _ | ⟨_ | _⟩ | ⟨_ | _, _⟩ <;> simp [isNegative, totalPlace, infiniteRank, binade]
  omega

theorem isNegative_of_totalLe (h : totalLe x y = true) (hneg : y.isNegative = true) :
    x.isNegative = true := by
  rw [isNegative_iff] at hneg ⊢
  exact lt_of_le_of_lt (of_decide_eq_true h) hneg

/-- Numbers stand in the total order as they compare, except for the two zeros. -/
theorem totalLe_of_le (h : x ≤ y) (hsign : y.isNegative = true → x.isNegative = true) :
    totalLe x y = true := by
  have hplace := place_le_of_le h
  obtain ⟨hx, hy⟩ := ne_nan_of_le h
  rw [totalLe, totalPlace_eq hx, totalPlace_eq hy, decide_eq_true_eq]
  split_ifs with hneg hneg' hneg'
  · omega
  · omega
  · exact absurd (hsign hneg') hneg
  · omega

end LoadReplay.Double
