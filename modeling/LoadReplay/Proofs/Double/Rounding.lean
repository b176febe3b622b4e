import LoadReplay.Double.Basic
import Mathlib.Algebra.Order.Ring.Nat
import Mathlib.Tactic.Linarith
import Mathlib.Tactic.Ring

/-!
# Rounding keeps the order

A greater quotient never rounds to a smaller number: `roundHalfEven_le_roundHalfEven` for whole
numbers, `roundRank_le_roundRank` for ranks. Quotients are compared by their cross products, so the
two denominators may differ. The magnitudes of ranks increase with the ranks (`quanta_strictMono`).
-/

namespace LoadReplay.Double

/-! ## Whole numbers -/

theorem div_le_roundHalfEven (num den : Nat) : num / den ≤ roundHalfEven num den := by
  unfold roundHalfEven
  split
  · exact le_rfl
  · split <;> omega

theorem roundHalfEven_le_div_succ (num den : Nat) : roundHalfEven num den ≤ num / den + 1 := by
  unfold roundHalfEven
  split
  · omega
  · split <;> omega

theorem div_le_div_of_cross {num den num' den' : Nat} (hden : 0 < den) (hden' : 0 < den')
    (h : num * den' ≤ num' * den) : num / den ≤ num' / den' := by
  rw [Nat.le_div_iff_mul_le hden']
  refine Nat.le_of_mul_le_mul_right ?_ hden
  calc num / den * den' * den = num / den * den * den' := Nat.mul_right_comm ..
    _ ≤ num * den' := Nat.mul_le_mul_right _ (Nat.div_mul_le_self num den)
    _ ≤ num' * den := h

/-- Where two quotients have the same whole part, their remainders compare as they do. -/
theorem mod_mul_le_of_cross {num den num' den' : Nat} (hdiv : num / den = num' / den')
    (h : num * den' ≤ num' * den) : num % den * den' ≤ num' % den' * den := by
  have hleft : num * den' = den * den' * (num' / den') + num % den * den' := by
    conv_lhs => rw [← Nat.div_add_mod num den, hdiv]
    ring
  have hright : num' * den = den * den' * (num' / den') + num' % den' * den := by
    conv_lhs => rw [← Nat.div_add_mod num' den']
    ring
  omega

theorem roundHalfEven_le_roundHalfEven {num den num' den' : Nat} (hden : 0 < den)
    (hden' : 0 < den') (h : num * den' ≤ num' * den) :
    roundHalfEven num den ≤ roundHalfEven num' den' := by
  rcases (div_le_div_of_cross hden hden' h).lt_or_eq with hlt | heq
  · have hround := div_le_roundHalfEven num' den'
    exact (roundHalfEven_le_div_succ num den).trans (Nat.le_trans hlt hround)
  · -- a remainder of a half or more leaves the other quotient one of a half or more
    have hrem := mod_mul_le_of_cross heq h
    have hhalf : den ≤ 2 * (num % den) → den' ≤ 2 * (num' % den') := by
      intro hle
      by_contra hlt
      nlinarith
    have hmore : den < 2 * (num % den) → den' < 2 * (num' % den') := by
      intro hlt
      by_contra hle
      nlinarith
    unfold roundHalfEven
    rw [heq]
    split_ifs <;> omega

/-- What rounds to zero is a half or less. -/
theorem roundHalfEven_eq_zero_iff {num den : Nat} (hden : 0 < den) :
    roundHalfEven num den = 0 ↔ 2 * num ≤ den := by
  rcases Nat.lt_or_ge num den with hlt | hge
  · unfold roundHalfEven
    rw [Nat.div_eq_of_lt hlt, Nat.mod_eq_of_lt hlt]
    split_ifs <;> simp <;> omega
  · have hpos := (Nat.div_pos hge hden).trans_le (div_le_roundHalfEven num den)
    omega

/-! ## Ranks -/

theorem binade_eq : binade = 2 ^ 52 := rfl

/-- Rounded to 53 binary digits a number is at most the next power of two. -/
theorem roundHalfEven_shiftLeft_le {num den places : Nat}
    (h : Nat.log2 (num / den) ≤ places + 52) :
    roundHalfEven num (den <<< places) ≤ 2 * binade := by
  refine (roundHalfEven_le_div_succ _ _).trans ?_
  rw [Nat.shiftLeft_eq, ← Nat.div_div_eq_div_mul]
  refine Nat.div_lt_of_lt_mul ?_
  calc num / den < 2 ^ (Nat.log2 (num / den) + 1) := Nat.lt_log2_self
    _ ≤ 2 ^ (places + 53) := Nat.pow_le_pow_right (by decide) (by omega)
    _ = 2 ^ places * (2 * binade) := by rw [binade_eq]; ring

/-- Rounded to 53 binary digits a number is at least the power of two below it. -/
theorem le_roundHalfEven_shiftLeft {num den places : Nat} (hq : num / den ≠ 0)
    (h : places + 52 ≤ Nat.log2 (num / den)) :
    binade ≤ roundHalfEven num (den <<< places) := by
  refine le_trans ?_ (div_le_roundHalfEven _ _)
  rw [Nat.shiftLeft_eq, ← Nat.div_div_eq_div_mul, Nat.le_div_iff_mul_le (Nat.two_pow_pos places)]
  calc binade * 2 ^ places = 2 ^ (places + 52) := by rw [binade_eq]; ring
    _ ≤ 2 ^ Nat.log2 (num / den) := Nat.pow_le_pow_right (by decide) h
    _ ≤ num / den := Nat.log2_self_le hq

theorem log2_le_log2 {m n : Nat} (h : m ≤ n) : Nat.log2 m ≤ Nat.log2 n := by
  by_cases hm : m = 0
  · simp [hm]
  · exact (Nat.le_log2 (by omega)).2 ((Nat.log2_self_le hm).trans h)

/-- A greater quotient has no smaller rank. -/
theorem roundRank_le_roundRank {num den num' den' : Nat} (hden : 0 < den) (hden' : 0 < den')
    (h : num * den' ≤ num' * den) : roundRank num den ≤ roundRank num' den' := by
  have hlog := log2_le_log2 (div_le_div_of_cross hden hden' h)
  unfold roundRank
  generalize hp : Nat.log2 (num / den) - 52 = places
  generalize hp' : Nat.log2 (num' / den') - 52 = places'
  dsimp only
  rcases (show places ≤ places' by omega).eq_or_lt with rfl | hlt
  · refine Nat.add_le_add_left (roundHalfEven_le_roundHalfEven ?_ ?_ ?_) _
    · rw [Nat.shiftLeft_eq]; positivity
    · rw [Nat.shiftLeft_eq]; positivity
    · rw [Nat.shiftLeft_eq, Nat.shiftLeft_eq, ← Nat.mul_assoc, ← Nat.mul_assoc]
      exact Nat.mul_le_mul_right _ h
  · -- the greater quotient has more digits, and those kept of the other make at most one more
    have hq : num' / den' ≠ 0 := by
      intro hzero
      simp [hzero] at hp'
      omega
    have hupper : roundHalfEven num (den <<< places) ≤ 2 * binade :=
      roundHalfEven_shiftLeft_le (by omega)
    have hlower : binade ≤ roundHalfEven num' (den' <<< places') :=
      le_roundHalfEven_shiftLeft hq (by omega)
    have hplaces : (places + 1) * binade ≤ places' * binade := Nat.mul_le_mul_right _ hlt
    rw [Nat.succ_mul] at hplaces
    omega

/-! ## Magnitudes -/

theorem quanta_of_lt {rank : Nat} (h : rank < binade) : quanta rank = rank := if_pos h

theorem quanta_of_le {rank : Nat} (h : binade ≤ rank) :
    quanta rank = (binade + rank % binade) * 2 ^ (rank / binade - 1) := by
  rw [quanta, if_neg (Nat.not_lt.2 h), Nat.shiftLeft_eq]

theorem binade_pos : 0 < binade := by decide

theorem quanta_strictMono : StrictMono quanta := by
  intro a b hab
  have hpos := binade_pos
  rcases Nat.lt_or_ge b binade with hb | hb
  · rw [quanta_of_lt hb, quanta_of_lt (hab.trans hb)]
    exact hab
  have hbin : 1 ≤ b / binade := (Nat.one_le_div_iff hpos).2 hb
  have hpow : binade * 2 ^ (b / binade - 1) ≤ quanta b := by
    rw [quanta_of_le hb]
    exact Nat.mul_le_mul_right _ (Nat.le_add_right _ _)
  rcases Nat.lt_or_ge a binade with ha | ha
  · rw [quanta_of_lt ha]
    exact ha.trans_le ((Nat.le_mul_of_pos_right _ (Nat.two_pow_pos _)).trans hpow)
  have habin : 1 ≤ a / binade := (Nat.one_le_div_iff hpos).2 ha
  rcases (Nat.div_le_div_right (c := binade) hab.le).eq_or_lt with heq | hlt
  · -- within one binade the significands decide
    have hmod : a % binade < b % binade := by
      have hadiv := Nat.div_add_mod a binade
      have hbdiv := Nat.div_add_mod b binade
      rw [heq] at hadiv
      omega
    rw [quanta_of_le ha, quanta_of_le hb, heq]
    exact Nat.mul_lt_mul_of_pos_right (Nat.add_lt_add_left hmod _) (Nat.two_pow_pos _)
  · refine lt_of_lt_of_le ?_ hpow
    have hexp : a / binade - 1 + 1 ≤ b / binade - 1 := by omega
    calc quanta a = (binade + a % binade) * 2 ^ (a / binade - 1) := quanta_of_le ha
      _ < (2 * binade) * 2 ^ (a / binade - 1) := by
        have := Nat.mod_lt a hpos
        exact Nat.mul_lt_mul_of_pos_right (by omega) (Nat.two_pow_pos _)
      _ = binade * 2 ^ (a / binade - 1 + 1) := by ring
      _ ≤ binade * 2 ^ (b / binade - 1) :=
        Nat.mul_le_mul_left _ (Nat.pow_le_pow_right (by decide) hexp)

theorem quanta_zero : quanta 0 = 0 := rfl

end LoadReplay.Double
