import LoadReplay.Proofs.Double.Order
import Mathlib.Algebra.Order.Field.Rat
import Mathlib.Tactic.FieldSimp

/-!
# Exact arithmetic

Rounding keeps the powers of two that divide a number of quanta (`pow_dvd_quanta_roundRank`), and
what has no more than 53 binary digits is not rounded at all (`quanta_roundRank_of_lt`). So sums,
differences and products of numbers whose exact result has few enough digits are exact
(`IsQuanta.add`, `IsQuanta.sub`, `IsQuanta.mul`). `value` is the exact value of a finite number as
a fraction, by which such results are stated.
-/

namespace LoadReplay.Double

/-! ## What a rank is rounded to -/

theorem roundHalfEven_mul_left (num : Nat) {den : Nat} (hden : 0 < den) :
    roundHalfEven (den * num) den = num := by
  unfold roundHalfEven
  rw [Nat.mul_mod_right, if_pos (by omega), Nat.mul_div_cancel_left num hden]

/-- The magnitude of a rank that is given by its places and its leading digits. -/
theorem quanta_mul_binade_add {places digits : Nat} (hle : digits ≤ 2 * binade)
    (hlead : places = 0 ∨ binade ≤ digits) :
    quanta (places * binade + digits) = digits * 2 ^ places := by
  have hpos := binade_pos
  rcases Nat.lt_or_ge digits binade with hlt | hge
  · obtain rfl := hlead.resolve_right (Nat.not_le.2 hlt)
    rw [Nat.zero_mul, Nat.zero_add, quanta_of_lt hlt, Nat.pow_zero, Nat.mul_one]
  have hrank : places * binade + digits = binade * (places + 1) + (digits - binade) := by
    rw [Nat.mul_comm, Nat.mul_succ]
    omega
  rw [quanta_of_le (hge.trans (Nat.le_add_left _ _)), hrank]
  rcases hle.lt_or_eq with hlt | rfl
  · have hrest : digits - binade < binade := by omega
    rw [Nat.mul_add_mod, Nat.mul_add_div hpos, Nat.mod_eq_of_lt hrest, Nat.div_eq_of_lt hrest,
      Nat.add_sub_cancel' hge]
    rfl
  · -- the digits were rounded up to the next power of two
    rw [show 2 * binade - binade = binade by omega, ← Nat.mul_succ, Nat.mul_mod_right,
      Nat.mul_div_cancel_left _ hpos]
    simp only [Nat.succ_eq_add_one, Nat.add_sub_cancel, Nat.add_zero]
    ring

/-- The places below the 53 leading digits of a quotient are rounded off, and no others. -/
theorem quanta_roundRank (num den : Nat) :
    quanta (roundRank num den) =
      roundHalfEven num (den <<< (Nat.log2 (num / den) - 52)) *
        2 ^ (Nat.log2 (num / den) - 52) := by
  have hlog : Nat.log2 (num / den) ≤ Nat.log2 (num / den) - 52 + 52 := by omega
  refine quanta_mul_binade_add (roundHalfEven_shiftLeft_le hlog) ?_
  by_cases hplaces : Nat.log2 (num / den) - 52 = 0
  · exact .inl hplaces
  · refine .inr (le_roundHalfEven_shiftLeft ?_ (by omega))
    intro hzero
    simp [hzero] at hplaces

variable {num den e : Nat}

theorem quanta_roundRank_of_dvd (h : 2 ^ (Nat.log2 num - 52) ∣ num) :
    quanta (roundRank num 1) = num := by
  rw [quanta_roundRank, Nat.div_one, Nat.shiftLeft_eq, Nat.one_mul]
  generalize Nat.log2 num - 52 = places at h
  obtain ⟨digits, rfl⟩ := h
  rw [roundHalfEven_mul_left digits (Nat.two_pow_pos places), Nat.mul_comm]

/-- Rounding keeps the powers of two that divide a number. -/
theorem pow_dvd_quanta_roundRank (h : 2 ^ e ∣ num) : 2 ^ e ∣ quanta (roundRank num 1) := by
  rcases Nat.le_total (Nat.log2 num - 52) e with hle | hge
  · rwa [quanta_roundRank_of_dvd ((Nat.pow_dvd_pow 2 hle).trans h)]
  · rw [quanta_roundRank, Nat.div_one]
    exact Nat.dvd_mul_left_of_dvd (Nat.pow_dvd_pow 2 hge) _

/-- What has 53 binary digits is not rounded. -/
theorem quanta_roundRank_of_lt (h : 2 ^ e ∣ num) (hlt : num < 2 ^ (e + 53)) :
    quanta (roundRank num 1) = num := by
  refine quanta_roundRank_of_dvd ((Nat.pow_dvd_pow 2 ?_).trans h)
  by_cases hzero : num = 0
  · simp [hzero]
  · have := (Nat.log2_lt hzero).2 hlt
    omega

/-- Where places are rounded off, what is left has 53 binary digits. -/
theorem pow_mul_binade_le (h : Nat.log2 num - 52 ≠ 0) :
    2 ^ (Nat.log2 num - 52) * binade ≤ num := by
  have hzero : num ≠ 0 := by
    rintro rfl
    simp at h
  rw [binade_eq, ← Nat.pow_add, Nat.sub_add_cancel (by omega)]
  exact Nat.log2_self_le hzero

theorem quanta_roundRank_of_log2 (h : Nat.log2 num - 52 = 0) : quanta (roundRank num 1) = num :=
  quanta_roundRank_of_dvd (by rw [h, Nat.pow_zero]; exact Nat.one_dvd num)

/-- Rounding adds at most one part in `2 ^ 52`. -/
theorem quanta_roundRank_le (num : Nat) :
    quanta (roundRank num 1) * binade ≤ num * (binade + 1) := by
  by_cases hplaces : Nat.log2 num - 52 = 0
  · rw [quanta_roundRank_of_log2 hplaces]
    exact Nat.mul_le_mul_left _ (Nat.le_succ _)
  · have hlead := pow_mul_binade_le hplaces
    rw [quanta_roundRank, Nat.div_one, Nat.shiftLeft_eq, Nat.one_mul]
    generalize Nat.log2 num - 52 = places at hlead
    have hround : roundHalfEven num (2 ^ places) * 2 ^ places ≤ num + 2 ^ places :=
      calc roundHalfEven num (2 ^ places) * 2 ^ places
          ≤ (num / 2 ^ places + 1) * 2 ^ places :=
            Nat.mul_le_mul_right _ (roundHalfEven_le_div_succ _ _)
        _ ≤ num + 2 ^ places := by
            rw [Nat.succ_mul]
            exact Nat.add_le_add_right (Nat.div_mul_le_self _ _) _
    calc roundHalfEven num (2 ^ places) * 2 ^ places * binade
        ≤ (num + 2 ^ places) * binade := Nat.mul_le_mul_right _ hround
      _ ≤ num * (binade + 1) := by
          rw [Nat.add_mul, Nat.mul_succ]
          exact Nat.add_le_add_left hlead _

/-- Rounding takes off at most one part in `2 ^ 52`. -/
theorem le_quanta_roundRank (num : Nat) :
    num * binade ≤ quanta (roundRank num 1) * binade + num := by
  by_cases hplaces : Nat.log2 num - 52 = 0
  · rw [quanta_roundRank_of_log2 hplaces]
    exact Nat.le_add_right _ _
  · have hlead := pow_mul_binade_le hplaces
    rw [quanta_roundRank, Nat.div_one, Nat.shiftLeft_eq, Nat.one_mul]
    generalize Nat.log2 num - 52 = places at hlead
    have hround : num ≤ roundHalfEven num (2 ^ places) * 2 ^ places + 2 ^ places :=
      calc num = num / 2 ^ places * 2 ^ places + num % 2 ^ places := (Nat.div_add_mod' ..).symm
        _ ≤ roundHalfEven num (2 ^ places) * 2 ^ places + 2 ^ places :=
            Nat.add_le_add (Nat.mul_le_mul_right _ (div_le_roundHalfEven _ _))
              (Nat.mod_lt _ (Nat.two_pow_pos places)).le
    calc num * binade
        ≤ (roundHalfEven num (2 ^ places) * 2 ^ places + 2 ^ places) * binade :=
          Nat.mul_le_mul_right _ hround
      _ ≤ roundHalfEven num (2 ^ places) * 2 ^ places * binade + num := by
          rw [Nat.add_mul]
          exact Nat.add_le_add_left hlead _

/-- A quotient is rounded by what it is, not by how it is written. -/
theorem roundHalfEven_mul_right {factor : Nat} (hden : 0 < den) (hfactor : 0 < factor) :
    roundHalfEven (num * factor) (den * factor) = roundHalfEven num den := by
  have hpos := Nat.mul_pos hden hfactor
  refine Nat.le_antisymm (roundHalfEven_le_roundHalfEven hpos hden ?_)
    (roundHalfEven_le_roundHalfEven hden hpos ?_)
  · rw [Nat.mul_assoc, Nat.mul_comm factor]
  · rw [Nat.mul_assoc, Nat.mul_comm factor]

theorem roundRank_mul_right {factor : Nat} (hden : 0 < den) (hfactor : 0 < factor) :
    roundRank (num * factor) (den * factor) = roundRank num den := by
  have hshift (places : Nat) : (den * factor) <<< places = den * 2 ^ places * factor := by
    rw [Nat.shiftLeft_eq, Nat.mul_right_comm]
  rw [roundRank, roundRank, Nat.mul_div_mul_right _ _ hfactor, hshift, Nat.shiftLeft_eq,
    roundHalfEven_mul_right (Nat.mul_pos hden (Nat.two_pow_pos _)) hfactor]

/-! ## Numbers of quanta -/

/-- One is this power of two in quanta. It is never computed in a proof. -/
@[irreducible]
def unitPlaces : Nat := 1074

theorem unitPlaces_eq : unitPlaces = 1074 := by
  unfold unitPlaces
  rfl

theorem unit_eq : unit = 2 ^ unitPlaces := by
  rw [unit, ← unitPlaces_eq, Nat.shiftLeft_eq, Nat.one_mul]

/-- Infinity is far beyond these powers of two. -/
theorem pow_lt_quanta_infiniteRank (he : e ≤ 2000) : 2 ^ (e + 1) < quanta infiniteRank := by
  have hplaces : e + 1 < infiniteRank / binade - 1 := by
    rw [infiniteRank, Nat.mul_div_cancel _ binade_pos]
    omega
  have hpow : 2 ^ (e + 1) < 2 ^ (infiniteRank / binade - 1) :=
    Nat.pow_lt_pow_right (by decide) hplaces
  rw [quanta_of_le (by decide)]
  exact hpow.trans_le (Nat.le_mul_of_pos_left _ (Nat.add_pos_left binade_pos _))

/-- The number is not negative and has so many quanta. -/
def IsQuanta (x : Double) (z : Nat) : Prop :=
  ∃ rank : Fin infiniteRank, x = finite false rank ∧ quanta rank = z

variable {x y : Double} {a b n : Nat}

theorem isQuanta_zero : IsQuanta (zero false) 0 := ⟨_, rfl, quanta_zero⟩

theorem IsQuanta.isFinite (h : IsQuanta x a) : x.isFinite = true := by
  obtain ⟨rank, rfl, -⟩ := h
  rfl

theorem IsQuanta.le_iff (hx : IsQuanta x a) (hy : IsQuanta y b) : x ≤ y ↔ a ≤ b := by
  obtain ⟨r, rfl, rfl⟩ := hx
  obtain ⟨q, rfl, rfl⟩ := hy
  rw [le_iff_place (ne_nan_of_isFinite rfl) (ne_nan_of_isFinite rfl), quanta_strictMono.le_iff_le]
  simp [place]

theorem IsQuanta.floorNat (h : IsQuanta x a) : x.floorNat = a / unit := by
  obtain ⟨rank, rfl, rfl⟩ := h
  rfl

theorem IsQuanta.ceilNat (h : IsQuanta x a) : x.ceilNat = (a + (unit - 1)) / unit := by
  obtain ⟨rank, rfl, rfl⟩ := h
  rfl

/-- A number that is far from infinity is rounded to a finite one. -/
theorem isQuanta_ofQuotient (h : num ≤ 2 ^ e) (he : e ≤ 2000) :
    IsQuanta (ofQuotient false num 1) (quanta (roundRank num 1)) := by
  have hfinite : quanta (roundRank num 1) * binade < quanta infiniteRank * binade :=
    calc quanta (roundRank num 1) * binade ≤ num * (binade + 1) := quanta_roundRank_le num
      _ ≤ 2 ^ e * (2 * binade) := Nat.mul_le_mul h (by decide)
      _ = 2 ^ (e + 1) * binade := by rw [Nat.pow_succ, Nat.mul_assoc]
      _ < quanta infiniteRank * binade :=
        Nat.mul_lt_mul_of_pos_right (pow_lt_quanta_infiniteRank he) binade_pos
  have hrank : roundRank num 1 < infiniteRank :=
    quanta_strictMono.lt_iff_lt.1 (Nat.lt_of_mul_lt_mul_right hfinite)
  exact ⟨⟨_, hrank⟩, by rw [ofQuotient, ofRank, dif_pos hrank], rfl⟩

/-- A multiple of a power of two is rounded to a multiple of it, and not at all if it has 53 binary
digits. -/
theorem exists_isQuanta_ofQuotient (bits : Nat) (h : n ≤ 2 ^ bits) (he : bits + e ≤ 2000) :
    ∃ m, IsQuanta (ofQuotient false (n * 2 ^ e) 1) (m * 2 ^ e) ∧
      m * binade ≤ n * (binade + 1) ∧ (n < 2 ^ 53 → m = n) := by
  have hbound : n * 2 ^ e ≤ 2 ^ (bits + e) := by
    rw [Nat.pow_add]
    exact Nat.mul_le_mul_right _ h
  have hround := isQuanta_ofQuotient hbound he
  obtain ⟨m, hm⟩ := pow_dvd_quanta_roundRank (Nat.dvd_mul_left (2 ^ e) n)
  have hle := quanta_roundRank_le (n * 2 ^ e)
  rw [hm, Nat.mul_comm (2 ^ e)] at hround
  refine ⟨m, hround, ?_, fun hlt => ?_⟩
  · rw [hm] at hle
    refine Nat.le_of_mul_le_mul_left ?_ (Nat.two_pow_pos e)
    calc 2 ^ e * (m * binade) = 2 ^ e * m * binade := (Nat.mul_assoc ..).symm
      _ ≤ n * 2 ^ e * (binade + 1) := hle
      _ = 2 ^ e * (n * (binade + 1)) := by ring
  · have hdigits : n * 2 ^ e < 2 ^ (e + 53) := by
      rw [Nat.pow_add, Nat.mul_comm]
      exact Nat.mul_lt_mul_of_pos_left hlt (Nat.two_pow_pos e)
    rw [quanta_roundRank_of_lt (Nat.dvd_mul_left _ _) hdigits, Nat.mul_comm] at hm
    exact (Nat.eq_of_mul_eq_mul_left (Nat.two_pow_pos e) hm).symm

/-- What has 53 binary digits is a number. -/
theorem isQuanta_ofQuotient_of_lt (h : n < 2 ^ 53) (he : e ≤ 1900) :
    IsQuanta (ofQuotient false (n * 2 ^ e) 1) (n * 2 ^ e) := by
  obtain ⟨m, hround, -, hexact⟩ := exists_isQuanta_ofQuotient 53 h.le (show 53 + e ≤ 2000 by omega)
  rwa [hexact h] at hround

theorem isQuanta_ofQuanta_of_lt (h : n < 2 ^ 53) (he : e ≤ 1900) :
    IsQuanta (ofQuanta false ((n * 2 ^ e : Nat) : Int)) (n * 2 ^ e) := by
  unfold ofQuanta
  by_cases hzero : n = 0
  · simpa [hzero] using isQuanta_zero
  · have hne : ((n * 2 ^ e : Nat) : Int) ≠ 0 :=
      Int.natCast_ne_zero.2 (Nat.mul_ne_zero hzero (Nat.two_pow_pos e).ne')
    have hsign : ¬ ((n * 2 ^ e : Nat) : Int) < 0 := Int.not_lt.2 (Int.natCast_nonneg _)
    rw [if_neg hne, decide_eq_false hsign, Int.natAbs_natCast]
    exact isQuanta_ofQuotient_of_lt h he

theorem IsQuanta.add_eq (hx : IsQuanta x a) (hy : IsQuanta y b) :
    x + y = ofQuanta false ((a + b : Nat) : Int) := by
  obtain ⟨r, rfl, rfl⟩ := hx
  obtain ⟨q, rfl, rfl⟩ := hy
  rw [Int.natCast_add]
  rfl

theorem IsQuanta.sub_eq (hx : IsQuanta x a) (hy : IsQuanta y b) (h : b ≤ a) :
    x - y = ofQuanta false ((a - b : Nat) : Int) := by
  obtain ⟨r, rfl, rfl⟩ := hx
  obtain ⟨q, rfl, rfl⟩ := hy
  rw [Int.natCast_sub h, Int.sub_eq_add_neg]
  rfl

/-- A product is divided by what one is in quanta. -/
theorem IsQuanta.mul_eq (hx : IsQuanta x a) (hy : IsQuanta y b) (h : a * b = n * unit) :
    x * y = ofQuotient false n 1 := by
  obtain ⟨r, rfl, rfl⟩ := hx
  obtain ⟨q, rfl, rfl⟩ := hy
  have hround : roundRank (n * unit) (1 * unit) = roundRank n 1 :=
    roundRank_mul_right Nat.one_pos unit_pos
  rw [Nat.one_mul] at hround
  rw [finite_mul_finite, h, hround]
  rfl

/-! ## Whole parts -/

/-- A finite magnitude has 53 leading digits and then zeros. -/
theorem exists_quanta_eq (rank : Nat) :
    ∃ digits places, quanta rank = digits * 2 ^ places ∧ digits < 2 ^ 53 := by
  rcases Nat.lt_or_ge rank binade with hlt | hge
  · exact ⟨rank, 0, by rw [quanta_of_lt hlt, Nat.pow_zero, Nat.mul_one], hlt.trans (by decide)⟩
  · have hmod := Nat.mod_lt rank binade_pos
    refine ⟨_, _, quanta_of_le hge, ?_⟩
    calc binade + rank % binade < binade + binade := Nat.add_lt_add_left hmod _
      _ = 2 ^ 53 := by decide

/-- The whole part of a number is a number. -/
theorem IsQuanta.ofNat_div (h : IsQuanta x a) : IsQuanta (ofNat (a / unit)) (a / unit * unit) := by
  obtain ⟨rank, -, rfl⟩ := h
  generalize hwhole : quanta rank / unit * unit = whole
  have hle : whole ≤ quanta rank := hwhole ▸ Nat.div_mul_le_self _ _
  obtain ⟨digits, places, hdigits, hlt⟩ := exists_quanta_eq rank
  have hlog : Nat.log2 whole - 52 ≤ places := by
    have hmono := log2_le_log2 hle
    by_cases hzero : quanta rank = 0
    · rw [hzero] at hmono
      simp at hmono
      omega
    · have hbelow : quanta rank < 2 ^ (places + 53) := by
        rw [hdigits, Nat.pow_add, Nat.mul_comm]
        exact Nat.mul_lt_mul_of_pos_left hlt (Nat.two_pow_pos places)
      have := (Nat.log2_lt hzero).2 hbelow
      omega
  have hdvd : 2 ^ (Nat.log2 whole - 52) ∣ whole := by
    rcases Nat.le_total places unitPlaces with hsmall | hlarge
    · -- the digits that are rounded off lie behind the point
      refine (Nat.pow_dvd_pow 2 (hlog.trans hsmall)).trans ?_
      rw [← unit_eq, ← hwhole]
      exact Nat.dvd_mul_left _ _
    · -- the number is whole
      have hunit : unit ∣ quanta rank := by
        rw [hdigits, unit_eq]
        exact Nat.dvd_mul_left_of_dvd (Nat.pow_dvd_pow 2 hlarge) _
      rw [← hwhole, Nat.div_mul_cancel hunit, hdigits] at *
      exact (Nat.pow_dvd_pow 2 hlog).trans (Nat.dvd_mul_left _ _)
  have hround := quanta_roundRank_of_dvd hdvd
  have hrank : roundRank whole 1 < infiniteRank := by
    refine lt_of_le_of_lt ?_ rank.isLt
    rwa [← quanta_strictMono.le_iff_le, hround]
  rw [ofNat, hwhole, ofQuotient, ofRank, dif_pos hrank]
  exact ⟨_, rfl, hround⟩

/-! ## Values -/

/-- The exact value of a finite number. -/
def value (x : Double) : ℚ := x.inQuanta / unit

theorem IsQuanta.value_eq (h : IsQuanta x a) : x.value = a / unit := by
  obtain ⟨rank, rfl, rfl⟩ := h
  rw [value, inQuanta, Int.cast_natCast]

end LoadReplay.Double
