import LoadReplay.Proofs.Double.Exact

/-!
# Numbers of quarters

A number that is a whole number of quarters (`IsQuarters`) is compared, added and subtracted as
that number, as long as the result has 53 binary digits. A quarter, a half or three quarters of a
natural number are rounded to a number of quarters again (`exists_isQuarters_mul_ofNat`), however
great the natural number is.
-/

namespace LoadReplay.Double

/-- A quarter, in quanta. -/
def quarter : Nat := 2 ^ (unitPlaces - 2)

/-- The number is not negative and has so many quarters. -/
def IsQuarters (x : Double) (t : Nat) : Prop := IsQuanta x (t * quarter)

variable {x y : Double} {s t n k : Nat}

theorem quarter_pos : 0 < quarter := Nat.two_pow_pos _

theorem unit_eq_four_mul : unit = 4 * quarter :=
  calc unit = 2 ^ (unitPlaces - 2 + 2) := by
        rw [unit_eq, Nat.sub_add_cancel (show 2 ≤ unitPlaces by rw [unitPlaces_eq]; decide)]
    _ = quarter * 2 ^ 2 := Nat.pow_add ..
    _ = 4 * quarter := Nat.mul_comm ..

theorem quarterPlaces_le : unitPlaces - 2 ≤ 1900 := by
  rw [unitPlaces_eq]
  decide

theorem IsQuarters.le_iff (hx : IsQuarters x s) (hy : IsQuarters y t) : x ≤ y ↔ s ≤ t := by
  rw [IsQuanta.le_iff hx hy, Nat.mul_le_mul_right_iff quarter_pos]

theorem IsQuarters.value_eq (h : IsQuarters x t) : x.value = (t : ℚ) / 4 := by
  have hquarter : (quarter : ℚ) ≠ 0 := Nat.cast_ne_zero.2 quarter_pos.ne'
  rw [IsQuanta.value_eq h, unit_eq_four_mul]
  push_cast
  field_simp

theorem IsQuarters.floorNat (h : IsQuarters x t) : x.floorNat = t / 4 := by
  rw [IsQuanta.floorNat h, unit_eq_four_mul, Nat.mul_div_mul_right _ _ quarter_pos]

theorem IsQuarters.ceilNat (h : IsQuarters x t) : x.ceilNat = (t + 3) / 4 := by
  have hsum : t * quarter + (unit - 1) = quarter * (t + 3) + (quarter - 1) := by
    have := quarter_pos
    rw [unit_eq_four_mul, Nat.mul_add, Nat.mul_comm t]
    omega
  rw [IsQuanta.ceilNat h, hsum, unit_eq_four_mul, Nat.mul_comm 4, ← Nat.div_div_eq_div_mul,
    Nat.mul_add_div quarter_pos, Nat.div_eq_of_lt (Nat.sub_one_lt quarter_pos.ne'), Nat.add_zero]

theorem isQuarters_ofNat (h : n < 2 ^ 53) : IsQuarters (ofNat n) (4 * n) := by
  have hround := isQuanta_ofQuotient_of_lt h (show unitPlaces ≤ 1900 by rw [unitPlaces_eq]; decide)
  rw [← unit_eq] at hround
  rwa [IsQuarters, Nat.mul_right_comm, ← unit_eq_four_mul, Nat.mul_comm]

/-- The whole part of a number of quarters. -/
theorem IsQuarters.ofNat_div (h : IsQuarters x t) : IsQuarters (ofNat (t / 4)) (4 * (t / 4)) := by
  have hwhole := IsQuanta.ofNat_div h
  rw [unit_eq_four_mul, Nat.mul_div_mul_right _ _ quarter_pos] at hwhole
  rwa [IsQuarters, Nat.mul_right_comm, Nat.mul_comm]

theorem IsQuarters.add (hx : IsQuarters x s) (hy : IsQuarters y t) (h : s + t < 2 ^ 53) :
    IsQuarters (x + y) (s + t) := by
  rw [IsQuarters, IsQuanta.add_eq hx hy, ← Nat.add_mul]
  exact isQuanta_ofQuanta_of_lt h quarterPlaces_le

theorem IsQuarters.sub (hx : IsQuarters x s) (hy : IsQuarters y t) (hle : t ≤ s)
    (h : s - t < 2 ^ 53) : IsQuarters (x - y) (s - t) := by
  rw [IsQuarters, IsQuanta.sub_eq hx hy (Nat.mul_le_mul_right _ hle), ← Nat.sub_mul]
  exact isQuanta_ofQuanta_of_lt h quarterPlaces_le

theorem IsQuarters.whole_mul (hx : IsQuarters x (4 * n)) (hy : IsQuarters y t)
    (h : n * t < 2 ^ 53) : IsQuarters (x * y) (n * t) := by
  have hproduct : 4 * n * quarter * (t * quarter) = n * t * quarter * unit := by
    rw [unit_eq_four_mul]
    ring
  rw [IsQuarters, IsQuanta.mul_eq hx hy hproduct]
  exact isQuanta_ofQuotient_of_lt h quarterPlaces_le

/-- A quarter, a half or three quarters of a natural number, rounded, is a number of quarters that
is not greater than it; below `2 ^ 51` nothing is rounded. -/
theorem exists_isQuarters_mul_ofNat {q : Double} (hq : IsQuarters q k) (hk : k ≤ 3)
    (hn : n < 2 ^ 64) :
    ∃ j, IsQuarters (q * ofNat n) j ∧ j ≤ 4 * n ∧ (n < 2 ^ 51 → j = k * n) := by
  obtain ⟨m, hnat, hm, hexact⟩ :=
    exists_isQuanta_ofQuotient 64 hn.le (show 64 + unitPlaces ≤ 2000 by rw [unitPlaces_eq]; decide)
  rw [← unit_eq] at hnat
  have hkm : k * m ≤ 2 ^ 67 := by
    have htwice : m * binade ≤ 2 * n * binade :=
      calc m * binade ≤ n * (binade + 1) := hm
        _ ≤ n * (2 * binade) := Nat.mul_le_mul_left n (by decide)
        _ = 2 * n * binade := by ring
    have hmle := Nat.le_of_mul_le_mul_right htwice binade_pos
    have hproduct := Nat.mul_le_mul hk hmle
    omega
  have hproduct : k * quarter * (m * unit) = k * m * quarter * unit := by ring
  obtain ⟨j, hround, hj, hexact'⟩ :=
    exists_isQuanta_ofQuotient 67 hkm
      (show 67 + (unitPlaces - 2) ≤ 2000 by rw [unitPlaces_eq]; decide)
  have hmul : q * ofNat n = ofQuotient false (k * m * quarter) 1 := IsQuanta.mul_eq hq hnat hproduct
  refine ⟨j, ?_, ?_, fun hlt => ?_⟩
  · rw [hmul]
    exact hround
  · -- two roundings add less than a third
    have hsquare : j * (binade * binade) ≤ 4 * n * (binade * binade) :=
      calc j * (binade * binade) = j * binade * binade := (Nat.mul_assoc ..).symm
        _ ≤ k * m * (binade + 1) * binade := Nat.mul_le_mul_right _ hj
        _ = m * binade * (k * (binade + 1)) := by ring
        _ ≤ n * (binade + 1) * (3 * (binade + 1)) :=
          Nat.mul_le_mul hm (Nat.mul_le_mul_right _ hk)
        _ = n * (3 * (binade + 1) * (binade + 1)) := by ring
        _ ≤ n * (4 * (binade * binade)) := Nat.mul_le_mul_left _ (by decide)
        _ = 4 * n * (binade * binade) := by ring
    exact Nat.le_of_mul_le_mul_right hsquare (Nat.mul_pos binade_pos binade_pos)
  · obtain rfl := hexact (hlt.trans (by decide))
    have hproduct := Nat.mul_le_mul_right m hk
    exact hexact' (by omega)

theorem isQuarters_quarter : IsQuarters 0.25 1 :=
  ⟨⟨1021 * binade, by decide⟩, by decide +kernel, by decide +kernel⟩

theorem isQuarters_half : IsQuarters 0.5 2 :=
  ⟨⟨1022 * binade, by decide⟩, by decide +kernel, by decide +kernel⟩

theorem isQuarters_threeQuarters : IsQuarters 0.75 3 :=
  ⟨⟨1022 * binade + binade / 2, by decide⟩, by decide +kernel, by decide +kernel⟩

theorem IsQuanta.totalLe (hx : IsQuanta x s) (hy : IsQuanta y t) (h : s ≤ t) :
    totalLe x y = true := by
  obtain ⟨r, rfl, rfl⟩ := hx
  obtain ⟨q, rfl, rfl⟩ := hy
  simpa [Double.totalLe, totalPlace] using quanta_strictMono.le_iff_le.1 h

end LoadReplay.Double
