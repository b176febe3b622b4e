import LoadReplay.Double.Reader
import LoadReplay.Double.Shortest
import LoadReplay.Proofs.Double.Quarters
import Mathlib.Data.List.Induction
import Mathlib.Data.List.TakeWhile
import Mathlib.Data.Nat.Digits.Defs

/-!
# Written with a fixed number of places

A text of digits with an optional point denotes a fraction (`decimal?`). Written with some number of
places a number denotes its value rounded to that many (`decimal?_withPoint`). A number of quarters
that is written with one place is moved by half a tenth at most, so it stays on the same side of
every natural number (`IsQuarters.exists_fixed`).
-/

namespace LoadReplay.Double

/-- The fraction that digits with an optional point denote. -/
def decimal? (cs : List Char) : Option ℚ :=
  let (whole, fraction, rest) := splitDigits cs
  if (whole ++ fraction).isEmpty || !rest.isEmpty then none
  else some (digitsValue (whole ++ fraction) / 10 ^ fraction.length)

variable {whole fraction : List Char}

theorem splitDigits_point (hwhole : ∀ c ∈ whole, c.isDigit = true)
    (hfraction : ∀ c ∈ fraction, c.isDigit = true) :
    splitDigits (whole ++ '.' :: fraction) = (whole, fraction, []) := by
  have htake : (whole ++ '.' :: fraction).takeWhile Char.isDigit = whole := by
    rw [List.takeWhile_append_of_pos hwhole]
    simp
  have hdrop : (whole ++ '.' :: fraction).dropWhile Char.isDigit = '.' :: fraction := by
    rw [List.dropWhile_append_of_pos hwhole]
    simp
  simp only [splitDigits, htake, hdrop, List.takeWhile_eq_self_iff.2 hfraction,
    List.dropWhile_eq_nil_iff.2 hfraction]

theorem splitDigits_whole (hwhole : ∀ c ∈ whole, c.isDigit = true) :
    splitDigits whole = (whole, [], []) := by
  simp only [splitDigits, List.takeWhile_eq_self_iff.2 hwhole, List.dropWhile_eq_nil_iff.2 hwhole]

/-! ## Digits with a point -/

theorem digitsValue_paddedDigits (width n : Nat) : digitsValue (paddedDigits width n) = n := by
  have hzeros (k : Nat) : digitsValue (List.replicate k '0') = 0 := by
    induction k with
    | zero => rfl
    | succ k ih => exact ih
  rw [paddedDigits, digitsValue, List.foldl_append, ← digitsValue, hzeros]
  exact Nat.ofDigitChars_ten_toDigits

theorem digitsValue_lt (ds : List Char) (h : ∀ c ∈ ds, c.isDigit = true) :
    digitsValue ds < 10 ^ ds.length := by
  induction ds using List.reverseRecOn with
  | nil => decide
  | append_singleton ds c ih =>
    have hvalue := ih fun d hd => h d (List.mem_append_left _ hd)
    have hcode : 48 ≤ c.toNat ∧ c.toNat ≤ 57 := Char.isDigit_iff_toNat.1 (h c (by simp))
    have hconcat : digitsValue (ds ++ [c]) = 10 * digitsValue ds + (c.toNat - 48) := by
      rw [digitsValue, List.foldl_append]
      rfl
    rw [hconcat, List.length_append, List.length_singleton, Nat.pow_succ]
    omega

theorem isDigit_of_mem_paddedDigits (width n : Nat) :
    ∀ c ∈ paddedDigits width n, c.isDigit = true := by
  intro c hc
  rcases List.mem_append.1 hc with hzero | hdigit
  · obtain rfl := List.eq_of_mem_replicate hzero
    rfl
  · exact Nat.isDigit_of_mem_toDigits (by decide) (by decide) hdigit

theorem le_length_paddedDigits (width n : Nat) : width ≤ (paddedDigits width n).length := by
  simp only [paddedDigits, List.length_append, List.length_replicate]
  omega

/-- What is written with some places denotes that fraction. -/
theorem decimal?_withPoint (places n : Nat) :
    decimal? (withPoint places n) = some ((n : ℚ) / 10 ^ places) := by
  unfold withPoint
  split_ifs with hplaces
  · have hdigits : ∀ c ∈ digitText n, c.isDigit = true := fun c hc =>
      Nat.isDigit_of_mem_toDigits (by decide) (by decide) hc
    have hvalue : digitsValue (digitText n) = n := Nat.ofDigitChars_ten_toDigits
    have hne : digitText n ≠ [] := Nat.toDigits_ne_nil
    simp [decimal?, splitDigits_whole hdigits, hvalue, hplaces, hne]
  · have hlength := le_length_paddedDigits (places + 1) n
    have hvalue := digitsValue_paddedDigits (places + 1) n
    have hdigits := isDigit_of_mem_paddedDigits (places + 1) n
    generalize paddedDigits (places + 1) n = digits at hlength hvalue hdigits
    have hwhole : ∀ c ∈ digits.take (digits.length - places), c.isDigit = true := fun c hc =>
      hdigits c (List.mem_of_mem_take hc)
    have hfraction : ∀ c ∈ digits.drop (digits.length - places), c.isDigit = true := fun c hc =>
      hdigits c (List.mem_of_mem_drop hc)
    have hplaces : digits.length - (digits.length - places) = places := by omega
    have hne : digits ≠ [] := List.ne_nil_of_length_pos (by omega)
    simp [decimal?, splitDigits_point hwhole hfraction, hvalue, hplaces, hne]

/-! ## Quarters in tenths -/

/-- Rounding quarters to tenths does not step over a whole number. -/
theorem le_roundHalfEven_tenths_iff (v t : Nat) :
    v * 10 ≤ roundHalfEven (t * 10) 4 ↔ 4 * v ≤ t := by
  unfold roundHalfEven
  split_ifs <;> omega

theorem IsQuarters.fixed_one {x : Double} {t : Nat} (h : IsQuarters x t) :
    x.fixed 1 = String.ofList (withPoint 1 (roundHalfEven (t * 10) 4)) := by
  obtain ⟨rank, rfl, hrank⟩ := h
  have hround : roundHalfEven (quanta rank * 10) unit = roundHalfEven (t * 10) 4 := by
    rw [hrank, unit_eq_four_mul, Nat.mul_right_comm]
    exact roundHalfEven_mul_right (by decide) quarter_pos
  rw [← hround]
  rfl

/-- With one place a number of quarters is written as one that compares with natural numbers as it
does itself. -/
theorem IsQuarters.exists_fixed {x : Double} {t : Nat} (h : IsQuarters x t) :
    ∃ cs bound, x.fixed 1 = String.ofList cs ∧ decimal? cs = some bound ∧
      ∀ v : Nat, (v : ℚ) ≤ bound ↔ 4 * v ≤ t := by
  refine ⟨_, _, h.fixed_one, decimal?_withPoint _ _, fun v => ?_⟩
  rw [pow_one, le_div_iff₀ (by norm_num), ← le_roundHalfEven_tenths_iff]
  norm_cast

end LoadReplay.Double
