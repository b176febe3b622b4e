import LoadReplay.Proofs.Trace.Timestamps

/-!
# Timestamps in order

The double of an instant is the sum of its seconds and of its nanoseconds, which have been rounded
before (`Instant.toDouble_eq`). Nanoseconds and their numbers carry alike: a billion nanoseconds
more outweigh a second, and a billion less do not (`inNanoseconds_le_add_unit`,
`add_unit_le_inNanoseconds`). So timestamps keep the order of Unix time
(`Instant.totalLe_toDouble`), in which a leap second has the times of the second that follows it.
They keep the order of instants except between these two seconds
(`Instant.unixNanos_lt_of_before`).
-/

namespace LoadReplay

namespace Double

variable {x y : Double} {a m n : Nat}

/-! ## Numbers of nanoseconds -/

/-- The number nearest to a nanosecond, in quanta. -/
@[irreducible]
def nanosecond : Nat := quanta 4472406533629990549

theorem isQuanta_nanosecond : IsQuanta 1e-9 nanosecond := by
  unfold nanosecond
  exact ⟨⟨4472406533629990549, by decide⟩, by decide +kernel, rfl⟩

/-- A nanosecond is short of its number by so little that two billion of them, rounded, are two
seconds, and that one nanosecond more or less is noticed beside a second. -/
theorem nanosecond_bounds :
    rounded (2 * 10 ^ 9 * nanosecond) 1 = 2 * unit ∧
      (10 ^ 9 - 1) * nanosecond * (binade + 1) + 4 * 10 ^ 9 * nanosecond ≤ unit * binade ∧
      unit * binade + 2 * 10 ^ 9 * nanosecond ≤ (10 ^ 9 + 1) * nanosecond * (binade - 1) := by
  unfold nanosecond
  decide +kernel

/-- What so many nanoseconds are rounded to, in quanta. -/
def inNanoseconds (n : Nat) : Nat := rounded (n * nanosecond) 1

theorem inNanoseconds_mono (h : m ≤ n) : inNanoseconds m ≤ inNanoseconds n :=
  rounded_one_mono (Nat.mul_le_mul_right _ h)

theorem inNanoseconds_le (h : n ≤ 2 * 10 ^ 9) : inNanoseconds n ≤ 2 * unit :=
  (inNanoseconds_mono h).trans nanosecond_bounds.1.le

/-- Less than a billion nanoseconds more are less than a second more. -/
theorem inNanoseconds_le_add_unit (h : m < n + 10 ^ 9) (hn : n < 2 * 10 ^ 9) :
    inNanoseconds m ≤ inNanoseconds n + unit := by
  have hupper := quanta_roundRank_le (m * nanosecond)
  have hlower := le_quanta_roundRank (n * nanosecond)
  have hmore : m * nanosecond ≤ n * nanosecond + (10 ^ 9 - 1) * nanosecond := by
    rw [← Nat.add_mul]
    exact Nat.mul_le_mul_right _ (by omega)
  have hbound : n * nanosecond ≤ 2 * 10 ^ 9 * nanosecond := Nat.mul_le_mul_right _ hn.le
  have hsecond := nanosecond_bounds.2.1
  change quanta (roundRank _ 1) ≤ quanta (roundRank _ 1) + unit
  rw [binade_eq] at hupper hlower hsecond
  omega

/-- More than a billion nanoseconds more are more than a second more. -/
theorem add_unit_le_inNanoseconds (h : m + 10 ^ 9 < n) (hn : n < 2 * 10 ^ 9) :
    inNanoseconds m + unit ≤ inNanoseconds n := by
  have hupper := quanta_roundRank_le (m * nanosecond)
  have hlower := le_quanta_roundRank (n * nanosecond)
  have hmore : m * nanosecond + (10 ^ 9 + 1) * nanosecond ≤ n * nanosecond := by
    rw [← Nat.add_mul]
    exact Nat.mul_le_mul_right _ h
  have hbound : m * nanosecond ≤ 10 ^ 9 * nanosecond := Nat.mul_le_mul_right _ (by omega)
  have hsecond := nanosecond_bounds.2.2
  change quanta (roundRank _ 1) + unit ≤ quanta (roundRank _ 1)
  rw [binade_eq] at hupper hlower hsecond
  omega

theorem isQuanta_mul_nanosecond (h : n < 2 * 10 ^ 9) :
    IsQuanta (ofNat n * 1e-9) (inNanoseconds n) := by
  have hnat := isQuanta_ofQuotient_of_lt (h.trans (by decide) : n < 2 ^ 53)
    (show unitPlaces ≤ 1900 by rw [unitPlaces_eq]; decide)
  rw [← unit_eq] at hnat
  have hmul : ofNat n * 1e-9 = ofQuotient false (n * nanosecond) 1 :=
    IsQuanta.mul_eq hnat isQuanta_nanosecond (by ring)
  have hbound : n * nanosecond ≤ 2 ^ (unitPlaces + 2) := by
    have hmore : n * nanosecond ≤ 2 * 10 ^ 9 * nanosecond := Nat.mul_le_mul_right _ h.le
    have hsecond := nanosecond_bounds.2.1
    rw [binade_eq] at hsecond
    rw [Nat.pow_add, ← unit_eq]
    omega
  rw [hmul]
  exact isQuanta_ofQuotient hbound (by rw [unitPlaces_eq]; decide)

end Double

namespace Instant

open Double (unit inNanoseconds totalLe)

variable {i j : Instant}

/-! ## Instants and their doubles -/

/-- Unix time in nanoseconds. A leap second has the times of the second that follows it. -/
def unixNanos (i : Instant) : Int := i.seconds * 10 ^ 9 + i.nanos

/-- An instant is earlier than another. A leap second is behind the second that it is counted with
and before the one that follows. -/
def Before (i j : Instant) : Prop :=
  i.seconds < j.seconds ∨ i.seconds = j.seconds ∧ i.nanos < j.nanos

/-- The instant lies in a leap second, and the other one in the second that follows, no farther
from its beginning. -/
structure RepeatedBy (i j : Instant) : Prop where
  leap : 10 ^ 9 ≤ i.nanos
  seconds_eq : j.seconds = i.seconds + 1
  nanos_le : j.nanos + 10 ^ 9 ≤ i.nanos

/-- An earlier instant has an earlier Unix time, unless it lies in a leap second. -/
theorem unixNanos_lt_of_before (hi : i.IsNear) (h : i.Before j) (hrepeat : ¬ i.RepeatedBy j) :
    i.unixNanos < j.unixNanos := by
  have hnanos := hi.nanos_lt
  have hfollows : j.seconds = i.seconds + 1 → i.nanos < j.nanos + 10 ^ 9 := by
    intro heq
    by_contra hle
    exact hrepeat ⟨by omega, heq, by omega⟩
  rcases h with h | ⟨heq, hlt⟩ <;> unfold unixNanos <;> omega

/-- An instant in quanta before it is rounded to a double. -/
def inQuanta (i : Instant) : Int := i.seconds * unit + inNanoseconds i.nanos

theorem toDouble_eq (hi : i.IsNear) : i.toDouble = Double.ofQuanta false i.inQuanta := by
  obtain ⟨hfinite, hseconds⟩ := Double.ofInt_exact (hi.seconds_lt.trans (by decide))
  have hnanos := Double.isQuanta_mul_nanosecond hi.nanos_lt
  have hsign : (Double.ofNat i.nanos * 1e-9).isNegative = false := by
    obtain ⟨rank, heq, -⟩ := hnanos
    rw [heq]
    rfl
  rw [toDouble, Double.add_eq_ofQuanta hfinite hnanos.isFinite, hsign, Bool.and_false, hseconds,
    hnanos.isAmount.2]
  rfl

/-- What is later in Unix time is not less. -/
theorem inQuanta_le (hi : i.IsNear) (hj : j.IsNear) (h : i.unixNanos < j.unixNanos) :
    i.inQuanta ≤ j.inQuanta := by
  obtain ⟨d, hd⟩ : ∃ d, j.seconds = i.seconds + d := ⟨j.seconds - i.seconds, by omega⟩
  have hnanos := hi.nanos_lt
  have hnanos' := hj.nanos_lt
  have hunix : i.nanos < d * 10 ^ 9 + j.nanos := by
    unfold unixNanos at h
    omega
  have hquanta : inNanoseconds i.nanos ≤ d * unit + inNanoseconds j.nanos := by
    rcases (show d = -1 ∨ d = 0 ∨ d = 1 ∨ 2 ≤ d by omega) with rfl | rfl | rfl | hd
    · have := Double.add_unit_le_inNanoseconds (show i.nanos + 10 ^ 9 < j.nanos by omega) hnanos'
      omega
    · have := Double.inNanoseconds_mono (show i.nanos ≤ j.nanos by omega)
      omega
    · have := Double.inNanoseconds_le_add_unit (show i.nanos < j.nanos + 10 ^ 9 by omega) hnanos'
      omega
    · have hlimit := Double.inNanoseconds_le hnanos.le
      have hseconds : 2 * (unit : Int) ≤ d * unit := Int.mul_le_mul_of_nonneg_right hd (by omega)
      omega
  rw [inQuanta, inQuanta, hd, Int.add_mul]
  omega

/-- Later in Unix time means later, or the same, in the total order of doubles. -/
theorem totalLe_toDouble (hi : i.IsNear) (hj : j.IsNear) (h : i.unixNanos < j.unixNanos) :
    totalLe i.toDouble j.toDouble = true := by
  have hle := inQuanta_le hi hj h
  rw [toDouble_eq hi, toDouble_eq hj]
  refine Double.totalLe_of_le (Double.ofQuanta_le_ofQuanta _ _ hle) fun hneg => ?_
  rw [Double.isNegative_ofQuanta] at hneg ⊢
  split_ifs at hneg with hzero
  have := of_decide_eq_true hneg
  rw [if_neg (by omega), decide_eq_true (by omega)]

/-- The double of an instant is finite: it lies within two seconds of a whole number. -/
theorem isFinite_toDouble (hi : i.IsNear) : i.toDouble.isFinite = true := by
  have hseconds := hi.seconds_lt
  have hnanos := Double.inNanoseconds_le hi.nanos_lt.le
  obtain ⟨hlower, -⟩ := Double.ofInt_exact (hseconds.trans (by decide))
  obtain ⟨hupper, -⟩ := Double.ofInt_exact (show (i.seconds + 2).natAbs < 2 ^ 53 by omega)
  rw [toDouble_eq hi]
  refine Double.isFinite_of_between hlower hupper (Double.ofQuanta_le_ofQuanta _ _ ?_)
    (Double.ofQuanta_le_ofQuanta _ _ ?_) <;> rw [inQuanta]
  · omega
  · rw [Int.add_mul]
    omega

end Instant

namespace Timestamp

variable {text text' : List Char} {i j : Instant}

/-- The text is a date and a time of day, and denotes an instant. -/
structure Denotes (text : List Char) (i : Instant) : Prop where
  no_number : Double.ofChars? (Text.trim text) = none
  instant : instant? (Text.trim text) = some i

instance (text : List Char) (i : Instant) : Decidable (Denotes text i) :=
  decidable_of_iff (Double.ofChars? (Text.trim text) = none ∧ instant? (Text.trim text) = some i)
    ⟨fun h => ⟨h.1, h.2⟩, fun h => ⟨h.no_number, h.instant⟩⟩

theorem Denotes.isNear (h : Denotes text i) : i.IsNear := reads_anyForm _ i h.instant

theorem Denotes.read? (h : Denotes text i) : read? text = some i.toDouble := by
  rw [Timestamp.read?, h.no_number]
  dsimp only
  rw [h.instant]
  rfl

/-- A text that is read is a number, or denotes an instant. -/
theorem isFinite_of_read? {x : Double} (h : Timestamp.read? text = some x) :
    x.isFinite = true := by
  rw [Timestamp.read?] at h
  split at h
  next number =>
    split_ifs at h with hfinite
    exact Option.some.inj h ▸ hfinite
  next =>
    obtain ⟨i, hi, rfl⟩ := Option.map_eq_some_iff.1 h
    exact Instant.isFinite_toDouble (reads_anyForm _ i hi)

/-- Timestamps keep the order of Unix time. -/
theorem Denotes.totalLe (h : Denotes text i) (h' : Denotes text' j)
    (hunix : i.unixNanos < j.unixNanos) : Double.totalLe i.toDouble j.toDouble = true :=
  Instant.totalLe_toDouble h.isNear h'.isNear hunix

end Timestamp

end LoadReplay
