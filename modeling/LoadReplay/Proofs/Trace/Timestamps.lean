import LoadReplay.Proofs.Double.Decimal
import LoadReplay.Proofs.Double.Signed
import LoadReplay.Timestamp

/-!
# Timestamps are numbers

A timestamp that is read is a number, so that it has its place among others
(`Timestamp.read?_ne_nan`): a number of seconds is refused unless it is finite, and the seconds of
an instant are too few to be taken for infinite.
-/

namespace LoadReplay

namespace Double

variable {a b : Double}

theorem add_ne_nan (ha : a.isFinite = true) (hb : b ≠ nan) : a + b ≠ nan := by
  obtain ⟨s, r, rfl⟩ := exists_of_isFinite ha
  cases b with
  | nan => exact absurd rfl hb
  | infinite t => nofun
  | finite t q => exact ofQuanta_ne_nan _ _

theorem mul_ne_nan (ha : a ≠ nan) (hb : b.isFinite = true) (hpos : 0 < b) : a * b ≠ nan := by
  obtain ⟨t, q, rfl⟩ := exists_of_isFinite hb
  cases a with
  | nan => exact absurd rfl ha
  | finite s r =>
    rw [finite_mul_finite]
    exact ofRank_ne_nan _ _
  | infinite s =>
    have hq : q.val ≠ 0 := (pos_finite_iff.1 hpos).2.ne'
    change mul (infinite s) (finite t q) ≠ nan
    rw [mul, if_neg hq]
    rintro ⟨⟩

/-- A whole number that is not too large is far from the infinite rank. -/
theorem roundRank_lt_infiniteRank {n : Nat} (h : n ≤ 2 ^ 64) :
    roundRank (n * unit) 1 < infiniteRank := by
  have hbound : roundRank (2 ^ 64 * unit) 1 < infiniteRank := by decide +kernel
  refine (roundRank_le_roundRank Nat.one_pos Nat.one_pos ?_).trans_lt hbound
  exact Nat.mul_le_mul_right _ (Nat.mul_le_mul_right _ h)

theorem isFinite_ofNat {n : Nat} (h : n ≤ 2 ^ 64) : (ofNat n).isFinite = true := by
  rw [ofNat, ofQuotient, ofRank, dif_pos (roundRank_lt_infiniteRank h)]
  rfl

/-- A whole number of 53 binary digits is a number. -/
theorem ofInt_exact {z : Int} (h : z.natAbs < 2 ^ 53) :
    (ofInt z).isFinite = true ∧ (ofInt z).inQuanta = z * unit := by
  have hrank := roundRank_lt_infiniteRank (h.le.trans (by decide))
  have hexact : quanta (roundRank (z.natAbs * unit) 1) = z.natAbs * unit := by
    refine quanta_roundRank_of_lt (e := unitPlaces) (unit_eq ▸ Nat.dvd_mul_left _ _) ?_
    rw [Nat.pow_add, ← unit_eq, Nat.mul_comm unit]
    exact Nat.mul_lt_mul_of_pos_right h unit_pos
  have hunit : (0 : Int) < unit := Int.natCast_pos.2 unit_pos
  rw [ofInt, ofQuanta]
  split_ifs with hzero
  · rw [hzero]
    exact ⟨rfl, rfl⟩
  · rw [ofQuotient, Int.natAbs_mul, Int.natAbs_natCast, ofRank, dif_pos hrank]
    refine ⟨rfl, ?_⟩
    rcases Int.lt_or_le z 0 with hneg | hpos
    · rw [decide_eq_true (Int.mul_neg_of_neg_of_pos hneg hunit), inQuanta, hexact,
        Int.natCast_mul, ← Int.neg_mul, Int.ofNat_natAbs_of_nonpos hneg.le, Int.neg_neg]
    · rw [decide_eq_false (Int.not_lt.2 (Int.mul_nonneg hpos hunit.le)), inQuanta, hexact,
        Int.natCast_mul, Int.natAbs_of_nonneg hpos]

end Double

namespace Timestamp

/-! ## What a text can be read as -/

/-- Whatever is read has the property. -/
def Reads {α : Type} (p : α → Prop) (read : Option α) : Prop := ∀ a ∈ read, p a

section

variable {α β : Type} {p : β → Prop} {x y : Option β}

theorem Reads.bind {read : Option α} {f : α → Option β} (h : ∀ a ∈ read, Reads p (f a)) :
    Reads p (read >>= f) := by
  intro b hb
  obtain ⟨a, ha, hab⟩ := Option.bind_eq_some_iff.1 hb
  exact h a ha b hab

theorem Reads.ite {c : Prop} [Decidable c] (h : Reads p x) : Reads p (if c then x else none) := by
  split
  · exact h
  · nofun

theorem Reads.or (hx : Reads p x) (hy : Reads p y) : Reads p (x.or y) := by
  intro b hb
  rcases Option.or_eq_some_iff.1 hb with h | ⟨-, h⟩
  · exact hx b h
  · exact hy b h

end

/-- What is read behind the point is less than a second. -/
theorem reads_fraction? (cs : List Char) : Reads (fun read => read.1 < 10 ^ 9) (fraction? cs) := by
  unfold fraction?
  split
  next cs =>
    dsimp only
    split
    · nofun
    next =>
      intro read hread
      obtain rfl := Option.some.inj hread
      have hlength := List.length_take_le 9 (cs.takeWhile Char.isDigit)
      have hdigits := Double.digitsValue_lt ((cs.takeWhile Char.isDigit).take 9) fun c hc =>
        List.mem_takeWhile_imp (List.mem_of_mem_take hc)
      generalize (cs.takeWhile Char.isDigit).take 9 = kept at hlength hdigits
      calc Double.digitsValue kept * 10 ^ (9 - kept.length)
          < 10 ^ kept.length * 10 ^ (9 - kept.length) :=
            Nat.mul_lt_mul_of_pos_right hdigits (Nat.pow_pos (by decide))
        _ = 10 ^ 9 := by rw [← Nat.pow_add, Nat.add_sub_cancel' hlength]
  next =>
    intro read hread
    obtain rfl := Option.some.inj hread
    exact Nat.pow_pos (by decide)

end Timestamp

/-- The instant is near enough to 1970 for its seconds to be a number, and its nanoseconds are those
of a second or of the leap second behind it. -/
structure Instant.IsNear (i : Instant) : Prop where
  seconds_lt : i.seconds.natAbs < 2 ^ 52
  nanos_lt : i.nanos < 2 * 10 ^ 9

namespace Timestamp

/-! ## Instants that are read -/

theorem reads_instant? {reading : Reading} (hnanos : reading.nanos < 10 ^ 9) (offset : Int) :
    Reads Instant.IsNear (reading.instant? offset) := by
  have hfirst : -(2 ^ 30) ≤ Date.earliest.dayNumber := by decide
  have hlast : Date.latest.dayNumber ≤ 2 ^ 30 := by decide
  intro i hi
  rw [Reading.instant?] at hi
  split at hi
  next hrange =>
    obtain ⟨-, -, hlower, hupper⟩ := hrange
    obtain rfl := Option.some.inj hi
    constructor <;> dsimp only
    · omega
    · split <;> omega
  next => cases hi

theorem reads_strict? (cs : List Char) : Reads Instant.IsNear (strict? cs) := by
  refine .bind fun ⟨_, _⟩ _ => .bind fun _ _ => .bind fun ⟨_, _⟩ _ => .bind fun _ _ =>
    .bind fun ⟨_, _⟩ _ => ?_
  dsimp only
  -- whatever stands between date and time, the clock and the zone are read alike behind it
  split
  all_goals
    exact .bind fun _ _ => .bind fun ⟨_, _⟩ _ => .bind fun _ _ => .bind fun ⟨_, _⟩ _ =>
      .bind fun _ _ => .bind fun ⟨_, _⟩ _ => .bind fun ⟨_, _⟩ hfraction =>
        .bind fun ⟨_, _⟩ _ => .ite (reads_instant? (reads_fraction? _ _ hfraction) _)

theorem reads_looseReading? (separator? : List Char → Option (List Char)) (cs : List Char) :
    Reads (fun read => read.1.nanos < 10 ^ 9) (looseReading? separator? cs) := by
  refine .bind fun ⟨_, _⟩ _ => .bind fun _ _ => .bind fun ⟨_, _⟩ _ => .bind fun _ _ =>
    .bind fun ⟨_, _⟩ _ => .bind fun _ _ => .bind fun ⟨_, _⟩ _ => .bind fun _ _ =>
      .bind fun ⟨_, _⟩ _ => .bind fun _ _ => .bind fun ⟨_, _⟩ _ =>
        .bind fun ⟨_, _⟩ hfraction => ?_
  intro read hread
  obtain rfl := Option.some.inj hread
  exact reads_fraction? _ _ hfraction

theorem reads_looseWithOffset? (cs : List Char) : Reads Instant.IsNear (looseWithOffset? cs) :=
  .bind fun ⟨_, _⟩ hreading => .bind fun ⟨_, _⟩ _ =>
    .ite (reads_instant? (reads_looseReading? _ _ _ hreading) _)

theorem reads_looseInUtc? (separator? : List Char → Option (List Char)) (cs : List Char) :
    Reads Instant.IsNear (looseInUtc? separator? cs) :=
  .bind fun ⟨_, _⟩ hreading => .ite (reads_instant? (reads_looseReading? _ _ _ hreading) _)

theorem reads_anyForm (cs : List Char) : Reads Instant.IsNear (instant? cs) :=
  (reads_strict? cs).or <| (reads_looseWithOffset? cs).or <|
    (reads_looseInUtc? blanks? cs).or (reads_looseInUtc? (char? 'T') cs)

theorem read?_ne_nan {text : List Char} {d : Double} (h : read? text = some d) : d ≠ .nan := by
  rw [read?] at h
  split at h
  next number =>
    split_ifs at h with hfinite
    obtain rfl := Option.some.inj h
    exact Double.ne_nan_of_isFinite hfinite
  next =>
    obtain ⟨i, hi, rfl⟩ := Option.map_eq_some_iff.1 h
    have hseconds := (reads_anyForm _ i hi).seconds_lt
    refine Double.add_ne_nan (Double.ofInt_exact (hseconds.trans (by decide))).1 ?_
    exact Double.mul_ne_nan (Double.ofRank_ne_nan _ _) (by decide +kernel) (by decide +kernel)

end Timestamp

end LoadReplay
