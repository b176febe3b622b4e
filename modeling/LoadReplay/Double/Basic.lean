/-!
# Binary64 numbers

A `Double` is a number of the IEEE 754 binary64 format with one NaN. A finite one is a sign and the
*rank* of its magnitude among all finite magnitudes: rank `0` is zero, rank `1` the smallest
subnormal, and so on in increasing order, so the rank is also the bit pattern without its sign.

Every finite magnitude is a whole number of *quanta* of `2 ^ (-1074)`, the smallest positive
magnitude. `quanta` reads a rank as that number, `roundRank` is the rank nearest to a quotient of
quanta, ties going to the even rank; all arithmetic is exact in quanta followed by one `roundRank`.
-/

namespace LoadReplay

/-- How many ranks there are from a power of two to the next: `2 ^ 52`. -/
def Double.binade : Nat := 1 <<< 52

/-- The rank of the first magnitude past the finite ones, which is the bit pattern of infinity. -/
def Double.infiniteRank : Nat := 2047 * Double.binade

/-- A binary64 number; `rank` counts the finite magnitudes below this one. -/
inductive Double where
  | nan
  | infinite (negative : Bool)
  | finite (negative : Bool) (rank : Fin Double.infiniteRank)
  deriving DecidableEq, Repr

namespace Double

/-- One, in quanta. -/
def unit : Nat := 1 <<< 1074

/-- The magnitude of a rank, in quanta. -/
def quanta (rank : Nat) : Nat :=
  if rank < binade then rank else (binade + rank % binade) <<< (rank / binade - 1)

/-- The whole number nearest to `num / den`, a half going to the even neighbour. -/
def roundHalfEven (num den : Nat) : Nat :=
  if 2 * (num % den) < den then num / den
  else if den < 2 * (num % den) then num / den + 1
  else num / den + num / den % 2

/-- The rank nearest to `num / den` quanta; `infiniteRank` or more when it is past the finite
ones. The places below the 53 leading bits of the quotient are rounded off. -/
def roundRank (num den : Nat) : Nat :=
  let places := Nat.log2 (num / den) - 52
  places * binade + roundHalfEven num (den <<< places)

/-- The number of a sign and a rank, infinite from `infiniteRank` on. -/
def ofRank (negative : Bool) (rank : Nat) : Double :=
  if h : rank < infiniteRank then finite negative ⟨rank, h⟩ else infinite negative

/-- The number nearest to `num / den` quanta with the given sign. -/
def ofQuotient (negative : Bool) (num den : Nat) : Double :=
  ofRank negative (roundRank num den)

/-- Zero with the given sign. -/
def zero (negative : Bool) : Double := finite negative ⟨0, by decide⟩

/-- The number nearest to a whole number of quanta; `sign` is the sign of a zero. -/
def ofQuanta (sign : Bool) (z : Int) : Double :=
  if z = 0 then zero sign else ofQuotient (z < 0) z.natAbs 1

/-- The number nearest to `± m · 10 ^ e`. -/
def ofDecimal (negative : Bool) (m : Nat) (e : Int) : Double :=
  match e with
  | .ofNat e => ofQuotient negative (m * Nat.pow 10 e * unit) 1
  | .negSucc e => ofQuotient negative (m * unit) (Nat.pow 10 (e + 1))

/-- The number nearest to a natural number. -/
def ofNat (n : Nat) : Double := ofQuotient false (n * unit) 1

/-- The number nearest to an integer. -/
def ofInt (z : Int) : Double := ofQuanta false (z * unit)

instance (n : Nat) : OfNat Double n := ⟨ofNat n⟩

instance : OfScientific Double where
  ofScientific m negativeExponent e := ofDecimal false m (if negativeExponent then -e else e)

instance : Inhabited Double := ⟨0⟩

/-! ## Classes and signs -/

/-- Neither infinite nor NaN. -/
def isFinite : Double → Bool
  | finite _ _ => true
  | _ => false

def isInfinite : Double → Bool
  | infinite _ => true
  | _ => false

/-- The sign bit; NaN counts as positive. -/
def isNegative : Double → Bool
  | nan => false
  | infinite s => s
  | finite s _ => s

/-- The value of a finite number in quanta, and `0` for the others. -/
def inQuanta : Double → Int
  | finite true r => -(quanta r.val : Int)
  | finite false r => quanta r.val
  | _ => 0

/-- The number with the other sign. -/
def neg : Double → Double
  | nan => nan
  | infinite s => infinite !s
  | finite s r => finite (!s) r

instance : Neg Double := ⟨neg⟩

/-- The bit pattern, with one quiet pattern for NaN. -/
def toBits : Double → Nat
  | nan => (1 <<< 63) - (1 <<< 51)
  | infinite s => (s.toNat <<< 63) + infiniteRank
  | finite s r => (s.toNat <<< 63) + r.val

/-! ## Order

The ordinary comparisons are false on NaN and take the two zeros as equal; `totalLe` is the total
order `-∞ < … < -0 < 0 < … < ∞ < NaN`. -/

/-- The place of a number that is not NaN on the number line, in ranks. -/
def place : Double → Int
  | nan => 0
  | infinite true => -(infiniteRank : Int)
  | infinite false => infiniteRank
  | finite true r => -(r.val : Int)
  | finite false r => r.val

/-- Ordinary `a < b`. -/
def lt (a b : Double) : Bool := a != nan && b != nan && decide (a.place < b.place)

/-- Ordinary `a ≤ b`. -/
def le (a b : Double) : Bool := a != nan && b != nan && decide (a.place ≤ b.place)

instance : LT Double := ⟨fun a b => lt a b = true⟩
instance : LE Double := ⟨fun a b => le a b = true⟩
instance (a b : Double) : Decidable (a < b) := inferInstanceAs (Decidable (lt a b = true))
instance (a b : Double) : Decidable (a ≤ b) := inferInstanceAs (Decidable (le a b = true))

/-- The place of a number in the total order. -/
def totalPlace : Double → Int
  | nan => infiniteRank + 1
  | infinite true => -(infiniteRank : Int) - 1
  | infinite false => infiniteRank
  | finite true r => -(r.val : Int) - 1
  | finite false r => r.val

/-- The total order. -/
def totalLe (a b : Double) : Bool := decide (a.totalPlace ≤ b.totalPlace)

/-- A list in the total order, equal numbers in their old order. -/
def sort (xs : List Double) : List Double := xs.mergeSort totalLe

/-! ## Small laws -/

theorem totalLe_total (a b : Double) : (totalLe a b || totalLe b a) = true := by
  simp only [totalLe, Bool.or_eq_true, decide_eq_true_eq]
  omega

theorem totalLe_trans (a b c : Double) (hab : totalLe a b = true) (hbc : totalLe b c = true) :
    totalLe a c = true := by
  simp only [totalLe, decide_eq_true_eq] at *
  omega

theorem totalPlace_injective {a b : Double} (h : a.totalPlace = b.totalPlace) : a = b := by
  rcases a with _ | s | ⟨s, r, hr⟩ <;> rcases b with _ | t | ⟨t, q, hq⟩
  all_goals (try cases s) <;> (try cases t) <;> simp [totalPlace] at h ⊢ <;> omega

theorem totalLe_antisymm {a b : Double} (hab : totalLe a b = true) (hba : totalLe b a = true) :
    a = b := by
  simp only [totalLe, decide_eq_true_eq] at hab hba
  exact totalPlace_injective (Int.le_antisymm hab hba)

end Double

end LoadReplay
