import LoadReplay.Double.Basic

/-!
# Decimal text of binary64 numbers

`shortest` finds the decimal number with the fewest digits that rounds back to a given one, and
among those the nearest. `plain` writes it positionally, `fixed` writes the exact value with a
given number of places.
-/

namespace LoadReplay.Double

/-- The decimal number `coefficient · 10 ^ exponent`. -/
structure Digits where
  coefficient : Nat
  exponent : Int
  deriving Repr, DecidableEq

/-- Which of two equally near decimal numbers is written. -/
inductive Tie where
  | up
  | even
  deriving Repr, DecidableEq

/-- The number of decimal digits of a natural number. -/
def decimalLength (n : Nat) : Nat :=
  if n < 10 then 1 else decimalLength (n / 10) + 1
termination_by n
decreasing_by omega

/-- How many times `num` has to be multiplied by ten to reach `den`, at most `fuel` times. -/
def placesBelow (den : Nat) : Nat → Nat → Nat
  | 0, _ => 0
  | fuel + 1, num => if den ≤ num then 0 else placesBelow den fuel (10 * num) + 1

/-- The power of ten at or below `num / den`, for a positive quotient. -/
def leadingPlace (num den : Nat) : Int :=
  if den ≤ num then (decimalLength (num / den) : Int) - 1
  else -(placesBelow den (Nat.log2 den + 1) num : Int)

/-- Whether `y / scale` half quanta round to `rank`: the ends of the interval half way to the
neighbours belong to the even rank. -/
def roundsTo (rank scale y : Nat) : Bool :=
  let low := (quanta (rank - 1) + quanta rank) * scale
  let high := (quanta rank + quanta (rank + 1)) * scale
  if rank % 2 = 0 then decide (low ≤ y ∧ y ≤ high) else decide (low < y ∧ y < high)

/-- The multiple of `10 ^ place` that rounds to `rank` and is nearest to it, if there is one. Only
the two multiples around the value can be. -/
def onGrid (tie : Tie) (rank : Nat) (place : Int) : Option Digits :=
  let scale := Nat.pow 10 (-place).toNat
  let step := 2 * unit * Nat.pow 10 place.toNat
  let value := 2 * quanta rank * scale
  let below := value / step
  let lowFits := roundsTo rank scale (below * step)
  let highFits := roundsTo rank scale ((below + 1) * step)
  let rest := value % step
  let goUp := decide (step < 2 * rest) ||
    (decide (step = 2 * rest) && (tie == .up || below % 2 == 1))
  if lowFits && !(highFits && goUp) then some ⟨below, place⟩
  else if highFits then some ⟨below + 1, place⟩
  else none

/-- The same decimal number without zeros at the end of its coefficient. -/
def Digits.trim (d : Digits) : Digits :=
  go (decimalLength d.coefficient) d
where
  go : Nat → Digits → Digits
    | 0, d => d
    | fuel + 1, d =>
      if d.coefficient % 10 = 0 ∧ d.coefficient ≠ 0
      then go fuel ⟨d.coefficient / 10, d.exponent + 1⟩ else d

/-- The shortest decimal number that rounds to a positive rank; 17 digits always suffice. -/
def shortest (tie : Tie) (rank : Nat) : Digits :=
  let lead := leadingPlace (quanta rank) unit
  (((List.range 17).findSome? fun (n : Nat) => onGrid tie rank (lead - n)).getD ⟨0, 0⟩).trim

/-! ## Writing -/

/-- The digits of a natural number. -/
def digitText (n : Nat) : List Char := Nat.toDigits 10 n

/-- At least `width` digits, with zeros in front. -/
def paddedDigits (width n : Nat) : List Char :=
  List.replicate (width - (digitText n).length) '0' ++ digitText n

/-- `n / 10 ^ places` written with all its places. -/
def withPoint (places n : Nat) : List Char :=
  if places = 0 then digitText n
  else
    let ds := paddedDigits (places + 1) n
    ds.take (ds.length - places) ++ '.' :: ds.drop (ds.length - places)

/-- A decimal number without an exponent and without a point when it is whole. -/
def Digits.positional (d : Digits) : List Char :=
  match d.exponent with
  | .ofNat e => digitText d.coefficient ++ List.replicate e '0'
  | .negSucc e => withPoint (e + 1) d.coefficient

/-- The sign in front of a written number. -/
def signText (negative : Bool) (cs : List Char) : String :=
  String.ofList (if negative then '-' :: cs else cs)

/-- The shortest text that reads back, never with an exponent; of two equally near texts the
larger magnitude. -/
def plain : Double → String
  | nan => "NaN"
  | infinite s => signText s "inf".toList
  | finite s r => signText s (if r.val = 0 then ['0'] else (shortest .up r).positional)

/-- The exact value with a fixed number of places, a half going to the even digit. -/
def fixed (places : Nat) : Double → String
  | nan => "NaN"
  | infinite s => signText s "inf".toList
  | finite s r => signText s (withPoint places (roundHalfEven (quanta r * Nat.pow 10 places) unit))

end LoadReplay.Double
