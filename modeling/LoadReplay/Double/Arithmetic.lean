import LoadReplay.Double.Basic

/-!
# Arithmetic on binary64 numbers

Each operation computes the exact result in quanta and rounds once, to nearest with ties to even.
Whole parts (`floorNat`, `ceilNat`, `roundNat`) are taken from the exact value.
-/

namespace LoadReplay.Double

/-- The whole part of the square root: the digits of `n` are taken two bits at a time. -/
def floorSqrt (n : Nat) : Nat :=
  if n = 0 then 0
  else
    let r := 2 * floorSqrt (n / 4)
    if (r + 1) * (r + 1) ≤ n then r + 1 else r
termination_by n
decreasing_by omega

/-! ## The four operations and the root -/

/-- Sum. A sum that is exactly zero is negative only when both summands are. -/
def add : Double → Double → Double
  | nan, _ => nan
  | _, nan => nan
  | infinite s, infinite t => if s = t then infinite s else nan
  | infinite s, _ => infinite s
  | _, infinite t => infinite t
  | finite s a, finite t b =>
    ofQuanta (s && t) ((finite s a).inQuanta + (finite t b).inQuanta)

/-- Difference. -/
def sub (a b : Double) : Double := add a (neg b)

/-- Product. -/
def mul : Double → Double → Double
  | nan, _ => nan
  | _, nan => nan
  | infinite s, infinite t => infinite (s != t)
  | infinite s, finite t b => if b.val = 0 then nan else infinite (s != t)
  | finite s a, infinite t => if a.val = 0 then nan else infinite (s != t)
  | finite s a, finite t b => ofQuotient (s != t) (quanta a * quanta b) unit

/-- Quotient. -/
def div : Double → Double → Double
  | nan, _ => nan
  | _, nan => nan
  | infinite _, infinite _ => nan
  | infinite s, finite t _ => infinite (s != t)
  | finite s _, infinite t => zero (s != t)
  | finite s a, finite t b =>
    if b.val = 0 then if a.val = 0 then nan else infinite (s != t)
    else ofQuotient (s != t) (quanta a * unit) (quanta b)

instance : Add Double := ⟨add⟩
instance : Sub Double := ⟨sub⟩
instance : Mul Double := ⟨mul⟩
instance : Div Double := ⟨div⟩

/-- Square root. The root of `q` quanta is the root of `q · 2 ^ 1074` as a number of quanta; it has
hundreds of bits below the 53 that are kept, so its whole part and whether it is exact decide the
rounding. -/
def sqrt : Double → Double
  | nan => nan
  | infinite s => if s then nan else infinite false
  | finite s a =>
    if a.val = 0 then finite s a
    else if s then nan
    else
      let n := quanta a * unit
      let r := floorSqrt n
      ofQuotient false (2 * r + (if r * r = n then 0 else 1)) 2

/-- The sum of a list from left to right, starting at `-0`. -/
def sum (xs : List Double) : Double := xs.foldl (· + ·) (zero true)

/-! ## Whole parts of non-negative numbers -/

/-- The largest whole number not above a non-negative finite number, and `0` for the others. -/
def floorNat : Double → Nat
  | finite false r => quanta r / unit
  | _ => 0

/-- The smallest whole number not below a non-negative finite number, and `0` for the others. -/
def ceilNat : Double → Nat
  | finite false r => (quanta r + (unit - 1)) / unit
  | _ => 0

/-- The nearest whole number, a half going up, within 64 bits; negative numbers and NaN give
`0`. -/
def roundNat : Double → Nat
  | finite false r => min ((2 * quanta r + unit) / (2 * unit)) ((1 <<< 64) - 1)
  | infinite false => (1 <<< 64) - 1
  | _ => 0

end LoadReplay.Double
