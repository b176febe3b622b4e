import LoadReplay.Json.Basic
import LoadReplay.Double.Reader

/-!
# Numbers in JSON text

A whole number that fits in 64 bits is exact. Every other number is a significand of at most 64
bits, digits past them being dropped, multiplied or divided by a power of ten in doubles; one that
is too large for a double is refused.
-/

namespace LoadReplay.Json

/-- The largest significand. -/
def maxSignificand : Nat := (1 <<< 64) - 1

/-- The largest exponent that is counted. -/
def maxExponent : Nat := (1 <<< 31) - 1

/-- The powers of ten that a double holds end here. -/
def maxPower : Nat := 308

/-- Adds digits to a significand as long as it fits, and gives it with the digits that were
added and the rest of the text. -/
def addDigits (significand : Nat) : List Char → Nat × Nat × List Char
  | [] => (significand, 0, [])
  | c :: cs =>
    if c.isDigit then
      let longer := 10 * significand + Double.digitValue c
      if longer ≤ maxSignificand then
        let (s, added, rest) := addDigits longer cs
        (s, added + 1, rest)
      else (significand, 0, c :: cs)
    else (significand, 0, c :: cs)

/-- `f · 10 ^ e` in doubles, step by step; `none` when it overflows. -/
def scale (f : Double) (e : Int) : Option Double :=
  if 0 ≤ e then
    if e ≤ maxPower then
      let product := f * Double.ofDecimal false 1 e
      if product.isInfinite then none else some product
    else if f = Double.zero false then some f
    else none
  else if -(maxPower : Int) ≤ e then some (f / Double.ofDecimal false 1 (-e))
  else if f = Double.zero false then some f
  else scale (f / Double.ofDecimal false 1 maxPower) (e + maxPower)
termination_by (-e).toNat
decreasing_by simp only [maxPower] at *; omega

/-- A number with a point or an exponent, or one too long to be whole. -/
def finish (negative : Bool) (significand : Nat) (e : Int) : Option Number :=
  (scale (Double.ofNat significand) e).map fun f => .double (if negative then -f else f)

/-- The exponent after `e`, added to the one that the digits gave. -/
def exponent (negative : Bool) (significand : Nat) (e : Int) (cs : List Char) :
    Option (Number × List Char) :=
  let (down, cs) := Double.splitSign cs
  let ds := cs.takeWhile Char.isDigit
  let rest := cs.drop ds.length
  let n := Double.digitsValue ds
  if ds.isEmpty then none
  else if n ≤ maxExponent then
    (finish negative significand (if down then e - n else e + n)).map (·, rest)
  else if significand ≠ 0 ∧ !down then none
  else some (.double (Double.zero negative), rest)

/-- What may follow the digits: an exponent, or nothing of the number. -/
def afterDigits (negative : Bool) (significand : Nat) (e : Int) :
    List Char → Option (Number × List Char)
  | 'e' :: cs => exponent negative significand e cs
  | 'E' :: cs => exponent negative significand e cs
  | cs => (finish negative significand e).map (·, cs)

/-- The digits after the point. -/
def fraction (negative : Bool) (significand : Nat) (e : Int) (cs : List Char) :
    Option (Number × List Char) :=
  if (cs.takeWhile Char.isDigit).isEmpty then none
  else
    let (s, added, rest) := addDigits significand cs
    afterDigits negative s (e - added) (rest.dropWhile Char.isDigit)

/-- A whole number within its bounds: below `2 ^ 64`, or from `-2 ^ 63` to `-1`. -/
def whole (negative : Bool) (n : Nat) : Number :=
  if negative then
    if 0 < n ∧ n ≤ 1 <<< 63 then .whole (-(n : Int)) else .double (-Double.ofNat n)
  else .whole n

/-- A number without its sign: no zero in front of other digits. -/
def unsigned (negative : Bool) (cs : List Char) : Option (Number × List Char) :=
  let digits := cs.takeWhile Char.isDigit
  if digits.isEmpty || (digits.head? == some '0' && 1 < digits.length) then none
  else
    let (s, _, more) := addDigits 0 cs
    let dropped := (more.takeWhile Char.isDigit).length
    match more.dropWhile Char.isDigit with
    | '.' :: rest => fraction negative s dropped rest
    | 'e' :: rest => exponent negative s dropped rest
    | 'E' :: rest => exponent negative s dropped rest
    | rest =>
      if dropped = 0 then some (whole negative s, rest)
      else (finish negative s dropped).map (·, rest)

/-- A number at the start of a text, and the text after it. -/
def number? : List Char → Option (Number × List Char)
  | '-' :: cs => unsigned true cs
  | cs => unsigned false cs

end LoadReplay.Json
