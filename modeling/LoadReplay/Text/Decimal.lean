import LoadReplay.Double.Reader

/-!
# Natural numbers in text

`natBelow?` reads an optional plus sign and decimal digits as a natural number below a bound.
-/

namespace LoadReplay.Text

/-- The natural number written by digits after an optional plus sign, if it is below `bound`. -/
def natBelow? (bound : Nat) (cs : List Char) : Option Nat :=
  let digits := match cs with
    | '+' :: ds => ds
    | ds => ds
  match Double.wholeDigits? digits with
  | some n => if n < bound then some n else none
  | none => none

/-- A natural number in decimal digits. -/
def ofNat (n : Nat) : String := String.ofList (Nat.toDigits 10 n)

end LoadReplay.Text
