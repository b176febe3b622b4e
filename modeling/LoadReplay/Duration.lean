import LoadReplay.Double.Arithmetic
import LoadReplay.Double.Shortest
import LoadReplay.Text.Decimal

/-!
# Durations

A duration is a natural number of nanoseconds. `ofSeconds?` rounds a double of seconds to the
nearest one, `toSeconds` gives the double of the whole seconds plus the double of the rest, and
`text` writes a duration in the largest unit that it reaches.
-/

namespace LoadReplay

/-- A length of time in nanoseconds. -/
abbrev Duration := Nat

namespace Duration

/-- The nanoseconds of a second. -/
def second : Duration := 1000000000

/-- The nanoseconds of a millisecond. -/
def millisecond : Duration := 1000000

/-- The nanoseconds of a microsecond. -/
def microsecond : Duration := 1000

/-- Durations are shorter than so many seconds. -/
def maxSeconds : Nat := 1 <<< 64

/-- The duration nearest to a number of seconds, a half going to the even neighbour; none for
negative numbers, NaN and numbers that are too large. -/
def ofSeconds? : Double → Option Duration
  | .finite negative rank =>
    if rank.val = 0 then some 0
    else if negative then none
    else if maxSeconds * Double.unit ≤ Double.quanta rank then none
    else some (Double.roundHalfEven (Double.quanta rank * second) Double.unit)
  | _ => none

/-- The duration in seconds. -/
def toSeconds (d : Duration) : Double :=
  Double.ofNat (d / second) + Double.ofNat (d % second) / Double.ofNat second

/-- `d` in a unit of so many nanoseconds, of which there are `places` decimal places, without
zeros at the end. -/
def inUnit (unit places d : Nat) (suffix : String) : String :=
  let fraction := Double.paddedDigits places (d % unit)
  let kept := (fraction.reverse.dropWhile (· == '0')).reverse
  let point := if d % unit = 0 then [] else '.' :: kept
  Text.ofNat (d / unit) ++ String.ofList point ++ suffix

/-- The duration in the largest unit that it reaches. -/
def text (d : Duration) : String :=
  if second ≤ d then inUnit second 9 d "s"
  else if millisecond ≤ d then inUnit millisecond 6 d "ms"
  else if microsecond ≤ d then inUnit microsecond 3 d "µs"
  else inUnit 1 0 d "ns"

end Duration

end LoadReplay
