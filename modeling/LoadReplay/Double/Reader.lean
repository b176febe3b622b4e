import LoadReplay.Double.Basic

/-!
# Reading decimal text as binary64 numbers

`ofText?` reads an optional sign followed by digits with an optional point and an optional
exponent, or by one of the words `inf`, `infinity` and `nan` in any case, and rounds once.
-/

namespace LoadReplay.Double

/-- The value of a decimal digit. -/
def digitValue (c : Char) : Nat := c.toNat - '0'.toNat

/-- The natural number that a run of digits denotes. -/
def digitsValue (cs : List Char) : Nat := cs.foldl (fun n c => 10 * n + digitValue c) 0

/-- The number nearest to `± m · 10 ^ e` where `m` has at most `digits` digits. Magnitudes from
`10 ^ 310` on are infinite and those below `10 ^ (-330)` are zero, whatever the digits. -/
def ofScaled (negative : Bool) (m digits : Nat) (e : Int) : Double :=
  if m = 0 then zero negative
  else if e > 310 then infinite negative
  else if e + digits < -330 then zero negative
  else ofDecimal negative m e

/-- Splits off a leading sign; `true` for a minus. -/
def splitSign : List Char → Bool × List Char
  | '-' :: cs => (true, cs)
  | '+' :: cs => (false, cs)
  | cs => (false, cs)

/-- A run of at least one digit and nothing else. -/
def wholeDigits? (cs : List Char) : Option Nat :=
  if cs.isEmpty || !cs.all Char.isDigit then none else some (digitsValue cs)

/-- What may follow the digits: nothing, or `e` and a signed whole number. -/
def exponentOf? : List Char → Option Int
  | [] => some 0
  | c :: cs =>
    if c = 'e' || c = 'E' then
      let (negative, ds) := splitSign cs
      (wholeDigits? ds).map fun n => if negative then -(n : Int) else n
    else none

/-- Digits before an optional point and digits after it, with the rest of the text. -/
def splitDigits (cs : List Char) : List Char × List Char × List Char :=
  let whole := cs.takeWhile Char.isDigit
  match cs.dropWhile Char.isDigit with
  | '.' :: rest => (whole, rest.takeWhile Char.isDigit, rest.dropWhile Char.isDigit)
  | rest => (whole, [], rest)

/-- The number without its sign. -/
def magnitude? (negative : Bool) (cs : List Char) : Option Double :=
  let word := cs.map Char.toLower
  if word = "inf".toList || word = "infinity".toList then some (infinite negative)
  else if word = "nan".toList then some nan
  else
    let (whole, fraction, rest) := splitDigits cs
    if whole.isEmpty && fraction.isEmpty then none
    else
      (exponentOf? rest).map fun e =>
        let digits := (whole ++ fraction).dropWhile (· == '0')
        ofScaled negative (digitsValue digits) digits.length (e - fraction.length)

/-- Reads a decimal number, rounding to nearest with ties to even. -/
def ofChars? (cs : List Char) : Option Double :=
  let (negative, rest) := splitSign cs
  magnitude? negative rest

/-- Reads a decimal number from a string. -/
def ofText? (s : String) : Option Double := ofChars? s.toList

end LoadReplay.Double
