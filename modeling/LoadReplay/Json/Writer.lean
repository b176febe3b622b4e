import LoadReplay.Json.Basic
import LoadReplay.Double.Shortest

/-!
# Writing JSON text

Numbers are written with the fewest digits that read back, positionally from `10 ^ (-5)` up to
below `10 ^ 16` and with a signed exponent otherwise; texts escape quotes, backslashes and controls.
-/

namespace LoadReplay.Json

/-- A character inside a text. -/
def escape (c : Char) : List Char :=
  match c with
  | '"' => ['\\', '"']
  | '\\' => ['\\', '\\']
  | '\x08' => ['\\', 'b']
  | '\x0c' => ['\\', 'f']
  | '\n' => ['\\', 'n']
  | '\r' => ['\\', 'r']
  | '\t' => ['\\', 't']
  | c =>
    if c.toNat < 0x20 then
      let hex := Nat.toDigits 16 c.toNat
      ['\\', 'u'] ++ List.replicate (4 - hex.length) '0' ++ hex
    else [c]

/-- A text in quotes. -/
def writeText (s : String) : String := String.ofList ('"' :: (s.toList.flatMap escape ++ ['"']))

/-- The smallest power of ten written positionally. -/
def leastPositional : Int := -5

/-- The largest power of ten written positionally. -/
def greatestPositional : Int := 15

/-- A positive decimal number. -/
def writeDigits (d : Double.Digits) : List Char :=
  let ds := Double.digitText d.coefficient
  let lead := d.exponent + (ds.length - 1 : Nat)
  if leastPositional ≤ lead ∧ lead ≤ greatestPositional then
    if 0 ≤ d.exponent then d.positional ++ ['.', '0'] else d.positional
  else
    let mantissa := match ds with
      | [c] => [c]
      | c :: cs => c :: '.' :: cs
      | [] => []
    let sign := if lead < 0 then '-' else '+'
    mantissa ++ 'e' :: sign :: Double.digitText lead.natAbs

/-- A double; infinite ones and NaN have no number in JSON. -/
def writeDouble : Double → String
  | .finite s r =>
    Double.signText s <|
      if r.val = 0 then ['0', '.', '0'] else writeDigits (Double.shortest .even r)
  | _ => "null"

/-- An object from the written texts of its members' values. -/
def writeObject (members : List (String × String)) : String :=
  "\x7b" ++ String.intercalate "," (members.map fun m => writeText m.1 ++ ":" ++ m.2) ++ "\x7d"

end LoadReplay.Json
