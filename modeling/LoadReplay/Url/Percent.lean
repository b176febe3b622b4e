import LoadReplay.Text.Utf8

/-!
# Percent encoding

A byte that may not stand in a part of a URL is written as `%` and two hexadecimal digits. Each
part has its own set of such characters; controls and characters outside ASCII are in all of them.
-/

namespace LoadReplay.Url

/-- A digit of a number below sixteen, in upper case. -/
def hexDigit (n : Nat) : Char := (Nat.digitChar n).toUpper

/-- The escape of a byte. -/
def escapeByte (b : UInt8) : List Char := ['%', hexDigit (b.toNat / 16), hexDigit (b.toNat % 16)]

/-- The escapes of the bytes of a character. -/
def escapeChar (c : Char) : List Char := (Utf8.encode [c]).flatMap escapeByte

/-- The text with the characters of a set escaped. -/
def percentEncode (isEscaped : Char → Bool) (cs : List Char) : List Char :=
  cs.flatMap fun c => if isEscaped c then escapeChar c else [c]

/-- The value of a byte as a hexadecimal digit. -/
def hexValue? (b : UInt8) : Option Nat :=
  let n := b.toNat
  if 48 ≤ n ∧ n ≤ 57 then some (n - 48)
  else if 65 ≤ n ∧ n ≤ 70 then some (n - 55)
  else if 97 ≤ n ∧ n ≤ 102 then some (n - 87)
  else none

/-- The bytes with the escapes among them resolved; a `%` without two digits stands for itself. -/
def percentDecode : Bytes → Bytes
  | [] => []
  | 37 :: rest@(a :: b :: tail) =>
    match hexValue? a, hexValue? b with
    | some x, some y => UInt8.ofNat (16 * x + y) :: percentDecode tail
    | _, _ => 37 :: percentDecode rest
  | b :: rest => b :: percentDecode rest
termination_by bs => bs.length

/-! ## The sets -/

/-- Controls, the delete character, and what lies outside ASCII. -/
def isControl (c : Char) : Bool := decide (c.toNat < 0x20) || decide (0x7F ≤ c.toNat)

/-- Escaped in a fragment. -/
def escapedInFragment (c : Char) : Bool := isControl c || [' ', '"', '<', '>', '\x60'].contains c

/-- Escaped in a path. -/
def escapedInPath (c : Char) : Bool :=
  escapedInFragment c || ['#', '?', '\x7b', '\x7d'].contains c

/-- Escaped in a user name and a password. -/
def escapedInUserinfo (c : Char) : Bool :=
  escapedInPath c || ['/', ':', ';', '=', '@', '[', '\\', ']', '^', '|'].contains c

/-- Escaped in a query. -/
def escapedInQuery (c : Char) : Bool := isControl c || [' ', '"', '#', '<', '>', '\x27'].contains c

end LoadReplay.Url
