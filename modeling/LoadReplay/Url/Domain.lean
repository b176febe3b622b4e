import LoadReplay.Url.Punycode
import LoadReplay.Url.Percent
import LoadReplay.Text.Split

/-!
# Domain names

A domain name is brought to lower case, freed of invisible characters and split into labels at its
full stops; a label with characters outside ASCII is written in Punycode behind `xn--`. Characters
that no domain name may hold, and labels that are no Punycode behind `xn--`, make it invalid.

Case is known for the Latin, Greek, Cyrillic and Armenian letters that come in pairs.
-/

namespace LoadReplay.Url.Domain

/-- Whether a code point is in a range. -/
def within (low high n : Nat) : Bool := decide (low ≤ n ∧ n ≤ high)

/-- Invisible characters, which are left out. -/
def isIgnored (n : Nat) : Bool :=
  n == 0xAD || n == 0x34F || within 0x180B 0x180D n || n == 0x180F || n == 0x200B || n == 0x2060 ||
    n == 0x2064 || within 0xFE00 0xFE0F n || n == 0xFEFF

/-- The distance from a capital letter to its small letter; zero for the others. -/
def toSmall (n : Nat) : Nat :=
  if within 0x41 0x5A n || (within 0xC0 0xDE n && n != 0xD7) then 32
  else if within 0x100 0x12F n || within 0x134 0x137 n || within 0x14A 0x177 n then 1 - n % 2
  else if within 0x139 0x148 n || within 0x179 0x17E n then n % 2
  else if within 0x391 0x3AB n && n != 0x3A2 then 32
  else if n == 0x386 then 38
  else if within 0x388 0x38A n then 37
  else if n == 0x38C then 64
  else if within 0x38E 0x38F n then 63
  else if within 0x400 0x40F n then 80
  else if within 0x410 0x42F n then 32
  else if within 0x460 0x481 n || within 0x48A 0x4BF n || within 0x4D0 0x52F n ||
      within 0x1E00 0x1E95 n || within 0x1EA0 0x1EFF n then 1 - n % 2
  else if within 0x4C1 0x4CE n then n % 2
  else if within 0x531 0x556 n then 48
  else 0

/-- What a character stands for in a domain name. -/
def mapped (c : Char) : List Char :=
  let n := c.toNat
  if isIgnored n then []
  else if n == 0x3002 || n == 0xFF0E || n == 0xFF61 then ['.']
  else if within 0xFF01 0xFF5E n then
    let narrow := n - 0xFEE0
    [Char.ofNat (narrow + toSmall narrow)]
  else if n == 0xA0 || within 0x2000 0x200A n || n == 0x202F || n == 0x205F || n == 0x3000 then
    [' ']
  else if n == 0xAA then ['a']
  else if n == 0xB2 then ['2']
  else if n == 0xB3 then ['3']
  else if n == 0xB5 then ['μ']
  else if n == 0xB9 then ['1']
  else if n == 0xBA then ['o']
  else if n == 0x130 then ['i', '\u0307']
  else if n == 0x178 then ['ÿ']
  else if n == 0x17F then ['s']
  else if n == 0x1E9E then ['ß']
  else [Char.ofNat (n + toSmall n)]

/-- Characters of ASCII that no domain name holds. -/
def isForbidden (c : Char) : Bool :=
  decide (c.toNat ≤ 0x20) || c.toNat == 0x7F ||
    ['%', '#', '/', ':', '<', '>', '?', '@', '[', '\\', ']', '^', '|'].contains c

/-- Characters outside ASCII that no domain name holds: controls, formatting characters, private
ones and those that are none. -/
def isDisallowed (c : Char) : Bool :=
  let n := c.toNat
  within 0x80 0x9F n || n == 0x1680 || within 0x200C 0x200F n || within 0x2028 0x202E n ||
    within 0x2061 0x2063 n || within 0x2065 0x206F n || within 0xE000 0xF8FF n ||
    within 0xFDD0 0xFDEF n || within 0xFFF9 0xFFFF n || within 0xE0000 0xE00FF n ||
    decide (0xE01F0 ≤ n) || n % 0x10000 == 0xFFFE || n % 0x10000 == 0xFFFF

/-- A mark that belongs to the letter before it. -/
def isMark (c : Char) : Bool := within 0x300 0x36F c.toNat || within 0x483 0x489 c.toNat

/-- Characters that a domain name may hold. -/
def isAllowed (c : Char) : Bool := !isForbidden c && !isDisallowed c

/-- A label of ASCII characters only. -/
def isAscii (label : List Char) : Bool := label.all fun c => decide (c.toNat < 0x80)

/-- What stands in front of Punycode. -/
def punycodeMark : List Char := ['x', 'n', '-', '-']

/-- A label outside ASCII that needs no mapping. -/
def isProper (label : List Char) : Bool :=
  !isAscii label && label.all (fun c => isAllowed c && mapped c == [c]) && !label.head?.any isMark

/-- A mapped label in ASCII. -/
def label? (label : List Char) : Option (List Char) :=
  if isAscii label then
    if label.take 4 = punycodeMark then
      match Punycode.decode? (label.drop 4) with
      | some text => if isProper text then some label else none
      | none => none
    else some label
  else if label.head?.any isMark then none
  else some (punycodeMark ++ Punycode.encode label)

/-- The domain name in ASCII. -/
def toAscii? (name : List Char) : Option (List Char) := do
  let small := name.flatMap mapped
  if small.all isAllowed then
    let labels ← (Text.splitOn '.' small).mapM label?
    some (['.'].intercalate labels)
  else none

end LoadReplay.Url.Domain
