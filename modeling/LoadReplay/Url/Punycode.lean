/-!
# Punycode

Texts with characters outside ASCII written in letters, digits and hyphens, as in domain names: the
ASCII characters come first, then the others as the distances between them in the order of their
code points, each distance a number of variable length in base 36 (RFC 3492).
-/

namespace LoadReplay.Url.Punycode

/-- A digit of base 36. -/
def digitChar (d : Nat) : Char :=
  if d < 26 then Char.ofNat ('a'.toNat + d) else Char.ofNat ('0'.toNat + d - 26)

/-- The value of a digit of base 36. -/
def digitValue? (c : Char) : Option Nat :=
  if 'a' ≤ c ∧ c ≤ 'z' then some (c.toNat - 'a'.toNat)
  else if 'A' ≤ c ∧ c ≤ 'Z' then some (c.toNat - 'A'.toNat)
  else if c.isDigit then some (c.toNat - '0'.toNat + 26)
  else none

/-- The least value of a last digit at a place, between 1 and 26. -/
def threshold (place bias : Nat) : Nat := max 1 (min 26 (place - bias))

/-- Scales a distance down to at most 455 and counts 36 for each step. -/
def scaleDown (delta count : Nat) : Nat × Nat :=
  if 455 < delta then scaleDown (delta / 35) (count + 36) else (delta, count)
termination_by delta
decreasing_by omega

/-- The bias after a distance; the first one is damped. -/
def adapt (delta points : Nat) (first : Bool) : Nat :=
  let halved := if first then delta / 700 else delta / 2
  let (scaled, count) := scaleDown (halved + halved / points) 0
  count + 36 * scaled / (scaled + 38)

/-- A distance in digits from a place on. -/
def writeDistance (bias place n : Nat) : List Char :=
  let t := threshold place bias
  if n < t then [digitChar n]
  else digitChar (t + (n - t) % (36 - t)) :: writeDistance bias (place + 36) ((n - t) / (36 - t))
termination_by n
decreasing_by
  have ht : 1 ≤ threshold place bias := by unfold threshold; omega
  have := Nat.div_le_self (n - threshold place bias) (36 - threshold place bias)
  omega

/-- A distance in digits from a place on, added to `sum` with weight `weight`, and the text after
it. -/
def readDistance? (bias : Nat) : List Char → Nat → Nat → Nat → Option (Nat × List Char)
  | [], _, _, _ => none
  | c :: cs, place, weight, sum =>
    match digitValue? c with
    | none => none
    | some d =>
      let t := threshold place bias
      if d < t then some (sum + d * weight, cs)
      else readDistance? bias cs (place + 36) (weight * (36 - t)) (sum + d * weight)

/-! ## Writing -/

/-- The state of the writer: what is written, the distance run up, the bias, and the number of
characters placed. -/
structure Writer where
  written : List Char
  distance : Nat
  bias : Nat
  placed : Nat

/-- Passes a character while the code point `point` is placed. -/
def Writer.pass (basic point : Nat) (w : Writer) (c : Char) : Writer :=
  if c.toNat < point then { w with distance := w.distance + 1 }
  else if c.toNat = point then
    { written := w.written ++ writeDistance w.bias 36 w.distance
      distance := 0
      bias := adapt w.distance (w.placed + 1) (w.placed == basic)
      placed := w.placed + 1 }
  else w

/-- Places the code points of a list, `next` being the first that can come. -/
def placeAll (text : List Char) (basic : Nat) : List Nat → Nat → Writer → Writer
  | [], _, w => w
  | point :: points, next, w =>
    let start := { w with distance := w.distance + (point - next) * (w.placed + 1) }
    let done := text.foldl (Writer.pass basic point) start
    placeAll text basic points (point + 1) { done with distance := done.distance + 1 }

/-- The text in ASCII. -/
def encode (text : List Char) : List Char :=
  let basic := text.filter fun c => decide (c.toNat < 0x80)
  let points := ((text.map Char.toNat).filter (0x80 ≤ ·)).mergeSort.eraseDups
  let start : Writer := ⟨[], 0, 72, basic.length⟩
  basic ++ (if basic.isEmpty then [] else ['-']) ++
    (placeAll text basic.length points 0x80 start).written

/-! ## Reading -/

/-- Puts the characters that distances tell into `text`; at most `fuel` of them. -/
def insertAll : Nat → Nat → Nat → Nat → List Char → List Char → Option (List Char)
  | _, _, _, _, text, [] => some text
  | 0, _, _, _, _, _ => none
  | fuel + 1, bias, point, index, text, cs =>
    match readDistance? bias cs 36 1 index with
    | none => none
    | some (sum, rest) =>
      let points := text.length + 1
      let point := point + sum / points
      let place := sum % points
      if Nat.isValidChar point then
        insertAll fuel (adapt (sum - index) points (index == 0)) point (place + 1)
          (text.insertIdx place (Char.ofNat point)) rest
      else none

/-- The text that ASCII characters stand for; what comes before the last hyphen stands for
itself. -/
def decode? (cs : List Char) : Option (List Char) :=
  let tail := (cs.reverse.takeWhile (· != '-')).reverse
  let basic := if tail.length = cs.length then [] else cs.take (cs.length - tail.length - 1)
  if basic.all fun c => decide (c.toNat < 0x80) then insertAll cs.length 72 0x80 0 basic tail
  else none

end LoadReplay.Url.Punycode
