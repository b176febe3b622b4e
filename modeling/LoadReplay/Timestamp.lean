import LoadReplay.Calendar
import LoadReplay.Text.Blank
import LoadReplay.Double.Arithmetic
import LoadReplay.Double.Reader

/-!
# Timestamps

A timestamp is a plain number of seconds, or a date and a time of day with or without an offset
from UTC. `Timestamp.read?` tries, in this order, a number, the strict form
`2023-11-16T18:15:46.5+02:00`, and the lenient forms with an offset, without an offset after a
blank, and without an offset after `T`. The value is the double of the whole seconds since 1970
plus the double of the nanoseconds times `1e-9`.
-/

namespace LoadReplay

/-- A date and a time of day as written; second 60 is a leap second. -/
structure Reading where
  date : Date
  hour : Nat
  minute : Nat
  second : Nat
  nanos : Nat
  deriving Repr, DecidableEq

/-- An instant: seconds since 1970 in UTC, and nanoseconds, which reach a whole second inside a
leap second. -/
structure Instant where
  seconds : Int
  nanos : Nat
  deriving Repr, DecidableEq

namespace Reading

/-- The calendar and the clock have this reading. -/
def IsValid (r : Reading) : Prop :=
  r.date.IsValid ∧ r.hour < 24 ∧ r.minute < 60 ∧ r.second ≤ 60

instance (r : Reading) : Decidable r.IsValid := by unfold IsValid; infer_instance

/-- The instant of a reading at an offset of so many seconds east of UTC. The local date and the
date in UTC have to be among the dates that timestamps may denote. -/
def instant? (r : Reading) (offset : Int) : Option Instant :=
  let day := r.date.dayNumber
  let seconds := day * 86400 + r.hour * 3600 + r.minute * 60 + min r.second 59 - offset
  let inRange (day : Int) : Prop := Date.earliest.dayNumber ≤ day ∧ day ≤ Date.latest.dayNumber
  if r.IsValid ∧ inRange day ∧ inRange (seconds / 86400) then
    some ⟨seconds, r.nanos + if r.second = 60 then 1000000000 else 0⟩
  else none

end Reading

/-- The seconds of an instant as a double. -/
def Instant.toDouble (i : Instant) : Double :=
  Double.ofInt i.seconds + Double.ofNat i.nanos * 1e-9

namespace Timestamp

/-! ## Parts of a text -/

/-- Between `least` and `most` digits, as many as there are. -/
def digits? (least most : Nat) (cs : List Char) : Option (Nat × List Char) :=
  let ds := (cs.take most).takeWhile Char.isDigit
  if ds.length < least then none else some (Double.digitsValue ds, cs.drop ds.length)

/-- A given character. -/
def char? (c : Char) : List Char → Option (List Char)
  | [] => none
  | d :: cs => if d = c then some cs else none

/-- An optional point with at least one digit, in nanoseconds; digits past the ninth are dropped. -/
def fraction? : List Char → Option (Nat × List Char)
  | '.' :: cs =>
    let ds := cs.takeWhile Char.isDigit
    if ds.isEmpty then none
    else
      let kept := ds.take 9
      some (Double.digitsValue kept * Nat.pow 10 (9 - kept.length), cs.drop ds.length)
  | cs => some (0, cs)

/-- A sign, two digits of hours, a separator and two digits of minutes, in seconds. -/
def offset? (separator? : List Char → Option (List Char)) (cs : List Char) :
    Option (Int × List Char) := do
  let (negative, cs) ← match cs with
    | '+' :: cs => some (false, cs)
    | '-' :: cs => some (true, cs)
    | '−' :: cs => some (true, cs)
    | _ => none
  let (hours, cs) ← digits? 2 2 cs
  let cs ← separator? cs
  let (minutes, cs) ← digits? 2 2 cs
  if minutes < 60 then
    let seconds : Int := hours * 3600 + minutes * 60
    some (if negative then -seconds else seconds, cs)
  else none

/-- An offset of less than a day. -/
def isOffset (seconds : Int) : Bool := seconds.natAbs < 86400

/-! ## The strict form -/

/-- `Z` or an offset with a colon. -/
def zone? : List Char → Option (Int × List Char)
  | 'Z' :: cs => some (0, cs)
  | 'z' :: cs => some (0, cs)
  | cs => offset? (char? ':') cs

/-- Fields of fixed width, `T` or a blank between date and time, and a zone. -/
def strict? (cs : List Char) : Option Instant := do
  let (year, cs) ← digits? 4 4 cs
  let cs ← char? '-' cs
  let (month, cs) ← digits? 2 2 cs
  let cs ← char? '-' cs
  let (day, cs) ← digits? 2 2 cs
  let cs ← match cs with
    | 'T' :: cs => some cs
    | 't' :: cs => some cs
    | ' ' :: cs => some cs
    | _ => none
  let (hour, cs) ← digits? 2 2 cs
  let cs ← char? ':' cs
  let (minute, cs) ← digits? 2 2 cs
  let cs ← char? ':' cs
  let (second, cs) ← digits? 2 2 cs
  let (nanos, cs) ← fraction? cs
  let (offset, cs) ← zone? cs
  if cs.isEmpty && isOffset offset then
    Reading.instant? ⟨⟨year, month, day⟩, hour, minute, second, nanos⟩ offset
  else none

/-! ## The lenient forms -/

/-- A number of one or two digits after any blanks. -/
def looseNumber? (cs : List Char) : Option (Nat × List Char) := digits? 1 2 (Text.trimStart cs)

/-- A year of up to four digits after any blanks, or of any length after a sign. -/
def looseYear? (cs : List Char) : Option (Int × List Char) :=
  match Text.trimStart cs with
  | '-' :: cs => (digits? 1 cs.length cs).map fun (n, cs) => (-(n : Int), cs)
  | '+' :: cs => (digits? 1 cs.length cs).map fun (n, cs) => ((n : Int), cs)
  | cs => (digits? 1 4 cs).map fun (n, cs) => ((n : Int), cs)

/-- Date and time of day with `separator?` between them. -/
def looseReading? (separator? : List Char → Option (List Char)) (cs : List Char) :
    Option (Reading × List Char) := do
  let (year, cs) ← looseYear? cs
  let cs ← char? '-' cs
  let (month, cs) ← looseNumber? cs
  let cs ← char? '-' cs
  let (day, cs) ← looseNumber? cs
  let cs ← separator? cs
  let (hour, cs) ← looseNumber? cs
  let cs ← char? ':' cs
  let (minute, cs) ← looseNumber? cs
  let cs ← char? ':' cs
  let (second, cs) ← looseNumber? cs
  let (nanos, cs) ← fraction? cs
  some (⟨⟨year, month, day⟩, hour, minute, second, nanos⟩, cs)

/-- Any blanks, or none. -/
def blanks? (cs : List Char) : Option (List Char) := some (Text.trimStart cs)

/-- Any colons and blanks, or none. -/
def colonOrBlanks? (cs : List Char) : Option (List Char) :=
  some (cs.dropWhile fun c => c == ':' || Text.isBlank c)

/-- Date, blanks, time of day and an offset. -/
def looseWithOffset? (cs : List Char) : Option Instant := do
  let (reading, cs) ← looseReading? blanks? cs
  let (offset, cs) ← offset? colonOrBlanks? (Text.trimStart cs)
  if cs.isEmpty && isOffset offset then reading.instant? offset else none

/-- Date and time of day in UTC. -/
def looseInUtc? (separator? : List Char → Option (List Char)) (cs : List Char) :
    Option Instant := do
  let (reading, cs) ← looseReading? separator? cs
  if cs.isEmpty then reading.instant? 0 else none

/-- A date and a time of day in any of the forms. -/
def instant? (cs : List Char) : Option Instant :=
  (strict? cs).or <| (looseWithOffset? cs).or <| (looseInUtc? blanks? cs).or <|
    looseInUtc? (char? 'T') cs

/-- The seconds that a text denotes, after blanks at its ends are removed. A text that is a number
is never taken for a date, and is refused when it is not finite. -/
def read? (text : List Char) : Option Double :=
  let cs := Text.trim text
  match Double.ofChars? cs with
  | some d => if d.isFinite then some d else none
  | none => (instant? cs).map Instant.toDouble

end Timestamp

end LoadReplay
