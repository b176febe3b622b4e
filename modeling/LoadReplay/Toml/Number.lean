import LoadReplay.Toml.Basic
import LoadReplay.Calendar

/-!
# Numbers, dates and times in TOML

Whole numbers have 64 bits and may be written in four bases; underscores may stand between digits.
A number with a point or an exponent is a double, and so are the signed words `inf` and `nan`. Dates
and times are checked against the calendar and the clock.
-/

namespace LoadReplay.Toml

/-- A value and the text behind it. -/
abbrev Reading (α : Type) := Option (α × List Char)

/-- The digits of a run, without the single underscores between them, and the text behind it. -/
def digits? (isDigit : Char → Bool) (cs : List Char) : Reading (List Char) :=
  match cs with
  | [] => none
  | c :: rest => if isDigit c then some (c :: (more rest).1, (more rest).2) else none
where
  more : List Char → List Char × List Char
    | '_' :: c :: rest =>
      if isDigit c then (c :: (more rest).1, (more rest).2) else ([], '_' :: c :: rest)
    | c :: rest => if isDigit c then (c :: (more rest).1, (more rest).2) else ([], c :: rest)
    | [] => ([], [])

/-- The sign in front of a number, if there is one. -/
def sign : List Char → List Char × List Char
  | '-' :: cs => (['-'], cs)
  | '+' :: cs => ([], cs)
  | cs => ([], cs)

/-- The sign and the digits of a whole number in decimal without zeros in front. -/
def decimal? (cs : List Char) : Reading (List Char) :=
  let (mark, rest) := sign cs
  match rest with
  | '0' :: rest => some (mark ++ ['0'], rest)
  | rest => (digits? Char.isDigit rest).map fun (ds, rest) => (mark ++ ds, rest)

/-- The whole number of some digits in decimal, if it has 64 bits. -/
def integerOf? : List Char → Option Int
  | '-' :: ds => let n := Double.digitsValue ds; if n ≤ 1 <<< 63 then some (-n) else none
  | ds => let n := Double.digitsValue ds; if n < 1 <<< 63 then some n else none

/-- The value of a digit in a base of at most 16. -/
def digitOf? (base : Nat) (c : Char) : Option Nat :=
  let value? :=
    if c.isDigit then some (c.toNat - '0'.toNat)
    else if 'a' ≤ c ∧ c ≤ 'f' then some (c.toNat - 'a'.toNat + 10)
    else if 'A' ≤ c ∧ c ≤ 'F' then some (c.toNat - 'A'.toNat + 10)
    else none
  value?.filter (· < base)

/-- A whole number in a base, behind the mark of the base. -/
def inBase? (base : Nat) (cs : List Char) : Option (Value × List Char) := do
  let (ds, rest) ← digits? (fun c => (digitOf? base c).isSome) cs
  let n := ds.foldl (fun n c => base * n + (digitOf? base c).getD 0) 0
  if n < 1 <<< 63 then some (.integer n, rest) else none

/-- The point and the digits behind it. -/
def fraction? : List Char → Reading (List Char)
  | '.' :: cs => (digits? Char.isDigit cs).map fun (ds, rest) => ('.' :: ds, rest)
  | _ => none

/-- An exponent with its mark. -/
def exponent? (cs : List Char) : Reading (List Char) :=
  let after (rest : List Char) : Reading (List Char) :=
    let (mark, rest) := sign rest
    (digits? Char.isDigit rest).map fun (ds, rest) => ('e' :: (mark ++ ds), rest)
  match cs with
  | 'e' :: rest => after rest
  | 'E' :: rest => after rest
  | _ => none

/-- A double from its characters; one too large is refused. -/
def doubleOf? (cs : List Char) : Option Value :=
  (Double.ofChars? cs).bind fun d => if d = .infinite false then none else some (.float d)

/-- The words for numbers that are not finite, behind a sign. -/
def special? (cs : List Char) : Reading Value :=
  let (mark, rest) := sign cs
  match rest with
  | 'i' :: 'n' :: 'f' :: rest => some (.float (.infinite !mark.isEmpty), rest)
  | 'n' :: 'a' :: 'n' :: rest => some (.float .nan, rest)
  | _ => none

/-- A whole number or a double in decimal. -/
def decimalNumber? (cs : List Char) : Option (Value × List Char) := do
  let (whole, rest) ← decimal? cs
  match fraction? rest with
  | some (places, rest) =>
    match exponent? rest with
    | some (power, rest) => (doubleOf? (whole ++ places ++ power)).map (·, rest)
    | none => (doubleOf? (whole ++ places)).map (·, rest)
  | none =>
    match exponent? rest with
    | some (power, rest) => (doubleOf? (whole ++ power)).map (·, rest)
    | none => (integerOf? whole).map fun z => (.integer z, rest)

/-! ## Dates and times -/

/-- A number of exactly so many digits. -/
def fixedDigits? (count : Nat) (cs : List Char) : Reading Nat :=
  let ds := (cs.take count).takeWhile Char.isDigit
  if ds.length = count then some (Double.digitsValue ds, cs.drop count) else none

/-- A given character. -/
def char? (c : Char) : List Char → Option (List Char)
  | [] => none
  | d :: cs => if d = c then some cs else none

/-- A date of the calendar. -/
def date? (cs : List Char) : Option (List Char) := do
  let (year, cs) ← fixedDigits? 4 cs
  let cs ← char? '-' cs
  let (month, cs) ← fixedDigits? 2 cs
  let cs ← char? '-' cs
  let (day, cs) ← fixedDigits? 2 cs
  if (Date.mk year month day).IsValid then some cs else none

/-- Hours and minutes. -/
def clock? (cs : List Char) : Option (List Char) := do
  let (hour, cs) ← fixedDigits? 2 cs
  let cs ← char? ':' cs
  let (minute, cs) ← fixedDigits? 2 cs
  if hour < 24 ∧ minute < 60 then some cs else none

/-- A time of day. -/
def time? (cs : List Char) : Option (List Char) := do
  let cs ← clock? cs
  let cs ← char? ':' cs
  let (second, cs) ← fixedDigits? 2 cs
  if second ≤ 60 then
    match cs with
    | '.' :: rest =>
      let ds := rest.takeWhile Char.isDigit
      if ds.isEmpty then some cs else some (rest.drop ds.length)
    | cs => some cs
  else none

/-- An offset from UTC, if there is one. -/
def offset (cs : List Char) : List Char :=
  match cs with
  | 'Z' :: rest => rest
  | 'z' :: rest => rest
  | '+' :: rest => (clock? rest).getD cs
  | '-' :: rest => (clock? rest).getD cs
  | cs => cs

/-- A date with or without a time, or a time. -/
def datetime? (cs : List Char) : Reading Value :=
  match date? cs with
  | none => (time? cs).map fun rest => (.datetime, rest)
  | some rest =>
    let timed := match rest with
      | 'T' :: tail => time? tail
      | 't' :: tail => time? tail
      | ' ' :: tail => time? tail
      | _ => none
    some (.datetime, (timed.map offset).getD rest)

/-- A number, a date or a time. -/
def number? (cs : List Char) : Reading Value :=
  match datetime? cs with
  | some reading => some reading
  | none =>
    match cs with
    | '0' :: 'x' :: rest => inBase? 16 rest
    | '0' :: 'o' :: rest => inBase? 8 rest
    | '0' :: 'b' :: rest => inBase? 2 rest
    | cs => (special? cs).or (decimalNumber? cs)

end LoadReplay.Toml
