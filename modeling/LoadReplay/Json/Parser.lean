import LoadReplay.Json.Number
import LoadReplay.Text.Utf8

/-!
# Reading JSON text

`parse?` reads one value with blanks around it. At most 127 arrays and objects may be open at one
place; characters below the blank must be escaped in texts, and an escaped surrogate must be one
half of a pair.
-/

namespace LoadReplay.Json

/-- Without the blanks at the start. -/
def skipBlanks (cs : List Char) : List Char :=
  cs.dropWhile fun c => c == ' ' || c == '\n' || c == '\t' || c == '\r'

/-- The value of a hexadecimal digit. -/
def hexValue? (c : Char) : Option Nat :=
  if c.isDigit then some (c.toNat - '0'.toNat)
  else if 'a' ≤ c ∧ c ≤ 'f' then some (c.toNat - 'a'.toNat + 10)
  else if 'A' ≤ c ∧ c ≤ 'F' then some (c.toNat - 'A'.toNat + 10)
  else none

/-- Four hexadecimal digits. -/
def hex4? : List Char → Option (Nat × List Char)
  | a :: b :: c :: d :: cs => do
    let a ← hexValue? a
    let b ← hexValue? b
    let c ← hexValue? c
    let d ← hexValue? d
    some (((a * 16 + b) * 16 + c) * 16 + d, cs)
  | _ => none

/-- The character of an escape that is one letter. -/
def shortEscape? : Char → Option Char
  | '"' => some '"'
  | '\\' => some '\\'
  | '/' => some '/'
  | 'b' => some '\x08'
  | 'f' => some '\x0c'
  | 'n' => some '\n'
  | 'r' => some '\r'
  | 't' => some '\t'
  | _ => none

/-- The character of an escape `\u`, after its letter. -/
def unicodeEscape? (cs : List Char) : Option (Char × List Char) := do
  let (n, rest) ← hex4? cs
  if 0xDC00 ≤ n ∧ n ≤ 0xDFFF then none
  else if 0xD800 ≤ n ∧ n ≤ 0xDBFF then
    match rest with
    | '\\' :: 'u' :: rest => do
      let (m, rest) ← hex4? rest
      if 0xDC00 ≤ m ∧ m ≤ 0xDFFF then
        some (Char.ofNat (0x10000 + (n - 0xD800) * 0x400 + (m - 0xDC00)), rest)
      else none
    | _ => none
  else some (Char.ofNat n, rest)

/-- The rest of a text after its opening quote, `reversed` being what came before; at most `fuel`
characters. -/
def textFrom (reversed : List Char) : Nat → List Char → Option (String × List Char)
  | 0, _ => none
  | _ + 1, [] => none
  | _ + 1, '"' :: cs => some (String.ofList reversed.reverse, cs)
  | fuel + 1, '\\' :: 'u' :: cs => do
    let (c, cs) ← unicodeEscape? cs
    textFrom (c :: reversed) fuel cs
  | fuel + 1, '\\' :: e :: cs => do
    let c ← shortEscape? e
    textFrom (c :: reversed) fuel cs
  | _ + 1, ['\\'] => none
  | fuel + 1, c :: cs => if c.toNat < 0x20 then none else textFrom (c :: reversed) fuel cs

/-- A text after its opening quote. -/
def text? (cs : List Char) : Option (String × List Char) := textFrom [] (cs.length + 1) cs

mutual

/-- A value with blanks in front, inside at most `depth` more brackets; `fuel` bounds the steps. -/
def value? : Nat → Nat → List Char → Option (Value × List Char)
  | 0, _, _ => none
  | fuel + 1, depth, cs =>
    match skipBlanks cs with
    | 'n' :: 'u' :: 'l' :: 'l' :: rest => some (.null, rest)
    | 't' :: 'r' :: 'u' :: 'e' :: rest => some (.bool true, rest)
    | 'f' :: 'a' :: 'l' :: 's' :: 'e' :: rest => some (.bool false, rest)
    | '"' :: rest => (text? rest).map fun (s, rest) => (.string s, rest)
    | '[' :: rest =>
      if depth = 0 then none
      else
        match skipBlanks rest with
        | ']' :: rest => some (.array [], rest)
        | rest => (items? fuel (depth - 1) rest).map fun (vs, rest) => (.array vs, rest)
    | '\x7b' :: rest =>
      if depth = 0 then none
      else
        match skipBlanks rest with
        | '\x7d' :: rest => some (.object [], rest)
        | rest => (members? fuel (depth - 1) rest).map fun (ms, rest) => (.object ms, rest)
    | rest => (number? rest).map fun (n, rest) => (.number n, rest)

/-- The items of an array up to its closing bracket. -/
def items? : Nat → Nat → List Char → Option (List Value × List Char)
  | 0, _, _ => none
  | fuel + 1, depth, cs =>
    match value? fuel depth cs with
    | none => none
    | some (v, rest) =>
      match skipBlanks rest with
      | ']' :: rest => some ([v], rest)
      | ',' :: rest => (items? fuel depth rest).map fun (vs, rest) => (v :: vs, rest)
      | _ => none

/-- The members of an object up to its closing brace. -/
def members? : Nat → Nat → List Char → Option (List (String × Value) × List Char)
  | 0, _, _ => none
  | fuel + 1, depth, cs =>
    match skipBlanks cs with
    | '"' :: rest =>
      match text? rest with
      | none => none
      | some (name, rest) =>
        match skipBlanks rest with
        | ':' :: rest =>
          match value? fuel depth rest with
          | none => none
          | some (v, rest) =>
            match skipBlanks rest with
            | '\x7d' :: rest => some ([(name, v)], rest)
            | ',' :: rest =>
              (members? fuel depth rest).map fun (ms, rest) => ((name, v) :: ms, rest)
            | _ => none
        | _ => none
    | _ => none

end

/-- How many brackets may be open at one place. -/
def maxDepth : Nat := 127

/-- The value that a whole text denotes. Every step of the reader takes a character, so twice the
length bounds the steps. -/
def parse? (cs : List Char) : Option Value :=
  match value? (2 * cs.length + 2) maxDepth cs with
  | some (v, rest) => if (skipBlanks rest).isEmpty then some v else none
  | none => none

/-- The value that bytes denote; bytes that are not UTF-8 denote none. -/
def parseBytes? (bs : Bytes) : Option Value := (Utf8.decode? bs).bind parse?

end LoadReplay.Json
