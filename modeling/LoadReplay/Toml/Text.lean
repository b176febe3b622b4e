import LoadReplay.Toml.Number

/-!
# Texts and keys in TOML

Texts stand in double quotes with escapes or in single quotes without, on one line between single
marks or on several lines between triple ones. A key is a run of letters, digits, hyphens and
underscores, or a text on one line.
-/

namespace LoadReplay.Toml

/-- The single quote. -/
def apostrophe : Char := '\x27'

/-- A character that may stand in a comment and in a text on one line. -/
def isPrintable (c : Char) : Bool := c == '\t' || (decide (0x20 ≤ c.toNat) && c.toNat != 0x7F)

/-- Tabs and blanks. -/
def isSpace (c : Char) : Bool := c == ' ' || c == '\t'

/-- Without the tabs and blanks at the start. -/
def skipSpaces (cs : List Char) : List Char := cs.dropWhile isSpace

/-- The text behind a line break. -/
def lineBreak? : List Char → Option (List Char)
  | '\n' :: cs => some cs
  | '\r' :: '\n' :: cs => some cs
  | _ => none

/-- Without the line breaks, tabs and blanks at the start. -/
def skipLines : List Char → List Char
  | '\r' :: '\n' :: cs => skipLines cs
  | c :: cs => if isSpace c || c == '\n' then skipLines cs else c :: cs
  | [] => []

/-- A character given by so many hexadecimal digits. -/
def codePoint? (count : Nat) (cs : List Char) : Reading Char :=
  let ds := (cs.take count).takeWhile fun c => (digitOf? 16 c).isSome
  let n := ds.foldl (fun n c => 16 * n + (digitOf? 16 c).getD 0) 0
  if ds.length = count ∧ n.isValidChar then some (Char.ofNat n, cs.drop count) else none

/-- The character of an escape, behind its backslash. -/
def escape? : List Char → Reading Char
  | 'b' :: cs => some ('\x08', cs)
  | 't' :: cs => some ('\t', cs)
  | 'n' :: cs => some ('\n', cs)
  | 'f' :: cs => some ('\x0c', cs)
  | 'r' :: cs => some ('\r', cs)
  | '"' :: cs => some ('"', cs)
  | '\\' :: cs => some ('\\', cs)
  | 'u' :: cs => codePoint? 4 cs
  | 'U' :: cs => codePoint? 8 cs
  | _ => none

/-- The text behind a backslash that ends its line. -/
def continuation? (cs : List Char) : Option (List Char) :=
  (lineBreak? (skipSpaces cs)).map skipLines

/-- The rest of a text on one line, `reversed` being what came before; `escapes` tells whether a
backslash escapes. -/
def lineFrom (mark : Char) (escapes : Bool) (reversed : List Char) :
    Nat → List Char → Reading String
  | 0, _ => none
  | _ + 1, [] => none
  | fuel + 1, c :: cs =>
    if c = mark then some (String.ofList reversed.reverse, cs)
    else if escapes && c == '\\' then
      match escape? cs with
      | some (e, cs) => lineFrom mark escapes (e :: reversed) fuel cs
      | none => none
    else if isPrintable c then lineFrom mark escapes (c :: reversed) fuel cs
    else none

/-- The rest of a text on several lines; up to two quotes may stand right before the closing
ones. -/
def linesFrom (mark : Char) (escapes : Bool) (reversed : List Char) :
    Nat → List Char → Reading String
  | 0, _ => none
  | fuel + 1, cs =>
    if cs.take 3 = [mark, mark, mark] then
      let extra := ((cs.drop 3).take 2).takeWhile (· == mark)
      some (String.ofList (reversed.reverse ++ extra), cs.drop (3 + extra.length))
    else
      match cs with
      | [] => none
      | c :: rest =>
        match lineBreak? cs with
        | some rest => linesFrom mark escapes ('\n' :: reversed) fuel rest
        | none =>
          if escapes && c == '\\' then
            match continuation? rest, escape? rest with
            | some rest, _ => linesFrom mark escapes reversed fuel rest
            | none, some (e, rest) => linesFrom mark escapes (e :: reversed) fuel rest
            | none, none => none
          else if isPrintable c then linesFrom mark escapes (c :: reversed) fuel rest
          else none

/-- A text on one line behind its mark. -/
def line? (mark : Char) (cs : List Char) : Reading String :=
  lineFrom mark (mark == '"') [] (cs.length + 1) cs

/-- A text behind its first mark. -/
def text? (mark : Char) (cs : List Char) : Reading String :=
  if cs.take 2 = [mark, mark] then
    let body := (lineBreak? (cs.drop 2)).getD (cs.drop 2)
    linesFrom mark (mark == '"') [] (body.length + 1) body
  else line? mark cs

/-! ## Keys -/

/-- A character of a key without quotes. -/
def isKeyChar (c : Char) : Bool := c.isAlphanum || c == '-' || c == '_'

/-- One part of a key. -/
def keyPart? (cs : List Char) : Reading String :=
  match cs with
  | [] => none
  | c :: rest =>
    if c = '"' || c = apostrophe then line? c rest
    else
      let name := cs.takeWhile isKeyChar
      if name.isEmpty then none else some (String.ofList name, cs.drop name.length)

/-- The longest key, in parts. -/
def maxKeyParts : Nat := 79

/-- Parts with dots between them, at most `fuel`. -/
def keyParts? : Nat → List Char → Reading Key
  | 0, _ => none
  | fuel + 1, cs =>
    match keyPart? (skipSpaces cs) with
    | none => none
    | some (part, rest) =>
      match skipSpaces rest with
      | '.' :: rest => (keyParts? fuel rest).map fun (parts, rest) => (part :: parts, rest)
      | rest => some ([part], rest)

/-- A key, with the blanks around it. -/
def key? (cs : List Char) : Reading Key := keyParts? maxKeyParts cs

end LoadReplay.Toml
