import LoadReplay.Toml.Table
import LoadReplay.Toml.Text

/-!
# Reading TOML

`parse?` reads a whole text: pairs of a key and a value, one on each line, and headers that open
tables. At most `maxDepth` arrays and braces may be open at one place. A byte order mark may stand
in front.
-/

namespace LoadReplay.Toml

/-- A comment, if there is one. -/
def skipComment : List Char → List Char
  | '#' :: cs => cs.dropWhile isPrintable
  | cs => cs

/-- Without line breaks, blanks and comments at the start, at most `fuel` of them. -/
def skipFiller : Nat → List Char → List Char
  | 0, cs => cs
  | fuel + 1, cs =>
    match cs with
    | '#' :: rest =>
      let rest := rest.dropWhile isPrintable
      match lineBreak? rest with
      | some rest => skipFiller fuel rest
      | none => '#' :: rest
    | c :: rest =>
      if isSpace c then skipFiller fuel rest
      else
        match lineBreak? cs with
        | some rest => skipFiller fuel rest
        | none => cs
    | [] => []

/-- Without the filler at the start. -/
def filler (cs : List Char) : List Char := skipFiller (cs.length + 1) cs

mutual

/-- A value, inside at most `depth` more brackets; `fuel` bounds the steps. -/
def value? : Nat → Nat → List Char → Reading Value
  | 0, _, _ => none
  | fuel + 1, depth, cs =>
    match cs with
    | 't' :: 'r' :: 'u' :: 'e' :: rest => some (.boolean true, rest)
    | 'f' :: 'a' :: 'l' :: 's' :: 'e' :: rest => some (.boolean false, rest)
    | '[' :: rest => if depth = 0 then none else items? fuel (depth - 1) [] rest
    | '\x7b' :: rest =>
      if depth = 0 then none
      else
        match skipSpaces rest with
        | '\x7d' :: rest => some (.table .inline [], rest)
        | rest => (pairs? fuel (depth - 1) rest).bind fun (pairs, rest) =>
          (insertPairs pairs []).map fun entries => (.table .inline entries, rest)
    | c :: rest =>
      if c = '"' || c = apostrophe then (text? c rest).map fun (s, rest) => (.string s, rest)
      else number? (c :: rest)
    | [] => none

/-- The rest of an array behind its bracket or a comma, `reversed` being the items before it. -/
def items? : Nat → Nat → List Value → List Char → Reading Value
  | 0, _, _, _ => none
  | fuel + 1, depth, reversed, cs =>
    match filler cs with
    | ']' :: rest => some (.array reversed.reverse, rest)
    | cs =>
      match value? fuel depth cs with
      | none => none
      | some (v, rest) =>
        match filler rest with
        | ']' :: rest => some (.array (v :: reversed).reverse, rest)
        | ',' :: rest => items? fuel depth (v :: reversed) rest
        | _ => none

/-- The pairs between braces up to the closing one. -/
def pairs? : Nat → Nat → List Char → Reading (List (Key × Value))
  | 0, _, _ => none
  | fuel + 1, depth, cs =>
    match pair? fuel depth cs with
    | none => none
    | some (pair, rest) =>
      match skipSpaces rest with
      | '\x7d' :: rest => some ([pair], rest)
      | ',' :: rest => (pairs? fuel depth rest).map fun (pairs, rest) => (pair :: pairs, rest)
      | _ => none

/-- A key and its value. -/
def pair? : Nat → Nat → List Char → Reading (Key × Value)
  | 0, _, _ => none
  | fuel + 1, depth, cs =>
    match key? cs with
    | some (key, '=' :: rest) =>
      (value? fuel depth (skipSpaces rest)).map fun (v, rest) => ((key, v), rest)
    | _ => none

end

/-- How many arrays and braces may be open at one place. -/
def maxDepth : Nat := 79

/-- A header. -/
def header? : List Char → Reading Header
  | '[' :: '[' :: cs =>
    match key? cs with
    | some (key, ']' :: ']' :: rest) => some (.element key, rest)
    | _ => none
  | '[' :: cs =>
    match key? cs with
    | some (key, ']' :: rest) => some (.table key, rest)
    | _ => none
  | _ => none

/-- The text behind a line that holds no more than blanks and a comment. -/
def lineEnd? (cs : List Char) : Option (List Char) :=
  match skipComment (skipSpaces cs) with
  | [] => some []
  | rest => lineBreak? rest

/-- One line of a TOML text, unless it is blank. -/
inductive Line where
  | pair (key : Key) (value : Value)
  | header (h : Header)
  deriving Repr

/-- The pair or the header at the start of a text. -/
def statement? (cs : List Char) : Reading Line :=
  match cs with
  | '[' :: _ => (header? cs).map fun (h, rest) => (.header h, rest)
  | cs => (pair? (3 * cs.length + 3) maxDepth cs).map fun ((k, v), rest) => (.pair k v, rest)

/-- The pairs and headers of a text, at most `fuel`. -/
def lines? : Nat → List Char → Option (List Line)
  | 0, _ => none
  | fuel + 1, cs =>
    match filler cs with
    | [] => some []
    | '#' :: cs => if cs.isEmpty then some [] else none
    | cs =>
      match statement? cs with
      | none => none
      | some (line, rest) =>
        match lineEnd? rest with
        | some rest => (lines? fuel rest).map (line :: ·)
        | none => none

/-- The pairs before the first header, and the sections. -/
def sections : List Line → List (Key × Value) × List Section
  | [] => ([], [])
  | .pair key value :: lines => ((key, value) :: (sections lines).1, (sections lines).2)
  | .header h :: lines => ([], ⟨h, (sections lines).1⟩ :: (sections lines).2)

/-- The table that a whole text denotes. -/
def parse? (cs : List Char) : Option Entries := do
  let cs := match cs with
    | '\ufeff' :: rest => rest
    | cs => cs
  let lines ← lines? (cs.length + 1) cs
  let (pairs, sections) := sections lines
  build pairs sections

end LoadReplay.Toml
