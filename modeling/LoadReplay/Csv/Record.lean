/-!
# Records of delimited text

A record is a line of the text, except that a line break between an odd and an even double quote
stays inside its record. Each record carries the number of the line it starts on.
-/

namespace LoadReplay.Csv

/-- A record and the number of its first line, counted from one. -/
structure Record where
  line : Nat
  text : List Char
  deriving Repr, DecidableEq

/-- The text of a record whose characters were collected in reverse: carriage returns at its end
are not part of it. -/
def closeRecord (reversed : List Char) : List Char := (reversed.dropWhile (· == '\r')).reverse

/-- The records from here on. `quoted` tells whether an odd number of quotes has been passed,
`start` is the first line of the current record, `line` the current one, `reversed` what the record
holds so far. -/
def recordsFrom (quoted : Bool) (start line : Nat) (reversed : List Char) :
    List Char → List Record
  | [] => if reversed.isEmpty then [] else [⟨start, closeRecord reversed⟩]
  | c :: cs =>
    if c = '\n' then
      if quoted then recordsFrom quoted start (line + 1) (c :: reversed) cs
      else ⟨start, closeRecord reversed⟩ :: recordsFrom quoted (line + 1) (line + 1) [] cs
    else recordsFrom (if c = '"' then !quoted else quoted) start line (c :: reversed) cs

/-- The records of a text. Text after the last line break is a record unless it is empty. -/
def records (text : List Char) : List Record := recordsFrom false 1 1 [] text

end LoadReplay.Csv
