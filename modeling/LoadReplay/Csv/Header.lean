import LoadReplay.Csv.Field
import LoadReplay.Text.Blank

/-!
# Table headers

The names of the columns are the fields of the first record without blanks at their ends and
without byte order marks in front. A column is found by its name, the first of that name counting.
-/

namespace LoadReplay.Csv

/-- The names of the columns, from left to right. -/
structure Header where
  names : List String
  deriving Repr, DecidableEq

namespace Header

/-- The mark that may stand in front of a text to tell its byte order. -/
def byteOrderMark : Char := '\ufeff'

/-- The name in a field of the header. -/
def columnName (field : List Char) : String :=
  String.ofList ((Text.trim field).dropWhile (· == byteOrderMark))

/-- The header made of the fields of a record. -/
def ofFields (fields : List (List Char)) : Header := ⟨fields.map columnName⟩

/-- The position of a column. -/
def column? (h : Header) (name : String) : Option Nat := h.names.idxOf? name

end Header

end LoadReplay.Csv
