import LoadReplay.Csv.Field

/-!
# Writing rows

Cells are joined by commas. A cell that holds a comma, a quote or a line break is written in
quotes with its own quotes doubled; a missing cell is written as nothing.
-/

namespace LoadReplay.Csv

/-- Whether a cell has to be quoted. -/
def needsQuotes (cell : List Char) : Bool :=
  cell.any fun c => c == comma || c == '"' || c == '\n' || c == '\r'

/-- The text with every quote written twice. -/
def doubleQuotes (cell : List Char) : List Char :=
  cell.flatMap fun c => if c = '"' then ['"', '"'] else [c]

/-- One cell. -/
def writeCell (cell : List Char) : List Char :=
  if needsQuotes cell then '"' :: (doubleQuotes cell ++ ['"']) else cell

/-- A row without its line break. -/
def writeRow (cells : List (Option (List Char))) : List Char :=
  [comma].intercalate (cells.map fun cell => writeCell (cell.getD []))

end LoadReplay.Csv
