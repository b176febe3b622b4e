/-!
# Fields of a record

A field that starts with a double quote runs to the next lone quote, a pair of quotes inside it
standing for one; what follows up to the delimiter is skipped. Any other field is the text up to
the delimiter, quotes included.
-/

namespace LoadReplay.Csv

/-- The delimiter of traces and reports. -/
def comma : Char := ','

/-- The content of a quoted part and the text after its closing quote; the end of the text closes
it too. -/
def quotedPart : List Char → List Char × List Char
  | [] => ([], [])
  | '"' :: '"' :: cs => ('"' :: (quotedPart cs).1, (quotedPart cs).2)
  | '"' :: cs => ([], cs)
  | c :: cs => (c :: (quotedPart cs).1, (quotedPart cs).2)

/-- The text after the next delimiter, and nothing if there is none. -/
def afterDelimiter (delimiter : Char) : List Char → List Char
  | [] => []
  | c :: cs => if c = delimiter then cs else afterDelimiter delimiter cs

/-- The text up to the next delimiter. -/
def beforeDelimiter (delimiter : Char) (cs : List Char) : List Char :=
  cs.takeWhile (· != delimiter)

/-- The first field and the text after its delimiter. -/
def nextField (delimiter : Char) : List Char → List Char × List Char
  | '"' :: cs => ((quotedPart cs).1, afterDelimiter delimiter (quotedPart cs).2)
  | cs => (beforeDelimiter delimiter cs, afterDelimiter delimiter cs)

theorem length_quotedPart_le (cs : List Char) : (quotedPart cs).2.length ≤ cs.length := by
  fun_induction quotedPart cs <;> simp_all <;> omega

theorem length_afterDelimiter_le (d : Char) (cs : List Char) :
    (afterDelimiter d cs).length ≤ cs.length := by
  fun_induction afterDelimiter d cs <;> simp_all
  omega

theorem length_afterDelimiter_lt (d : Char) {cs : List Char} (h : cs ≠ []) :
    (afterDelimiter d cs).length < cs.length := by
  cases cs with
  | nil => contradiction
  | cons c cs =>
    have := length_afterDelimiter_le d cs
    simp only [afterDelimiter]
    split <;> simp
    omega

theorem length_nextField_lt (d : Char) {cs : List Char} (h : cs ≠ []) :
    (nextField d cs).2.length < cs.length := by
  fun_cases nextField d cs with
  | case1 cs =>
    have := length_afterDelimiter_le d (quotedPart cs).2
    have := length_quotedPart_le cs
    simp only [List.length_cons]
    omega
  | case2 => exact length_afterDelimiter_lt d h

/-- The fields from here on. When nothing is left, a record that ends in a delimiter has one more
field, which is empty. -/
def fieldsFrom (delimiter : Char) (endsInDelimiter : Bool) (cs : List Char) : List (List Char) :=
  if h : (nextField delimiter cs).2 = [] then
    if endsInDelimiter then [(nextField delimiter cs).1, []] else [(nextField delimiter cs).1]
  else
    have : (nextField delimiter cs).2.length < cs.length :=
      length_nextField_lt delimiter (by rintro rfl; exact h rfl)
    (nextField delimiter cs).1 :: fieldsFrom delimiter endsInDelimiter (nextField delimiter cs).2
termination_by cs.length

/-- The fields of a record; there is always at least one. -/
def fields (delimiter : Char) (record : List Char) : List (List Char) :=
  fieldsFrom delimiter (record.getLast? == some delimiter) record

end LoadReplay.Csv
