/-!
# Splitting text

`splitOn` cuts a text at every occurrence of a character; `splitOnce?` cuts at the first one.
-/

namespace LoadReplay.Text

/-- The parts between the occurrences of a character; there is always at least one. -/
def splitOn (separator : Char) : List Char → List (List Char)
  | [] => [[]]
  | c :: cs =>
    if c = separator then [] :: splitOn separator cs
    else
      match splitOn separator cs with
      | [] => [[c]]
      | part :: parts => (c :: part) :: parts

/-- The text before the first occurrence of a character and the text after it. -/
def splitOnce? (separator : Char) (cs : List Char) : Option (List Char × List Char) :=
  match cs.dropWhile (· != separator) with
  | [] => none
  | _ :: rest => some (cs.takeWhile (· != separator), rest)

/-- Joining the parts with the separator gives the text back. -/
theorem intercalate_splitOn (separator : Char) (cs : List Char) :
    [separator].intercalate (splitOn separator cs) = cs := by
  have nonempty (cs : List Char) : splitOn separator cs ≠ [] := by
    cases cs with
    | nil => simp [splitOn]
    | cons c cs => simp only [splitOn]; split <;> (try split) <;> simp
  induction cs with
  | nil => rfl
  | cons c cs ih =>
    simp only [splitOn]
    split
    · next h =>
      subst h
      cases hs : splitOn c cs with
      | nil => exact absurd hs (nonempty cs)
      | cons part parts => rw [hs] at ih; simpa [List.intercalate_cons_cons] using ih
    · next h =>
      cases hs : splitOn separator cs with
      | nil => exact absurd hs (nonempty cs)
      | cons part parts =>
        rw [hs] at ih
        cases parts with
        | nil => simp_all [List.intercalate]
        | cons q qs =>
          rw [List.intercalate_cons_cons] at ih
          simp only [List.intercalate_cons_cons, List.cons_append, ← ih]

end LoadReplay.Text
