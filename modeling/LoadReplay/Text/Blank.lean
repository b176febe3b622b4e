/-!
# Blanks

`isBlank` is the Unicode property White_Space; `trim` removes such characters from both ends, and
`alignLeft` and `alignRight` fill a field with plain blanks.
-/

namespace LoadReplay.Text

/-- The Unicode property White_Space. -/
def isBlank (c : Char) : Bool :=
  let n := c.toNat
  (9 ≤ n && n ≤ 13) || n == 32 || n == 0x85 || n == 0xA0 || n == 0x1680 ||
    (0x2000 ≤ n && n ≤ 0x200A) || n == 0x2028 || n == 0x2029 || n == 0x202F || n == 0x205F ||
    n == 0x3000

/-- Without the blanks at its start. -/
def trimStart (cs : List Char) : List Char := cs.dropWhile isBlank

/-- Without the characters at its end for which `p` holds. -/
def dropEndWhile (p : Char → Bool) (cs : List Char) : List Char := (cs.reverse.dropWhile p).reverse

/-- Without the blanks at both ends. -/
def trim (cs : List Char) : List Char := dropEndWhile isBlank (trimStart cs)

/-- Whether there is nothing but blanks. -/
def isBlankText (cs : List Char) : Bool := cs.all isBlank

/-! ## Padding -/

/-- Right-aligned in a field of at least `width` characters. -/
def alignRight (width : Nat) (s : String) : String :=
  String.ofList (List.replicate (width - s.length) ' ') ++ s

/-- Left-aligned in a field of at least `width` characters. -/
def alignLeft (width : Nat) (s : String) : String :=
  s ++ String.ofList (List.replicate (width - s.length) ' ')

/-- Texts with a separator between them. -/
def join (separator : String) (xs : List String) : String := separator.intercalate xs

end LoadReplay.Text
