import LoadReplay.Text.Unprintable

/-!
# Quoted text

A text in double quotes in which a reader can see every character: quotes and backslashes are
escaped, the common controls have their letter, and other unprintable characters are written as
`\u{…}` in hexadecimal.
-/

namespace LoadReplay.Text

/-- One character inside the quotes. -/
def escape (c : Char) : List Char :=
  match c with
  | '\x00' => ['\\', '0']
  | '\t' => ['\\', 't']
  | '\r' => ['\\', 'r']
  | '\n' => ['\\', 'n']
  | '\\' => ['\\', '\\']
  | '"' => ['\\', '"']
  | c =>
    if isUnprintable c then
      '\\' :: 'u' :: '\x7b' :: (Nat.toDigits 16 c.toNat ++ ['\x7d'])
    else [c]

/-- The text in quotes. -/
def quote (s : String) : String := String.ofList ('"' :: (s.toList.flatMap escape ++ ['"']))

end LoadReplay.Text
