import LoadReplay.Url.Percent
import LoadReplay.Text.Split

/-!
# Queries as forms

A query is read as pairs of a name and a value: pairs are separated by `&`, the name ends at the
first `=`, `+` stands for a blank and escapes for bytes. Writing escapes everything but letters,
digits and `*-._`.
-/

namespace LoadReplay.Url

/-- A name and its value. -/
abbrev QueryPair := String × String

namespace Query

/-- The text that a part of a pair stands for; bytes that are not text become replacement
characters. -/
def decode (cs : List Char) : String :=
  let spaced := cs.map fun c => if c = '+' then ' ' else c
  String.ofList (Utf8.decodeLossy (percentDecode (Utf8.encode spaced)))

/-- The pair in a part of a query. -/
def pairOf (part : List Char) : QueryPair :=
  match Text.splitOnce? '=' part with
  | some (name, value) => (decode name, decode value)
  | none => (decode part, "")

/-- The pairs of a query; empty parts hold none. -/
def pairs (query : List Char) : List QueryPair :=
  ((Text.splitOn '&' query).filter (· ≠ [])).map pairOf

/-- A character that stands for itself. -/
def isPlain (c : Char) : Bool :=
  c.isAlphanum || c == '*' || c == '-' || c == '.' || c == '_'

/-- A part of a pair in writing. -/
def encode (s : String) : List Char :=
  s.toList.flatMap fun c =>
    if c = ' ' then ['+'] else if isPlain c then [c] else escapeChar c

/-- A pair in writing. -/
def writePair (pair : QueryPair) : List Char := encode pair.1 ++ '=' :: encode pair.2

/-- Pairs in writing. -/
def write (pairs : List QueryPair) : List Char := ['&'].intercalate (pairs.map writePair)

end Query

end LoadReplay.Url
