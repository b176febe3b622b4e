import LoadReplay.Double.Reader

/-!
# TOML values

The values of a TOML text. A table remembers how it was written, since only some tables may be
added to later. Dates and times are recognised but not kept.
-/

namespace LoadReplay.Toml

/-- How a table was written: between braces, under a header of its own, under the header of a table
inside it, or by keys with dots. -/
inductive Origin where
  | inline
  | header
  | implied
  | dotted
  deriving Repr, DecidableEq

/-- A TOML value; `tables` is an array of tables that have headers of their own. -/
inductive Value where
  | string (s : String)
  | integer (z : Int)
  | float (d : Double)
  | boolean (b : Bool)
  | datetime
  | array (items : List Value)
  | table (origin : Origin) (entries : List (String × Value))
  | tables (elements : List (List (String × Value)))
  deriving Repr

/-- The keys of a table and their values. -/
abbrev Entries := List (String × Value)

/-- A key with its parts between dots. -/
abbrev Key := List String

namespace Value

/-- The value as a text. -/
def string? : Value → Option String
  | string s => some s
  | _ => none

/-- The value as a truth value. -/
def boolean? : Value → Option Bool
  | boolean b => some b
  | _ => none

/-- The value as a number, whole numbers included. -/
def number? : Value → Option Double
  | float d => some d
  | integer z => some (Double.ofInt z)
  | _ => none

/-- The value as a natural number. -/
def natural? : Value → Option Nat
  | integer z => if 0 ≤ z then some z.toNat else none
  | _ => none

/-- The items of a value that is a list. -/
def items? : Value → Option (List Value)
  | array items => some items
  | tables elements => some (elements.map (table .header))
  | _ => none

/-- The entries of a value that is a table. -/
def entries? : Value → Option Entries
  | table _ entries => some entries
  | _ => none

/-- Whether a value is a list or a table that holds nothing. -/
def isEmpty (v : Value) : Bool := v.items?.any (·.isEmpty) || v.entries?.any (·.isEmpty)

end Value

end LoadReplay.Toml
