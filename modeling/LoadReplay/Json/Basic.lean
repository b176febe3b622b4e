import LoadReplay.Double.Arithmetic

/-!
# JSON values

Whole numbers of at most 64 bits are kept exactly, all others as doubles. The members of an object
stay in the order of the text; a name looked up gives its last value.
-/

namespace LoadReplay.Json

/-- A number as it is kept. -/
inductive Number where
  | whole (z : Int)
  | double (d : Double)
  deriving Repr, DecidableEq

/-- A JSON value. -/
inductive Value where
  | null
  | bool (b : Bool)
  | number (n : Number)
  | string (s : String)
  | array (items : List Value)
  | object (members : List (String × Value))
  deriving Repr

/-- The number as a double. -/
def Number.toDouble : Number → Double
  | whole z => Double.ofInt z
  | double d => d

namespace Value

/-- The last value of a member. -/
def member? (name : String) : Value → Option Value
  | object ms => (ms.reverse.find? (·.1 == name)).map (·.2)
  | _ => none

/-- The value as a number. -/
def number? : Value → Option Number
  | number n => some n
  | _ => none

/-- The value as a text. -/
def string? : Value → Option String
  | string s => some s
  | _ => none

/-- An object all of whose members are texts. -/
def strings? : Value → Option (List (String × String))
  | object ms => ms.mapM fun (name, v) => v.string?.map fun s => (name, s)
  | _ => none

end Value

end LoadReplay.Json
