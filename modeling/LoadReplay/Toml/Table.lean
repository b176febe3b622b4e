import LoadReplay.Toml.Basic

/-!
# Building tables

A key is given a value once. A key with dots goes into tables that were made by such keys, or by
the headers of tables further inside, but never into one with a header of its own or between
braces; a header makes a table that nothing has defined before, or one more element of an array of
tables.
-/

namespace LoadReplay.Toml

/-- The entries with a key's value replaced, or added behind the others. -/
def setEntry (entries : Entries) (key : String) (value : Value) : Entries :=
  if entries.any (·.1 == key) then
    entries.map fun entry => if entry.1 = key then (key, value) else entry
  else entries ++ [(key, value)]

/-- The array of tables with its last element changed. -/
def changeLast (elements : List Entries) (change : Entries → Option Entries) :
    Option (List Entries) :=
  match elements.getLast? with
  | some last => (change last).map fun changed => elements.dropLast ++ [changed]
  | none => none

/-- The entries with one more value, `none` where the key is taken or leads into a table that may
not be added to. -/
def insertPair (value : Value) : Key → Entries → Option Entries
  | [], _ => none
  | [key], entries => if entries.any (·.1 == key) then none else some (entries ++ [(key, value)])
  | key :: next :: keys, entries =>
    let inside := insertPair value (next :: keys)
    match entries.lookup key with
    | none => (inside []).map fun sub => entries ++ [(key, .table .dotted sub)]
    | some (.table .dotted sub) =>
      (inside sub).map fun sub => setEntry entries key (.table .dotted sub)
    | some (.table .implied sub) =>
      if keys.isEmpty then none
      else (inside sub).map fun sub => setEntry entries key (.table .implied sub)
    | some (.tables elements) =>
      if keys.isEmpty then none
      else (changeLast elements inside).map fun ts => setEntry entries key (.tables ts)
    | some _ => none

/-- The entries with what a header names changed; tables on the way are made where they are
missing. -/
def changeAt (change : Option Value → Option Value) : Key → Entries → Option Entries
  | [], _ => none
  | [key], entries => (change (entries.lookup key)).map (setEntry entries key)
  | key :: next :: keys, entries =>
    let inside := changeAt change (next :: keys)
    match entries.lookup key with
    | none => (inside []).map fun sub => setEntry entries key (.table .implied sub)
    | some (.table .inline _) => none
    | some (.table origin sub) =>
      (inside sub).map fun sub => setEntry entries key (.table origin sub)
    | some (.tables elements) =>
      (changeLast elements inside).map fun ts => setEntry entries key (.tables ts)
    | some _ => none

/-- Keys and their values, put into a table one after the other. -/
def insertPairs (pairs : List (Key × Value)) (entries : Entries) : Option Entries :=
  pairs.foldlM (fun entries pair => insertPair pair.2 pair.1 entries) entries

/-- What a header opens: a table, or an element of an array of tables. -/
inductive Header where
  | table (key : Key)
  | element (key : Key)
  deriving Repr, DecidableEq

/-- A header with the pairs below it. -/
structure Section where
  header : Header
  pairs : List (Key × Value)
  deriving Repr

/-- The entries with a section put in its place. -/
def Section.place (s : Section) (entries : Entries) : Option Entries :=
  match s.header with
  | .table key =>
    let change : Option Value → Option Value
      | none => (insertPairs s.pairs []).map (.table .header)
      | some (.table .implied sub) => (insertPairs s.pairs sub).map (.table .header)
      | some _ => none
    changeAt change key entries
  | .element key =>
    let change : Option Value → Option Value
      | none => (insertPairs s.pairs []).map fun e => .tables [e]
      | some (.tables elements) => (insertPairs s.pairs []).map fun e => .tables (elements ++ [e])
      | some _ => none
    changeAt change key entries

/-- The table of a whole text: pairs before the first header, and sections. -/
def build (pairs : List (Key × Value)) (sections : List Section) : Option Entries := do
  let root ← insertPairs pairs []
  sections.foldlM (fun entries s => s.place entries) root

end LoadReplay.Toml
