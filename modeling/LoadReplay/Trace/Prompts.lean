import LoadReplay.Json.Parser

/-!
# Prompts

The prompts give each bucket the text that is sent for it. They are kept in the order of the bucket
labels, each label once.
-/

namespace LoadReplay

/-- The texts of the buckets, sorted by label. -/
structure Prompts where
  entries : List (String × String)
  deriving Repr, DecidableEq

namespace Prompts

/-- Puts an entry in its place in a sorted list, instead of one with the same label. -/
def insertEntry (label text : String) : List (String × String) → List (String × String)
  | [] => [(label, text)]
  | entry :: entries =>
    if label < entry.1 then (label, text) :: entry :: entries
    else if label = entry.1 then (label, text) :: entries
    else entry :: insertEntry label text entries

/-- The prompts of some entries; of two with one label the later one counts. -/
def ofEntries (entries : List (String × String)) : Prompts :=
  ⟨entries.foldl (fun kept entry => insertEntry entry.1 entry.2 kept) []⟩

/-- The prompts in a text that is an object of texts in JSON. -/
def ofText? (text : List Char) : Option Prompts :=
  ((Json.parse? text).bind Json.Value.strings?).map ofEntries

/-- The text of a bucket. -/
def find? (p : Prompts) (label : String) : Option String := p.entries.lookup label

/-- The labels that have a text, in order. -/
def labels (p : Prompts) : List String := p.entries.map (·.1)

end Prompts

end LoadReplay
