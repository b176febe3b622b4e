import LoadReplay.Double.Arithmetic

/-!
# Columns of numbers

A column can be described when it is not empty and all its numbers are finite. Percentiles are
interpolated linearly between the two numbers around their rank in the sorted column.
-/

namespace LoadReplay

/-- Why a column cannot be described. -/
inductive ColumnFault where
  | empty
  | notFinite (value : Double)
  deriving Repr, DecidableEq

namespace Column

/-- The numbers in increasing order, if the column can be described. -/
def sorted (values : List Double) : Except ColumnFault (List Double) :=
  if values.isEmpty then .error .empty
  else
    match values.find? (!·.isFinite) with
    | some v => .error (.notFinite v)
    | none => .ok (Double.sort values)

/-- The number at an index, and zero past the end. -/
def item (sorted : List Double) (index : Nat) : Double := sorted.getD index 0

/-- The percentile `q`, as a fraction of one, of a sorted column. -/
def percentile (sorted : List Double) (q : Double) : Double :=
  let position := q * Double.ofNat (sorted.length - 1)
  let low := position.floorNat
  let high := position.ceilNat
  item sorted low + (item sorted high - item sorted low) * (position - Double.ofNat low)

end Column

/-- A description of a column. -/
structure ColumnStats where
  count : Nat
  mean : Double
  deviation : Double
  least : Double
  lowerQuartile : Double
  median : Double
  upperQuartile : Double
  greatest : Double
  deriving Repr, DecidableEq

namespace ColumnStats

/-- The standard deviation of a sample with the given mean; a single number has none. -/
def sampleDeviation (sorted : List Double) (mean : Double) : Double :=
  if 1 < sorted.length then
    let squares := sorted.map fun v => (v - mean) * (v - mean)
    (Double.sum squares / Double.ofNat (sorted.length - 1)).sqrt
  else .nan

/-- Describes a column; sums run in increasing order of its numbers. -/
def of (values : List Double) : Except ColumnFault ColumnStats := do
  let sorted ← Column.sorted values
  let mean := Double.sum sorted / Double.ofNat sorted.length
  .ok
    { count := sorted.length
      mean
      deviation := sampleDeviation sorted mean
      least := Column.item sorted 0
      lowerQuartile := Column.percentile sorted 0.25
      median := Column.percentile sorted 0.5
      upperQuartile := Column.percentile sorted 0.75
      greatest := Column.item sorted (sorted.length - 1) }

end ColumnStats

end LoadReplay
