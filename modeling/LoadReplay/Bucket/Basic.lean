import LoadReplay.Bucket.Column
import LoadReplay.Double.Shortest

/-!
# Buckets

A bucketing sorts numbers into labelled intervals. Quartile buckets take the quartiles of a column
as their bounds and cover all finite numbers; fixed buckets have given bounds and cover what lies
between the first and the last, each interval with its upper bound and the first one also with its
lower one.
-/

namespace LoadReplay

/-- Why numbers cannot be sorted into buckets. -/
inductive BucketFault where
  | notFinite (value : Double)
  | noLabels
  | boundCount (labels bounds : Nat)
  | boundNotFinite (bound : Double)
  | boundsNotIncreasing (bound next : Double)
  | outside (value lowest highest : Double)
  | column (fault : ColumnFault)
  deriving Repr, DecidableEq

/-- The text shown for a fault. -/
def BucketFault.message : BucketFault → String
  | notFinite v => s!"cannot classify non-finite value {v.plain}"
  | noLabels => "bucket labels are empty"
  | boundCount labels bounds => s!"{labels} labels need {labels + 1} bounds, got {bounds}"
  | boundNotFinite b => s!"bucket bound {b.plain} is not finite"
  | boundsNotIncreasing a b =>
    s!"bucket bounds must be strictly increasing: {a.plain} then {b.plain}"
  | outside v low high => s!"value {v.plain} is outside bucket bounds [{low.plain}, {high.plain}]"
  | column .empty => "cannot compute quantiles of an empty column"
  | column (.notFinite v) => s!"column contains non-finite value {v.plain}"

/-! ## Quartile buckets -/

/-- The bounds of the quartile buckets. -/
structure Quartiles where
  lower : Double
  median : Double
  upper : Double
  deriving Repr, DecidableEq

namespace Quartiles

/-- The quartiles of a column. -/
def of (values : List Double) : Except ColumnFault Quartiles := do
  let sorted ← Column.sorted values
  .ok ⟨Column.percentile sorted 0.25, Column.percentile sorted 0.5, Column.percentile sorted 0.75⟩

/-- The labels of the buckets. -/
def labels : List String := ["1", "2", "3", "4"]

/-- The label of a finite number; a number on a bound belongs below it. -/
def label (q : Quartiles) (v : Double) : String :=
  if v ≤ q.lower then "1" else if v ≤ q.median then "2" else if v ≤ q.upper then "3" else "4"

/-- The bounds in words, with one decimal place. -/
def thresholds (q : Quartiles) : List String :=
  [s!"bucket 1: <= {q.lower.fixed 1}", s!"bucket 2: <= {q.median.fixed 1}",
    s!"bucket 3: <= {q.upper.fixed 1}", s!"bucket 4:  > {q.upper.fixed 1}"]

end Quartiles

/-! ## Fixed buckets -/

/-- The label of an interval and its upper bound. -/
structure Interval where
  label : String
  upper : Double
  deriving Repr, DecidableEq

/-- Intervals one after the other, the first starting at `lowest`. -/
structure FixedBuckets where
  lowest : Double
  intervals : List Interval
  deriving Repr, DecidableEq

namespace FixedBuckets

/-- The first bound that the one after it does not exceed, with that one. -/
def notIncreasing? : List Double → Option (Double × Double)
  | a :: b :: bounds => if b ≤ a then some (a, b) else notIncreasing? (b :: bounds)
  | _ => none

/-- The buckets between bounds, from the lowest up. -/
def of (bounds : List Double) (labels : List String) : Except BucketFault FixedBuckets :=
  if labels.isEmpty then .error .noLabels
  else
    match bounds with
    | [] => .error (.boundCount labels.length 0)
    | lowest :: uppers =>
      if uppers.length ≠ labels.length then .error (.boundCount labels.length bounds.length)
      else
        match bounds.find? (!·.isFinite), notIncreasing? bounds with
        | some b, _ => .error (.boundNotFinite b)
        | none, some (a, b) => .error (.boundsNotIncreasing a b)
        | none, none => .ok ⟨lowest, List.zipWith Interval.mk labels uppers⟩

/-- The upper bound of the last interval. -/
def highest (f : FixedBuckets) : Double :=
  match f.intervals.getLast? with
  | some i => i.upper
  | none => f.lowest

/-- The interval of a finite number. -/
def interval? (f : FixedBuckets) (v : Double) : Option Interval :=
  if f.lowest ≤ v then f.intervals.find? fun i => decide (v ≤ i.upper) else none

/-- The intervals in words. -/
def thresholds (f : FixedBuckets) : List String :=
  go "[" f.lowest f.intervals
where
  go (bracket : String) (lower : Double) : List Interval → List String
    | [] => []
    | i :: is => s!"{i.label}: {bracket}{lower.plain}, {i.upper.plain}]" :: go "(" i.upper is

end FixedBuckets

/-! ## Either kind -/

/-- A way to sort numbers into buckets. -/
inductive Buckets where
  | quartiles (q : Quartiles)
  | fixed (f : FixedBuckets)
  deriving Repr, DecidableEq

namespace Buckets

/-- The labels from the lowest bucket up. -/
def labels : Buckets → List String
  | quartiles _ => Quartiles.labels
  | fixed f => f.intervals.map (·.label)

/-- The bounds in words, a line for each bucket. -/
def thresholds : Buckets → List String
  | quartiles q => q.thresholds
  | fixed f => f.thresholds

/-- The label of a number. -/
def classify (b : Buckets) (v : Double) : Except BucketFault String :=
  if v.isFinite then
    match b with
    | quartiles q => .ok (q.label v)
    | fixed f =>
      match f.interval? v with
      | some i => .ok i.label
      | none => .error (.outside v f.lowest f.highest)
  else .error (.notFinite v)

/-- How many numbers have each label; a label that comes twice is counted at its first place. -/
def distribution (b : Buckets) (values : List Double) :
    Except BucketFault (List (String × Nat)) := do
  let found ← values.mapM b.classify
  .ok <| b.labels.zipIdx.map fun (label, place) =>
    (label, if b.labels.idxOf label = place then found.count label else 0)

end Buckets

/-! ## Choosing buckets -/

/-- Which buckets are asked for. -/
inductive BucketChoice where
  | quantile
  | fixed (bounds : List Double) (labels : List String)
  deriving Repr, DecidableEq

namespace BucketChoice

/-- The bounds of fixed buckets that name none. -/
def defaultBounds : List Double := [0, 256, 1000, 4000, 8000]

/-- The labels of fixed buckets that name none. -/
def defaultLabels : List String := ["small", "medium", "large", "xl"]

/-- Fixed buckets that name neither bounds nor labels. -/
def fixedDefaults : BucketChoice := fixed defaultBounds defaultLabels

/-- The chosen buckets for a column. -/
def build (choice : BucketChoice) (column : List Double) : Except BucketFault Buckets :=
  match choice with
  | quantile =>
    match Quartiles.of column with
    | .ok q => .ok (.quartiles q)
    | .error fault => .error (.column fault)
  | fixed bounds labels => (FixedBuckets.of bounds labels).map .fixed

end BucketChoice

end LoadReplay
