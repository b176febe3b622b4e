import LoadReplay.Replay.Basic
import LoadReplay.Bucket.Column

/-!
# Summaries

What a replay came to: how many events were dispatched, how many requests succeeded, and how long
answers took. Latencies are described by their mean and by percentiles, rounded to nanoseconds.
-/

namespace LoadReplay

/-- A description of latencies. -/
structure LatencyStats where
  mean : Duration
  p50 : Duration
  p90 : Duration
  p99 : Duration
  greatest : Duration
  deriving Repr, DecidableEq

namespace LatencyStats

/-- The mean of numbers, summed up in their order. -/
def meanOf (values : List Double) : Double := Double.sum values / Double.ofNat values.length

/-- Describes latencies, if there are any; they are summed up in increasing order. -/
def of? (latencies : List Duration) : Option LatencyStats :=
  if latencies.isEmpty then none
  else
    let sorted := Double.sort (latencies.map Double.ofNat)
    some
      { mean := (meanOf sorted).roundNat
        p50 := (Column.percentile sorted 0.5).roundNat
        p90 := (Column.percentile sorted 0.9).roundNat
        p99 := (Column.percentile sorted 0.99).roundNat
        greatest := (Column.item sorted (sorted.length - 1)).roundNat }

end LatencyStats

/-- What a replay came to. -/
structure Summary where
  total : Nat
  dispatched : Nat
  records : Nat
  succeeded : Nat
  failed : Nat
  latency : Option LatencyStats
  meanServerMillis : Option Double
  maxLag : Duration
  elapsed : Duration
  cancelled : Bool
  deriving Repr, DecidableEq

namespace Summary

/-- Sums up what a replay leaves behind. -/
def of (o : Outcome) : Summary :=
  let succeeded := o.records.countP (·.isSuccess)
  let server := o.records.filterMap (·.serverMillis)
  { total := o.total
    dispatched := o.dispatched
    records := o.records.length
    succeeded
    failed := o.records.length - succeeded
    latency := LatencyStats.of? (o.records.filterMap (·.latency))
    meanServerMillis := if server.isEmpty then none else some (LatencyStats.meanOf server)
    maxLag := o.maxLag
    elapsed := o.elapsed
    cancelled := o.cancelled }

/-- A duration in seconds with three places. -/
def seconds (d : Duration) : String := (Duration.toSeconds d).fixed 3 ++ "s"

/-- The line about latencies. -/
def latencyLine (l : LatencyStats) : String :=
  s!"  latency : mean {seconds l.mean}  p50 {seconds l.p50}  p90 {seconds l.p90}  " ++
    s!"p99 {seconds l.p99}  max {seconds l.greatest}"

/-- The summary in lines. -/
def lines (s : Summary) : List String :=
  let mark := if s.cancelled then " (cancelled)" else ""
  let records :=
    if s.records = 0 then []
    else [s!"  records : {s.records} ({s.succeeded} ok, {s.failed} failed)"]
  [s!"Replay summary{mark}", s!"  events  : {s.dispatched}/{s.total} dispatched"] ++ records ++
    s.latency.toList.map latencyLine ++
    s.meanServerMillis.toList.map (fun ms => s!"  server  : mean {ms.fixed 1} ms") ++
    [s!"  max lag : {seconds s.maxLag}", s!"  elapsed : {seconds s.elapsed}"]

/-- The summary in writing. -/
def text (s : Summary) : String := "\n".intercalate s.lines

end Summary

end LoadReplay
