import EdgeInclude.Number.Decimal
import EdgeInclude.Purge.Basic

/-!
# Metrics of purges

* `PurgeMetrics.accept`, `PurgeMetrics.reject` — what is counted.
* `PurgeMetrics.exposition` — the metrics as text, by name in order. A metric with labels that has
  not been counted yet does not appear.
-/

namespace EdgeInclude

/-! ## 1. Histograms -/

/-- Durations in seconds, counted by the least bound that they do not exceed. -/
structure Histogram where
  /-- For each bound, how many durations it is the least one for. -/
  counts : List (Float × UInt64)
  /-- The number of all durations. -/
  samples : UInt64
  sum : Float

namespace Histogram

/-- A histogram of nothing. -/
def ofBounds (bounds : List Float) : Histogram := ⟨bounds.map fun b => (b, 0), 0, 0⟩

/-- One more duration below the first bound that it does not exceed. -/
def bump (x : Float) : List (Float × UInt64) → List (Float × UInt64)
  | [] => []
  | (b, n) :: rest => if x ≤ b then (b, n + 1) :: rest else (b, n) :: bump x rest

/-- One more duration. -/
def observe (h : Histogram) (x : Float) : Histogram :=
  ⟨bump x h.counts, h.samples + 1, h.sum + x⟩

/-- For each bound, how many durations do not exceed it, given how many do not exceed those
before. -/
def cumulative (below : UInt64) : List (Float × UInt64) → List (Float × UInt64)
  | [] => []
  | (b, n) :: rest => (b, below + n) :: cumulative (below + n) rest

end Histogram

/-! ## 2. Counting -/

/-- Counters by the values of their labels. -/
abbrev Labelled := List (List (String × Text) × UInt64)

/-- Whether the values of labels come before others. -/
def Labelled.before (a b : List (String × Text)) : Bool := decide (a.map (·.2) < b.map (·.2))

/-- Adds one under some labels. -/
def Labelled.bump (labels : List (String × Text)) : Labelled → Labelled
  | [] => [(labels, 1)]
  | (l, n) :: rest =>
    if l == labels then (l, n + 1) :: rest
    else if Labelled.before labels l then (labels, 1) :: (l, n) :: rest
    else (l, n) :: Labelled.bump labels rest

/-- The metrics of purges. -/
structure PurgeMetrics where
  requests : Labelled
  evicted : UInt64
  latency : Histogram
  rejected : Labelled

namespace PurgeMetrics

/-- The bounds of the histogram, in seconds. -/
def bounds : List Float := [0.0001, 0.0005, 0.001, 0.005, 0.01, 0.05, 0.1, 0.5, 1.0]

def zero : PurgeMetrics := ⟨[], 0, .ofBounds bounds, []⟩

/-- A purge was accepted and removed some pages in some seconds. -/
def accept (m : PurgeMetrics) (scope : Text) (evicted : Nat) (seconds : Float) : PurgeMetrics :=
  let outcome := (if evicted == 0 then "miss" else "evicted").toList
  { m with
    requests := m.requests.bump [("outcome", outcome), ("scope", scope)]
    evicted := m.evicted + UInt64.ofNat evicted
    latency := m.latency.observe seconds }

/-- A purge was refused. -/
def reject (m : PurgeMetrics) (reason : Text) : PurgeMetrics :=
  { m with rejected := m.rejected.bump [("reason", reason)] }

/-- What a refusal is counted as. -/
def reason : Purge.Refusal → Text
  | .missingToken => "missing_token".toList
  | .invalidToken => "invalid_token".toList

/-- Counts what has become of a request. -/
def record (m : PurgeMetrics) (v : Purge.Verdict) (seconds : Float) : PurgeMetrics :=
  match v with
  | .otherMethod => m
  | .refused why => m.reject (reason why)
  | .all n => m.accept "all".toList n seconds
  | .page _ n => m.accept "page".toList n seconds

/-! ## 3. As text -/

/-- One character of the value of a label. -/
def escape (c : Char) : Text :=
  if c == '\\' then ['\\', '\\'] else if c == '\n' then ['\\', 'n']
  else if c == '"' then ['\\', '"'] else [c]

/-- Labels between braces. -/
def labelText (labels : List (String × Text)) : String :=
  let shown := labels.map fun (k, v) => k ++ "=\"" ++ String.ofList (v.flatMap escape) ++ "\""
  if labels.isEmpty then "" else "\x7b" ++ ",".intercalate shown ++ "\x7d"

/-- One line with a value. -/
def sample (name : String) (labels : List (String × Text)) (value : String) : String :=
  s!"{name}{labelText labels} {value}\n"

/-- The lines in front of the values of a metric. -/
def heading (name kind help : String) : String := s!"# HELP {name} {help}\n# TYPE {name} {kind}\n"

/-- The lines of a metric with labels. -/
def labelledLines (name help : String) (values : Labelled) : String :=
  if values.isEmpty then ""
  else heading name "counter" help ++
    String.join (values.map fun (l, n) => sample name l (Decimal.shortest n.toFloat))

/-- The lines of a histogram. -/
def histogramLines (name help : String) (h : Histogram) : String :=
  let bucket := fun (bound : String) (n : UInt64) =>
    sample s!"{name}_bucket" [("le", bound.toList)] (toString n.toNat)
  heading name "histogram" help ++
    String.join ((Histogram.cumulative 0 h.counts).map fun (b, n) =>
      bucket (Decimal.shortest b) n) ++
    bucket "+Inf" h.samples ++
    sample s!"{name}_sum" [] (Decimal.shortest h.sum) ++
    sample s!"{name}_count" [] (toString h.samples.toNat)

def latencyName : String := "esi_purge_duration_seconds"

def evictedName : String := "esi_purge_evicted_pages_total"

def rejectedName : String := "esi_purge_rejected_total"

def requestsName : String := "esi_purge_requests_total"

/-- The metrics as text, by name in order. -/
def exposition (m : PurgeMetrics) : String :=
  histogramLines latencyName "Time spent evicting pages" m.latency ++
  heading evictedName "counter" "Parsed pages evicted by purges" ++
  sample evictedName [] (Decimal.shortest m.evicted.toFloat) ++
  labelledLines rejectedName "Purges refused for authentication" m.rejected ++
  labelledLines requestsName "Accepted page cache purges" m.requests

/-- All counters by name and labels; for the histogram, the number of its durations. -/
def counters (m : PurgeMetrics) : List (String × List (String × Text) × UInt64) :=
  [(latencyName, [], m.latency.samples), (evictedName, [], m.evicted)] ++
    (m.rejected.map fun (l, n) => (rejectedName, l, n)) ++
    m.requests.map fun (l, n) => (requestsName, l, n)

end PurgeMetrics

end EdgeInclude
