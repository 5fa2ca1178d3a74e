import Aethon.Common.Text
import Aethon.Foundation.SortedTable
import Mathlib.Algebra.Order.Ring.Abs
import Mathlib.Algebra.Order.Ring.Rat
import Mathlib.Data.Char
import Mathlib.Data.List.Lex

/-!
# Metrics

The samples of `diagnostics/metrics.cpp`, their series, the differences of two snapshots and the
trend of a series. Values are exact numbers. Series and differences are kept in maps under a text
that `canonical_metric_key` makes of an identity, while `same_metric_identity` compares the name and
the tags. The sort of samples by time may leave samples of one time and key in any order.
-/

namespace Aethon.Diagnostics

/-- The tags of a metric, by their keys. -/
abbrev MetricTags := SortedTable Text Text

/-- What a metric measures. -/
inductive MetricKind where
  | counter
  | gauge
  | latency
  | ratio
  | bytes
  deriving DecidableEq, Repr

/-- Where the values of a metric go. -/
inductive MetricTrend where
  | missing
  | flat
  | rising
  | falling
  | volatileValue
  deriving DecidableEq, Repr

/-- A name with tags. -/
structure MetricIdentity where
  name : Text := []
  tags : MetricTags := ∅
  deriving DecidableEq

/-- An identity without a name and tags. -/
def MetricIdentity.empty (identity : MetricIdentity) : Bool :=
  identity.name.isEmpty && identity.tags.entries.isEmpty

/-- A value of a metric at a time. -/
structure MetricSample where
  identity : MetricIdentity := {}
  kind : MetricKind := .gauge
  value : ℚ := 0
  timeNs : UInt64 := 0
  unit : Text := []
  description : Text := []
  deriving DecidableEq

/-- The samples of one metric. -/
structure MetricSeries where
  identity : MetricIdentity := {}
  kind : MetricKind := .gauge
  unit : Text := []
  samples : List MetricSample := []

/-- How a metric changed between two snapshots. -/
structure MetricDelta where
  identity : MetricIdentity := {}
  kind : MetricKind := .gauge
  unit : Text := []
  previous : Option ℚ := none
  current : Option ℚ := none
  absoluteChange : ℚ := 0
  relativeChange : ℚ := 0
  trend : MetricTrend := .missing

/-- Samples, and the time of the newest. -/
structure MetricSnapshot where
  samples : List MetricSample := []
  captureTimeNs : UInt64 := 0

namespace MetricSnapshot

/-- Add a sample behind the others. -/
def add (snapshot : MetricSnapshot) (sample : MetricSample) : MetricSnapshot where
  samples := snapshot.samples ++ [sample]
  captureTimeNs := max snapshot.captureTimeNs sample.timeNs

/-- A snapshot without samples. -/
def clear (_ : MetricSnapshot) : MetricSnapshot :=
  {}

end MetricSnapshot

/-! ## Identities -/

/-- What the loop of `canonical_metric_key` writes for a tag. -/
def tagText (tag : Text × Text) : Text :=
  tag.1 ++ '=' :: tag.2

/-- The name and the tags in one text. -/
def canonicalMetricKey (identity : MetricIdentity) : Text :=
  identity.name ++ identity.tags.entries.flatMap fun tag => '|' :: tagText tag

/-- Identities with one name and the same tags. -/
def sameMetricIdentity (left right : MetricIdentity) : Bool :=
  left.name = right.name ∧ left.tags = right.tags

theorem same_metric_identity_iff {left right : MetricIdentity} :
    sameMetricIdentity left right = true ↔ left = right := by
  cases left
  cases right
  simp [sameMetricIdentity]

/-- The comparison of `sort_samples_by_time`. -/
def sampleBefore (left right : MetricSample) : Bool :=
  if left.timeNs ≠ right.timeNs then left.timeNs < right.timeNs
  else canonicalMetricKey left.identity < canonicalMetricKey right.identity

/-! The keys of the maps are ordered as texts. -/

local instance lawfulOrderText : Std.LawfulOrderLT Text := inferInstance

local instance linearOrderText : Std.IsLinearOrder Text := inferInstance

section Sorted

variable (sortSamplesByTime : List MetricSample → List MetricSample)

/-! ## Series -/

/-- The body of the loop of `group_metric_series`, for the series under the key of a sample. -/
def addToSeries (sample : MetricSample) (held : Option MetricSeries) : MetricSeries :=
  let series := held.getD {}
  let series :=
    if series.identity.empty then
      { series with identity := sample.identity, kind := sample.kind, unit := sample.unit }
    else series
  { series with samples := series.samples ++ [sample] }

/-- The samples in series, by their keys. -/
def groupedSeries (samples : List MetricSample) : SortedTable Text MetricSeries :=
  samples.foldl (fun grouped sample =>
    grouped.update (canonicalMetricKey sample.identity) (addToSeries sample)) ∅

/-- The series in the order of the keys, each sorted by time. -/
def groupMetricSeries (samples : List MetricSample) : List MetricSeries :=
  (groupedSeries samples).values.map fun item =>
    { item with samples := sortSamplesByTime item.samples }

/-! ## Differences -/

/-- Values below this are taken for zero. -/
def relativeEpsilon : ℚ :=
  1 / 1000000

/-- Two values lie within a distance. -/
def almostEqual (left right epsilon : ℚ) : Bool :=
  |left - right| ≤ epsilon

/-- The change by the size of the previous value, or one where that is zero. -/
def safeRelativeChange (previous current : ℚ) : ℚ :=
  if |previous| < relativeEpsilon then if current = 0 then 0 else 1
  else (current - previous) / |previous|

/-- The body of the first loop of `compare_metric_snapshots`. -/
def addPrevious (sample : MetricSample) (held : Option MetricDelta) : MetricDelta :=
  { held.getD {} with
    identity := sample.identity
    kind := sample.kind
    unit := sample.unit
    previous := some sample.value }

/-- The body of the second one. -/
def addCurrent (sample : MetricSample) (held : Option MetricDelta) : MetricDelta :=
  { held.getD {} with
    identity := sample.identity
    kind := sample.kind
    unit := sample.unit
    current := some sample.value }

/-- The body of the last one. -/
def finishDelta (delta : MetricDelta) : MetricDelta :=
  match delta.previous, delta.current with
  | some previous, some current =>
      { delta with
        absoluteChange := current - previous
        relativeChange := safeRelativeChange previous current
        trend :=
          if almostEqual (current - previous) 0 relativeEpsilon then .flat
          else if current - previous > 0 then .rising
          else .falling }
  | _, _ => { delta with trend := .missing }

/-- The changes of all metrics of both snapshots, by their keys. -/
def comparedDeltas (previous current : MetricSnapshot) : SortedTable Text MetricDelta :=
  current.samples.foldl (fun deltas sample =>
      deltas.update (canonicalMetricKey sample.identity) (addCurrent sample))
    (previous.samples.foldl (fun deltas sample =>
      deltas.update (canonicalMetricKey sample.identity) (addPrevious sample)) ∅)

/-- The changes in the order of the keys. -/
def compareMetricSnapshots (previous current : MetricSnapshot) : List MetricDelta :=
  (comparedDeltas previous current).values.map finishDelta

/-! ## Trends -/

/-- How often the value stays, rises and falls from one sample to the next. -/
structure TrendCounts where
  rising : ℕ := 0
  falling : ℕ := 0
  flat : ℕ := 0

/-- The loop of `classify_metric_trend`. -/
def countTrends (noiseFloor : ℚ) : List MetricSample → TrendCounts
  | first :: second :: rest =>
      let counts := countTrends noiseFloor (second :: rest)
      let diff := second.value - first.value
      if |diff| ≤ noiseFloor then { counts with flat := counts.flat + 1 }
      else if diff > 0 then { counts with rising := counts.rising + 1 }
      else { counts with falling := counts.falling + 1 }
  | _ => {}

/-- The trend of the values in the order of time. -/
def classifyMetricTrend (samples : List MetricSample) (noiseFloor : ℚ) : MetricTrend :=
  if samples.length < 2 then .missing
  else
    let ordered := sortSamplesByTime samples
    let counts := countTrends noiseFloor ordered
    if counts.flat = ordered.length - 1 then .flat
    else if counts.rising > 0 ∧ counts.falling > 0 then .volatileValue
    else if counts.rising > counts.falling then .rising
    else .falling

end Sorted

end Aethon.Diagnostics
