import Aethon.Diagnostics.Metrics
import Aethon.Foundation.Extremum

/-!
# Alert rules

The rules of `diagnostics/alert_rules.cpp` and their evaluation over a snapshot and the history
before it. Metric values, and the numbers computed from them, are exact. The two sorts may leave
samples that compare equal in any order.
-/

namespace Aethon.Diagnostics

open Extremum Text

/-- How bad it is when an alert fires. -/
inductive AlertSeverity where
  | info
  | warning
  | critical
  deriving DecidableEq, Repr

/-- How a value is compared with a limit. -/
inductive AlertComparator where
  | lessThan
  | lessOrEqual
  | greaterThan
  | greaterOrEqual
  | equal
  | notEqual
  deriving DecidableEq, Repr

/-- What a rule looks for. -/
inductive AlertConditionKind where
  | threshold
  | missing
  | stale
  | rateOfChange
  | trend
  deriving DecidableEq, Repr

/-- What an evaluation comes to. -/
inductive AlertState where
  | inactive
  | active
  | suppressed
  | noData
  deriving DecidableEq, Repr

/-- A value that is compared with a threshold. -/
structure AlertThresholdCondition where
  metricName : Text := []
  requiredTags : MetricTags := ∅
  comparator : AlertComparator := .greaterOrEqual
  threshold : ℚ := 0

/-- A metric that has no sample. -/
structure AlertMissingCondition where
  metricName : Text := []
  requiredTags : MetricTags := ∅

/-- A metric without a sample of late. -/
structure AlertStaleCondition where
  metricName : Text := []
  requiredTags : MetricTags := ∅
  maxAgeNs : UInt64 := 0

/-- A value that changes too fast. -/
structure AlertRateCondition where
  metricName : Text := []
  requiredTags : MetricTags := ∅
  comparator : AlertComparator := .greaterOrEqual
  thresholdPerSecond : ℚ := 0

/-- A value that goes the way that was expected. -/
structure AlertTrendCondition where
  metricName : Text := []
  requiredTags : MetricTags := ∅
  expected : MetricTrend := .rising
  noiseFloor : ℚ := 0

/-- A condition of one kind; the others stand at their defaults. -/
structure AlertCondition where
  kind : AlertConditionKind := .threshold
  threshold : AlertThresholdCondition := {}
  missing : AlertMissingCondition := {}
  stale : AlertStaleCondition := {}
  rate : AlertRateCondition := {}
  trend : AlertTrendCondition := {}

/-- A time in which a rule does not fire. -/
structure AlertSuppression where
  reason : Text := []
  startTimeNs : UInt64 := 0
  endTimeNs : UInt64 := 0

/-- A suppression holds at both of its ends and between them. -/
def AlertSuppression.activeAt (suppression : AlertSuppression) (timeNs : UInt64) : Bool :=
  timeNs ≥ suppression.startTimeNs ∧ timeNs ≤ suppression.endTimeNs

/-- When an alert fires, and what it says. -/
structure AlertRule where
  id : Text := []
  title : Text := []
  severity : AlertSeverity := .warning
  condition : AlertCondition := {}
  evaluationWindowNs : UInt64 := 0
  minDurationNs : UInt64 := 0
  labels : List Text := []
  suppressions : List AlertSuppression := []
  enabled : Bool := true

/-- What a rule saw of a metric. -/
structure AlertEvidence where
  metricName : Text := []
  tags : MetricTags := ∅
  observedValue : Option ℚ := none
  comparisonValue : Option ℚ := none
  observedTimeNs : UInt64 := 0
  message : Text := []

/-- What a rule comes to at a time. -/
structure AlertEvaluation where
  ruleId : Text := []
  title : Text := []
  severity : AlertSeverity := .warning
  state : AlertState := .inactive
  evaluatedAtNs : UInt64 := 0
  activeSinceNs : UInt64 := 0
  activeDurationNs : UInt64 := 0
  reason : Text := []
  labels : List Text := []
  evidence : List AlertEvidence := []

/-- The samples that rules are evaluated on. -/
structure AlertEvaluationContext where
  current : MetricSnapshot := {}
  history : List MetricSample := []
  evaluationTimeNs : UInt64 := 0

/-! ## Texts -/

/-- A number that is not negative, rounded to the nearest one, to the even one of two. -/
def roundHalfEven (value : ℚ) : ℕ :=
  let below := value.floor.toNat
  if value - below < 1 / 2 then below
  else if value - below > 1 / 2 then below + 1
  else below + below % 2

/-- `std::fixed` with three digits behind the point. -/
def formatDouble (value : ℚ) : Text :=
  let scaled := roundHalfEven (|value| * 1000)
  let fraction := decimal (scaled % 1000)
  (if value < 0 then ['-'] else []) ++ decimal (scaled / 1000) ++
    '.' :: (List.replicate (3 - fraction.length) '0' ++ fraction)

/-- The sign of a comparator. -/
def alertComparatorName (comparator : AlertComparator) : Text :=
  match comparator with
  | .lessThan => ['<']
  | .lessOrEqual => ['<', '=']
  | .greaterThan => ['>']
  | .greaterOrEqual => ['>', '=']
  | .equal => ['=', '=']
  | .notEqual => ['!', '=']

/-- The name of a trend. -/
def metricTrendName (trend : MetricTrend) : Text :=
  match trend with
  | .missing => "missing".toList
  | .flat => "flat".toList
  | .rising => "rising".toList
  | .falling => "falling".toList
  | .volatileValue => "volatile".toList

/-! ## Samples -/

/-- A value meets a comparison. -/
def compareAlertValue (left : ℚ) (comparator : AlertComparator) (right : ℚ) : Bool :=
  match comparator with
  | .lessThan => left < right
  | .lessOrEqual => left ≤ right
  | .greaterThan => left > right
  | .greaterOrEqual => left ≥ right
  | .equal => left = right
  | .notEqual => left ≠ right

/-- A sample has all tags that are asked for. -/
def tagsMatch (candidate required : MetricTags) : Bool :=
  required.entries.all fun tag => candidate.lookup tag.1 = some tag.2

/-- The tests of a sample in `select_current_samples` and `select_alert_metric_history`. -/
def ofMetric (metricName : Text) (tags : MetricTags) (sample : MetricSample) : Bool :=
  sample.identity.name = metricName ∧ tagsMatch sample.identity.tags tags

/-- The newest sample, the last of several. -/
def newestSample (samples : List MetricSample) : Option MetricSample :=
  lastHeld (fun sample newest => sample.timeNs ≥ newest.timeNs) samples

/-- The oldest sample, the first of several. -/
def oldestSample (samples : List MetricSample) : Option MetricSample :=
  lastHeld (fun sample oldest => sample.timeNs < oldest.timeNs) samples

/-- The samples of a metric with the tags in a snapshot. -/
def selectCurrentSamples (snapshot : MetricSnapshot) (metricName : Text) (tags : MetricTags) :
    List MetricSample :=
  snapshot.samples.filter (ofMetric metricName tags)

/-- The start of the window before the evaluation time. -/
def windowStart (evaluationTimeNs windowNs : UInt64) : UInt64 :=
  if windowNs = 0 ∨ evaluationTimeNs < windowNs then 0 else evaluationTimeNs - windowNs

section Sorted

variable (sortByTime sortSamplesByTime : List MetricSample → List MetricSample)

/-- The samples of a metric with the tags in the window, by time. -/
def selectAlertMetricHistory (context : AlertEvaluationContext) (metricName : Text)
    (tags : MetricTags) (windowNs : UInt64) : List MetricSample :=
  let startNs := windowStart context.evaluationTimeNs windowNs
  let within (sample : MetricSample) : Bool :=
    sample.timeNs ≥ startNs ∧ sample.timeNs ≤ context.evaluationTimeNs
  sortByTime (
    (context.history.filter fun sample => ofMetric metricName tags sample && within sample) ++
    context.current.samples.filter fun sample => ofMetric metricName tags sample && within sample)

/-! ## Evaluation -/

/-- An evaluation before anything was looked at. -/
def baseEvaluation (rule : AlertRule) (context : AlertEvaluationContext) : AlertEvaluation where
  ruleId := rule.id
  title := rule.title
  severity := rule.severity
  evaluatedAtNs := context.evaluationTimeNs
  labels := rule.labels

/-- The reason of the first suppression that is active. -/
def ruleSuppressed (rule : AlertRule) (timeNs : UInt64) : Option Text :=
  (rule.suppressions.find? fun suppression => suppression.activeAt timeNs).map
    AlertSuppression.reason

/-- An alert is active only once its samples span the minimum duration. -/
def finishDurationGate (evaluation : AlertEvaluation) (rule : AlertRule)
    (history : List MetricSample) : AlertEvaluation :=
  if evaluation.state ≠ .active ∨ rule.minDurationNs = 0 then evaluation
  else
    match oldestSample history, newestSample history with
    | some earliest, some latest =>
        let evaluation :=
          { evaluation with
            activeSinceNs := earliest.timeNs
            activeDurationNs :=
              if latest.timeNs ≥ earliest.timeNs then latest.timeNs - earliest.timeNs else 0 }
        if evaluation.activeDurationNs < rule.minDurationNs then
          { evaluation with
            state := .inactive
            reason := "condition active but below minimum duration".toList }
        else evaluation
    | _, _ =>
        { evaluation with
          state := .noData
          reason := "condition has no history for duration gate".toList }

/-- The evidence of a sample that a threshold is compared with. -/
def thresholdEvidence (condition : AlertThresholdCondition) (sample : MetricSample) :
    AlertEvidence where
  metricName := sample.identity.name
  tags := sample.identity.tags
  observedValue := some sample.value
  comparisonValue := some condition.threshold
  observedTimeNs := sample.timeNs
  message := formatDouble sample.value ++ ' ' :: (alertComparatorName condition.comparator ++
    ' ' :: formatDouble condition.threshold)

/-- Compare the current samples with a threshold. -/
def evaluateThreshold (rule : AlertRule) (context : AlertEvaluationContext) : AlertEvaluation :=
  let evaluation := baseEvaluation rule context
  let condition := rule.condition.threshold
  let current := selectCurrentSamples context.current condition.metricName condition.requiredTags
  if current.isEmpty then
    { evaluation with
      state := .noData
      reason := "metric not present in current snapshot".toList }
  else
    let matched := current.any fun sample =>
      compareAlertValue sample.value condition.comparator condition.threshold
    let evaluation :=
      { evaluation with
        evidence := current.map (thresholdEvidence condition)
        state := if matched then .active else .inactive
        reason := if matched then "threshold condition matched".toList
          else "threshold condition did not match".toList }
    let history := selectAlertMetricHistory sortByTime context condition.metricName
      condition.requiredTags rule.evaluationWindowNs
    finishDurationGate evaluation rule history

/-- See if a metric has any sample. -/
def evaluateMissing (rule : AlertRule) (context : AlertEvaluationContext) : AlertEvaluation :=
  let evaluation := baseEvaluation rule context
  let condition := rule.condition.missing
  let evidence : AlertEvidence :=
    { metricName := condition.metricName
      tags := condition.requiredTags
      observedTimeNs := context.evaluationTimeNs }
  match newestSample
      (selectCurrentSamples context.current condition.metricName condition.requiredTags) with
  | none =>
      { evaluation with
        state := .active
        reason := "metric is absent".toList
        evidence := [{ evidence with message := "required metric missing".toList }] }
  | some newest =>
      { evaluation with
        state := .inactive
        reason := "metric is present".toList
        evidence := [{ evidence with
          observedValue := some newest.value
          message := "required metric present".toList }] }

/-- Compare the age of the newest sample, a current one or else one of the window, with the limit.
-/
def evaluateStale (rule : AlertRule) (context : AlertEvaluationContext) : AlertEvaluation :=
  let evaluation := baseEvaluation rule context
  let condition := rule.condition.stale
  let current := selectCurrentSamples context.current condition.metricName condition.requiredTags
  let current :=
    if current.isEmpty then
      selectAlertMetricHistory sortByTime context condition.metricName condition.requiredTags
        (if rule.evaluationWindowNs = 0 then condition.maxAgeNs else rule.evaluationWindowNs)
    else current
  let evidence : AlertEvidence :=
    { metricName := condition.metricName
      tags := condition.requiredTags
      comparisonValue := some condition.maxAgeNs.toNat
      observedTimeNs := context.evaluationTimeNs }
  match newestSample current with
  | none =>
      { evaluation with
        state := .noData
        reason := "metric has no samples".toList
        evidence := [{ evidence with
          message := "no sample available for staleness check".toList }] }
  | some newest =>
      let age :=
        if context.evaluationTimeNs ≥ newest.timeNs then context.evaluationTimeNs - newest.timeNs
        else 0
      { evaluation with
        state := if age > condition.maxAgeNs then .active else .inactive
        reason := if age > condition.maxAgeNs then "metric is stale".toList
          else "metric is fresh".toList
        evidence := [{ evidence with
          observedValue := some age.toNat
          message := "sample age ".toList ++ (decimal age.toNat ++ "ns".toList) }] }

/-- Compare the change per second over the window with a limit. -/
def evaluateRate (rule : AlertRule) (context : AlertEvaluationContext) : AlertEvaluation :=
  let evaluation := baseEvaluation rule context
  let condition := rule.condition.rate
  let history := selectAlertMetricHistory sortByTime context condition.metricName
    condition.requiredTags rule.evaluationWindowNs
  if history.length < 2 then
    { evaluation with
      state := .noData
      reason := "rate condition needs at least two samples".toList }
  else
    match oldestSample history, newestSample history with
    | some oldest, some newest =>
        let elapsedNs := if newest.timeNs > oldest.timeNs then newest.timeNs - oldest.timeNs else 0
        if elapsedNs = 0 then
          { evaluation with
            state := .noData
            reason := "rate condition has zero elapsed time".toList }
        else
          let elapsedSeconds : ℚ := elapsedNs.toNat / 1000000000
          let rate := (newest.value - oldest.value) / elapsedSeconds
          let matched := compareAlertValue rate condition.comparator condition.thresholdPerSecond
          let evaluation :=
            { evaluation with
              evidence := [{
                metricName := condition.metricName
                tags := condition.requiredTags
                observedValue := some rate
                comparisonValue := some condition.thresholdPerSecond
                observedTimeNs := newest.timeNs
                message := "rate ".toList ++ (formatDouble rate ++ "/s".toList) }]
              state := if matched then .active else .inactive
              reason := if matched then "rate condition matched".toList
                else "rate condition did not match".toList }
          finishDurationGate evaluation rule history
    | _, _ => evaluation

/-- Compare the trend of the window with the one that is expected. -/
def evaluateTrend (rule : AlertRule) (context : AlertEvaluationContext) : AlertEvaluation :=
  let evaluation := baseEvaluation rule context
  let condition := rule.condition.trend
  let history := selectAlertMetricHistory sortByTime context condition.metricName
    condition.requiredTags rule.evaluationWindowNs
  if history.length < 2 then
    { evaluation with
      state := .noData
      reason := "trend condition needs at least two samples".toList }
  else
    let observed := classifyMetricTrend sortSamplesByTime history condition.noiseFloor
    let matched : Bool := observed = condition.expected
    let evaluation :=
      { evaluation with
        evidence := [{
          metricName := condition.metricName
          tags := condition.requiredTags
          observedTimeNs := ((newestSample history).map MetricSample.timeNs).getD
            context.evaluationTimeNs
          message := "trend ".toList ++ (metricTrendName observed ++
            (" expected ".toList ++ metricTrendName condition.expected)) }]
        state := if matched then .active else .inactive
        reason := if matched then "trend condition matched".toList
          else "trend condition did not match".toList }
    finishDurationGate evaluation rule history

/-- Evaluate a rule by its kind, unless it is disabled or suppressed. -/
def evaluateAlertRule (rule : AlertRule) (context : AlertEvaluationContext) : AlertEvaluation :=
  let evaluation := baseEvaluation rule context
  if !rule.enabled then
    { evaluation with
      state := .inactive
      reason := "rule disabled".toList }
  else
    match ruleSuppressed rule context.evaluationTimeNs with
    | some suppressionReason =>
        { evaluation with
          state := .suppressed
          reason := if suppressionReason.isEmpty then "rule suppressed".toList
            else suppressionReason }
    | none =>
        match rule.condition.kind with
        | .threshold => evaluateThreshold sortByTime rule context
        | .missing => evaluateMissing rule context
        | .stale => evaluateStale sortByTime rule context
        | .rateOfChange => evaluateRate sortByTime rule context
        | .trend => evaluateTrend sortByTime sortSamplesByTime rule context

end Sorted

end Aethon.Diagnostics
