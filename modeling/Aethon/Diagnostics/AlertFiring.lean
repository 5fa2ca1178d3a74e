import Aethon.Diagnostics.AlertRules
import Aethon.Foundation.StableSort
import Aethon.Foundation.Words

/-!
# When alerts fire

A threshold with a minimum duration compares the oldest and the newest sample of the evaluation
window, whatever their values: `threshold_duration_iff`. A stale rule looks at the current snapshot,
and at the history within the greatest age where there is nothing in it: `stale_fires_iff`.
-/

namespace Aethon.Diagnostics

open Extremum StableSort

/-- The comparison of `select_alert_metric_history`. -/
def olderSample (left right : MetricSample) : Bool :=
  left.timeNs < right.timeNs

/-! ## Selected samples -/

/-- The window begins its length before the evaluation, or at zero. -/
theorem toNat_window_start (evaluationTimeNs windowNs : UInt64) :
    (windowStart evaluationTimeNs windowNs).toNat =
      if windowNs = 0 then 0 else evaluationTimeNs.toNat - windowNs.toNat := by
  unfold windowStart
  by_cases hzero : windowNs = 0
  · rw [if_pos (Or.inl hzero), if_pos hzero]
    rfl
  · by_cases hearly : evaluationTimeNs < windowNs
    · rw [if_pos (Or.inr hearly), if_neg hzero]
      have hless := UInt64.lt_iff_toNat_lt.mp hearly
      show 0 = _
      omega
    · rw [if_neg (not_or.mpr ⟨hzero, hearly⟩), if_neg hzero]
      exact UInt64.toNat_sub_of_le _ _ (UInt64.not_lt.mp hearly)

/-- The history of an alert has the samples of its metric in the window. -/
theorem mem_select_alert_metric_history {sortByTime : List MetricSample → List MetricSample}
    (hsort : Sorts olderSample sortByTime) {context : AlertEvaluationContext} {metricName : Text}
    {tags : MetricTags} {windowNs : UInt64} {sample : MetricSample} :
    sample ∈ selectAlertMetricHistory sortByTime context metricName tags windowNs ↔
      sample ∈ context.history ++ context.current.samples ∧
        ofMetric metricName tags sample = true ∧
        windowStart context.evaluationTimeNs windowNs ≤ sample.timeNs ∧
        sample.timeNs ≤ context.evaluationTimeNs := by
  rw [selectAlertMetricHistory, (hsort.perm _).mem_iff, ← List.filter_append, List.mem_filter,
    Bool.and_eq_true, decide_eq_true_iff]

section Ends

variable {samples : List MetricSample} (hne : samples ≠ [])

include hne

/-- The newest sample is there, and none is newer. -/
theorem newest_sample_spec : ∃ newest ∈ samples, newestSample samples = some newest ∧
    ∀ sample ∈ samples, sample.timeNs ≤ newest.timeNs := by
  refine last_held_spec (fun left right => left.timeNs ≤ right.timeNs)
    (fun _ => UInt64.le_refl _) (fun _ _ _ => UInt64.le_trans) (fun sample newest h => ?_)
    (fun sample newest h => ?_) hne
  · exact of_decide_eq_true h
  · exact UInt64.le_of_lt (UInt64.not_le.mp (of_decide_eq_false h))

/-- The oldest sample is there, and none is older. -/
theorem oldest_sample_spec : ∃ oldest ∈ samples, oldestSample samples = some oldest ∧
    ∀ sample ∈ samples, oldest.timeNs ≤ sample.timeNs := by
  refine last_held_spec (fun left right => right.timeNs ≤ left.timeNs)
    (fun _ => UInt64.le_refl _) (fun _ _ _ hab hbc => UInt64.le_trans hbc hab)
    (fun sample oldest h => ?_) (fun sample oldest h => ?_) hne
  · exact UInt64.le_of_lt (of_decide_eq_true h)
  · exact UInt64.not_lt.mp (of_decide_eq_false h)

end Ends

/-- A rule that is enabled and not suppressed is evaluated by its kind. -/
theorem evaluate_open_rule {rule : AlertRule} {context : AlertEvaluationContext}
    (sortByTime sortSamplesByTime : List MetricSample → List MetricSample)
    (henabled : rule.enabled = true)
    (hopen : ∀ suppression ∈ rule.suppressions,
      suppression.activeAt context.evaluationTimeNs = false) :
    evaluateAlertRule sortByTime sortSamplesByTime rule context =
      match rule.condition.kind with
      | .threshold => evaluateThreshold sortByTime rule context
      | .missing => evaluateMissing rule context
      | .stale => evaluateStale sortByTime rule context
      | .rateOfChange => evaluateRate sortByTime rule context
      | .trend => evaluateTrend sortByTime sortSamplesByTime rule context := by
  have hsuppressed : ruleSuppressed rule context.evaluationTimeNs = none := by
    rw [ruleSuppressed, Option.map_eq_none_iff, List.find?_eq_none]
    intro suppression hmem
    rw [hopen suppression hmem]
    exact Bool.false_ne_true
  unfold evaluateAlertRule
  rw [henabled, hsuppressed]
  rfl

/-- The state after a comparison. -/
theorem state_of_match_iff (matched : Bool) :
    (if matched then AlertState.active else .inactive) = .active ↔ matched = true := by
  cases matched
  · exact iff_of_false AlertState.noConfusion Bool.false_ne_true
  · exact iff_of_true rfl rfl

/-! ## Minimum duration -/

/-- The gate lets an active evaluation through where two samples lie the duration apart. -/
theorem duration_gate_active_iff {evaluation : AlertEvaluation} {rule : AlertRule}
    (hduration : 0 < rule.minDurationNs) (history : List MetricSample) :
    (finishDurationGate evaluation rule history).state = .active ↔
      evaluation.state = .active ∧ ∃ first ∈ history, ∃ second ∈ history,
        first.timeNs.toNat + rule.minDurationNs.toNat ≤ second.timeNs.toNat := by
  have hpositive : rule.minDurationNs ≠ 0 := by
    rintro hzero
    rw [hzero] at hduration
    exact absurd hduration (UInt64.lt_irrefl 0)
  unfold finishDurationGate
  by_cases hactive : evaluation.state = .active
  · have hgate : ¬(evaluation.state ≠ .active ∨ rule.minDurationNs = 0) := by
      rw [not_or, not_not]
      exact ⟨hactive, hpositive⟩
    rw [if_neg hgate, and_iff_right hactive]
    by_cases hne : history = []
    · subst hne
      refine iff_of_false AlertState.noConfusion ?_
      rintro ⟨first, hfirst, -⟩
      cases hfirst
    · obtain ⟨latest, hlatestMem, hlatest, hlast⟩ := newest_sample_spec hne
      obtain ⟨earliest, hearliestMem, hearliest, hfirst⟩ := oldest_sample_spec hne
      have hspan := UInt64.toNat_sub_of_le _ _ (hlast earliest hearliestMem)
      have hends := UInt64.le_iff_toNat_le.mp (hlast earliest hearliestMem)
      rw [hearliest, hlatest]
      dsimp only
      rw [if_pos (hlast earliest hearliestMem)]
      by_cases hshort : latest.timeNs - earliest.timeNs < rule.minDurationNs
      · rw [if_pos hshort]
        rw [UInt64.lt_iff_toNat_lt] at hshort
        refine iff_of_false AlertState.noConfusion ?_
        rintro ⟨first, hfirstMem, second, hsecondMem, happart⟩
        have hfrom := UInt64.le_iff_toNat_le.mp (hfirst first hfirstMem)
        have hto := UInt64.le_iff_toNat_le.mp (hlast second hsecondMem)
        omega
      · rw [if_neg hshort]
        rw [UInt64.lt_iff_toNat_lt] at hshort
        exact iff_of_true hactive ⟨earliest, hearliestMem, latest, hlatestMem, by omega⟩
  · rw [if_pos (Or.inl hactive)]
    exact ⟨fun h => absurd h hactive, fun h => absurd h.1 hactive⟩

/-- The samples of the metric of a threshold, with the required tags. -/
def thresholdSamples (rule : AlertRule) (samples : List MetricSample) : List MetricSample :=
  samples.filter
    (ofMetric rule.condition.threshold.metricName rule.condition.threshold.requiredTags)

/-- The value of a sample meets the threshold. -/
def meetsThreshold (rule : AlertRule) (sample : MetricSample) : Bool :=
  compareAlertValue sample.value rule.condition.threshold.comparator
    rule.condition.threshold.threshold

/-- A sample of the current snapshot meets the threshold. -/
def CrossedNow (rule : AlertRule) (context : AlertEvaluationContext) : Prop :=
  ∃ sample ∈ thresholdSamples rule context.current.samples, meetsThreshold rule sample = true

/-- Two samples of the evaluation window lie the minimum duration apart, whatever their values. -/
def WindowSpans (rule : AlertRule) (context : AlertEvaluationContext) : Prop :=
  ∃ first ∈ thresholdSamples rule (context.history ++ context.current.samples),
    ∃ second ∈ thresholdSamples rule (context.history ++ context.current.samples),
      windowStart context.evaluationTimeNs rule.evaluationWindowNs ≤ first.timeNs ∧
      second.timeNs ≤ context.evaluationTimeNs ∧
      first.timeNs.toNat + rule.minDurationNs.toNat ≤ second.timeNs.toNat

/-- Every sample of the minimum duration before the evaluation meets the threshold. -/
def HeldThroughout (rule : AlertRule) (context : AlertEvaluationContext) : Prop :=
  ∀ sample ∈ thresholdSamples rule (context.history ++ context.current.samples),
    context.evaluationTimeNs.toNat ≤ sample.timeNs.toNat + rule.minDurationNs.toNat →
    sample.timeNs ≤ context.evaluationTimeNs → meetsThreshold rule sample = true

section Threshold

variable {sortByTime : List MetricSample → List MetricSample}
  (hsort : Sorts olderSample sortByTime) {rule : AlertRule} (hduration : 0 < rule.minDurationNs)
  (context : AlertEvaluationContext)

include hsort in
/-- Two samples of the history that the gate is given lie apart where two of the window do. -/
theorem history_spans_iff :
    (∃ first ∈ selectAlertMetricHistory sortByTime context rule.condition.threshold.metricName
          rule.condition.threshold.requiredTags rule.evaluationWindowNs,
        ∃ second ∈ selectAlertMetricHistory sortByTime context
            rule.condition.threshold.metricName rule.condition.threshold.requiredTags
            rule.evaluationWindowNs,
          first.timeNs.toNat + rule.minDurationNs.toNat ≤ second.timeNs.toNat) ↔
      WindowSpans rule context := by
  simp only [mem_select_alert_metric_history hsort, WindowSpans, thresholdSamples, List.mem_filter,
    UInt64.le_iff_toNat_le]
  constructor
  · rintro ⟨first, ⟨hfirst, hofFirst, hfrom, -⟩, second, ⟨hsecond, hofSecond, -, hto⟩, happart⟩
    exact ⟨first, ⟨hfirst, hofFirst⟩, second, ⟨hsecond, hofSecond⟩, hfrom, hto, happart⟩
  · rintro ⟨first, ⟨hfirst, hofFirst⟩, second, ⟨hsecond, hofSecond⟩, hfrom, hto, happart⟩
    exact ⟨first, ⟨hfirst, hofFirst, hfrom, by omega⟩, second,
      ⟨hsecond, hofSecond, by omega, hto⟩, happart⟩

include hsort hduration in
/-- A threshold with a minimum duration is active where a current sample meets it and two samples
of the window lie the duration apart. -/
theorem threshold_active_iff :
    (evaluateThreshold sortByTime rule context).state = .active ↔
      CrossedNow rule context ∧ WindowSpans rule context := by
  unfold evaluateThreshold
  dsimp only
  by_cases hempty : (selectCurrentSamples context.current rule.condition.threshold.metricName
      rule.condition.threshold.requiredTags).isEmpty = true
  · rw [if_pos hempty]
    refine iff_of_false AlertState.noConfusion ?_
    rintro ⟨⟨sample, hsample, -⟩, -⟩
    rw [List.isEmpty_iff] at hempty
    have hnone : sample ∈ ([] : List MetricSample) := hempty ▸ hsample
    cases hnone
  · rw [if_neg hempty, duration_gate_active_iff hduration, history_spans_iff hsort]
    refine and_congr_left fun _ => ?_
    exact (state_of_match_iff _).trans List.any_eq_true

end Threshold

/-- For every rule with a threshold and a minimum duration, enabled and not suppressed, and every
context: the rule is active where a current sample meets the threshold and two samples of the
evaluation window lie the duration apart. So the condition held throughout the duration whenever the
rule is active, exactly when no current sample meets the threshold, or no two samples of the window
lie the duration apart, or every sample of the duration meets the threshold. -/
theorem threshold_duration_iff
    (sortByTime sortSamplesByTime : List MetricSample → List MetricSample)
    (hsort : Sorts olderSample sortByTime) (rule : AlertRule) (context : AlertEvaluationContext)
    (henabled : rule.enabled = true)
    (hopen : ∀ suppression ∈ rule.suppressions,
      suppression.activeAt context.evaluationTimeNs = false)
    (hkind : rule.condition.kind = .threshold) (hduration : 0 < rule.minDurationNs) :
    ((evaluateAlertRule sortByTime sortSamplesByTime rule context).state = .active ↔
        CrossedNow rule context ∧ WindowSpans rule context) ∧
      (((evaluateAlertRule sortByTime sortSamplesByTime rule context).state = .active →
          HeldThroughout rule context) ↔
        ¬CrossedNow rule context ∨ ¬WindowSpans rule context ∨ HeldThroughout rule context) := by
  have hactive : (evaluateAlertRule sortByTime sortSamplesByTime rule context).state = .active ↔
      CrossedNow rule context ∧ WindowSpans rule context := by
    rw [evaluate_open_rule sortByTime sortSamplesByTime henabled hopen, hkind]
    show (evaluateThreshold sortByTime rule context).state = .active ↔ _
    exact threshold_active_iff hsort hduration context
  refine ⟨hactive, ?_⟩
  rw [hactive, and_imp, imp_iff_not_or, imp_iff_not_or]

/-! ### A value that has just crossed -/

theorem older_sample_compares : Compares olderSample fun sample => sample.timeNs.toNat :=
  fun _ _ => decide_eq_true_iff.trans UInt64.lt_iff_toNat_lt

/-- A depth over 10 for 1000 ns. -/
def depthRule : AlertRule where
  condition := { kind := .threshold, threshold := {
    metricName := ['d'], comparator := .greaterThan, threshold := 10 } }
  minDurationNs := 1000

/-- A sample of the depth at a time. -/
def depthSample (value : ℚ) (timeNs : UInt64) : MetricSample where
  identity := { name := ['d'] }
  value := value
  timeNs := timeNs

/-- The depth is 42 now and has been another one when the duration began. -/
def depthContext (before : ℚ) : AlertEvaluationContext where
  current := { samples := [depthSample 42 2000] }
  history := [depthSample before 1000]
  evaluationTimeNs := 2000

theorem sample_before_mem (before : ℚ) : depthSample before 1000 ∈ thresholdSamples depthRule
    ((depthContext before).history ++ (depthContext before).current.samples) :=
  List.mem_cons_self

/-- The rule fires whatever the depth was when the duration began. -/
theorem depth_rule_fires (before : ℚ) :
    (evaluateAlertRule (stableSort olderSample) (stableSort sampleBefore) depthRule
      (depthContext before)).state = .active := by
  have hnow : depthSample 42 2000 ∈
      thresholdSamples depthRule (depthContext before).current.samples := List.mem_cons_self
  have hafter : depthSample 42 2000 ∈ thresholdSamples depthRule
      ((depthContext before).history ++ (depthContext before).current.samples) :=
    List.mem_cons_of_mem _ List.mem_cons_self
  rw [evaluate_open_rule _ _ rfl (List.forall_mem_nil _)]
  show (evaluateThreshold (stableSort olderSample) depthRule (depthContext before)).state = .active
  rw [threshold_active_iff older_sample_compares.stable_sort_sorts (by decide)]
  have hfrom : windowStart 2000 0 ≤ 1000 := by decide
  have hto : (2000 : UInt64) ≤ 2000 := by decide
  have happart : (1000 : UInt64).toNat + (1000 : UInt64).toNat ≤ (2000 : UInt64).toNat := by decide
  exact ⟨⟨depthSample 42 2000, hnow, rfl⟩, depthSample before 1000, sample_before_mem before,
    depthSample 42 2000, hafter, hfrom, hto, happart⟩

/-- Over 10 all the time. -/
theorem deep_held_throughout :
    (evaluateAlertRule (stableSort olderSample) (stableSort sampleBefore) depthRule
        (depthContext 40)).state = .active ∧
      HeldThroughout depthRule (depthContext 40) := by
  have hall : ∀ sample ∈ (depthContext 40).history ++ (depthContext 40).current.samples,
      meetsThreshold depthRule sample = true := by
    decide
  have hactive := depth_rule_fires 40
  exact ⟨hactive, (threshold_duration_iff _ _ older_sample_compares.stable_sort_sorts depthRule
    (depthContext 40) rfl (List.forall_mem_nil _) rfl (by decide)).2.mpr (.inr (.inr
      fun sample hsample _ _ => hall sample (List.mem_of_mem_filter hsample))) hactive⟩

/-- Over 10 just now, and 5 when the duration began. -/
theorem sudden_fires :
    (evaluateAlertRule (stableSort olderSample) (stableSort sampleBefore) depthRule
        (depthContext 5)).state = .active ∧
      ¬HeldThroughout depthRule (depthContext 5) := by
  refine ⟨depth_rule_fires 5, fun hheld => ?_⟩
  have hmeets := hheld (depthSample 5 1000) (sample_before_mem 5) (by decide) (by decide)
  cases hmeets

/-! ## Staleness -/

/-- The samples of the metric of a stale rule, with the required tags. -/
def staleSamples (rule : AlertRule) (samples : List MetricSample) : List MetricSample :=
  samples.filter (ofMetric rule.condition.stale.metricName rule.condition.stale.requiredTags)

/-- The sample is older than the greatest age. -/
def Aged (rule : AlertRule) (context : AlertEvaluationContext) (sample : MetricSample) : Prop :=
  rule.condition.stale.maxAgeNs.toNat < context.evaluationTimeNs.toNat - sample.timeNs.toNat

/-- The newest of all samples of the metric is older than the greatest age. -/
def NewestAged (rule : AlertRule) (context : AlertEvaluationContext) : Prop :=
  ∃ newest ∈ staleSamples rule (context.history ++ context.current.samples),
    (∀ sample ∈ staleSamples rule (context.history ++ context.current.samples),
      sample.timeNs ≤ newest.timeNs) ∧ Aged rule context newest

section Stale

variable {rule : AlertRule} {context : AlertEvaluationContext}

/-- The newest of some samples is older than the greatest age where all of them are. -/
theorem newest_aged_iff {samples : List MetricSample} (hne : samples ≠ []) :
    (∃ newest ∈ samples, (∀ sample ∈ samples, sample.timeNs ≤ newest.timeNs) ∧
      Aged rule context newest) ↔ ∀ sample ∈ samples, Aged rule context sample := by
  constructor
  · rintro ⟨newest, -, hlast, haged⟩ sample hsample
    have hle := UInt64.le_iff_toNat_le.mp (hlast sample hsample)
    unfold Aged at haged ⊢
    omega
  · intro haged
    obtain ⟨newest, hmem, -, hlast⟩ := newest_sample_spec hne
    exact ⟨newest, hmem, hlast, haged newest hmem⟩

/-- The samples that a stale rule looks at. -/
def lookedAt (sortByTime : List MetricSample → List MetricSample) (rule : AlertRule)
    (context : AlertEvaluationContext) : List MetricSample :=
  if (staleSamples rule context.current.samples).isEmpty then
    selectAlertMetricHistory sortByTime context rule.condition.stale.metricName
      rule.condition.stale.requiredTags
      (if rule.evaluationWindowNs = 0 then rule.condition.stale.maxAgeNs
        else rule.evaluationWindowNs)
  else staleSamples rule context.current.samples

/-- The state of a rule for stale data, by the newest sample. -/
theorem state_evaluate_stale (sortByTime : List MetricSample → List MetricSample) :
    (evaluateStale sortByTime rule context).state =
      match newestSample (lookedAt sortByTime rule context) with
      | none => .noData
      | some newest =>
          if (if context.evaluationTimeNs ≥ newest.timeNs then
              context.evaluationTimeNs - newest.timeNs else 0) > rule.condition.stale.maxAgeNs
          then .active else .inactive := by
  have hlooked : lookedAt sortByTime rule context =
      if (selectCurrentSamples context.current rule.condition.stale.metricName
          rule.condition.stale.requiredTags).isEmpty then
        selectAlertMetricHistory sortByTime context rule.condition.stale.metricName
          rule.condition.stale.requiredTags
          (if rule.evaluationWindowNs = 0 then rule.condition.stale.maxAgeNs
            else rule.evaluationWindowNs)
      else selectCurrentSamples context.current rule.condition.stale.metricName
        rule.condition.stale.requiredTags := rfl
  unfold evaluateStale
  dsimp only
  rw [← hlooked]
  cases newestSample (lookedAt sortByTime rule context) with
  | none => rfl
  | some newest => rfl

/-- The age of a sample is greater than the greatest one where it is as a number. -/
theorem age_gt_iff {sample : MetricSample} :
    (if context.evaluationTimeNs ≥ sample.timeNs then context.evaluationTimeNs - sample.timeNs
      else 0) > rule.condition.stale.maxAgeNs ↔ Aged rule context sample := by
  rw [gt_iff_lt, UInt64.lt_iff_toNat_lt, Aged]
  by_cases hle : context.evaluationTimeNs ≥ sample.timeNs
  · rw [if_pos hle, UInt64.toNat_sub_of_le _ _ hle]
  · have hless := UInt64.lt_iff_toNat_lt.mp (UInt64.not_le.mp hle)
    have hzero : (0 : UInt64).toNat = 0 := rfl
    rw [if_neg hle, hzero]
    omega

/-- A stale rule is active where it looks at samples, all of them older than the greatest age. -/
theorem stale_active_iff (sortByTime : List MetricSample → List MetricSample) :
    (evaluateStale sortByTime rule context).state = .active ↔
      lookedAt sortByTime rule context ≠ [] ∧
        ∀ sample ∈ lookedAt sortByTime rule context, Aged rule context sample := by
  rw [state_evaluate_stale]
  by_cases hempty : lookedAt sortByTime rule context = []
  · rw [hempty]
    exact iff_of_false AlertState.noConfusion fun h => h.1 rfl
  · obtain ⟨newest, hmem, hnewest, hlast⟩ := newest_sample_spec hempty
    rw [hnewest, ← newest_aged_iff hempty, and_iff_right hempty]
    dsimp only
    by_cases haged : Aged rule context newest
    · rw [if_pos (age_gt_iff.mpr haged)]
      exact iff_of_true rfl ⟨newest, hmem, hlast, haged⟩
    · rw [if_neg (age_gt_iff.not.mpr haged)]
      refine iff_of_false AlertState.noConfusion ?_
      rintro ⟨other, hother, hlater, hagedOther⟩
      have hle := UInt64.le_iff_toNat_le.mp (hlater newest hmem)
      unfold Aged at haged hagedOther
      omega

variable {sortByTime : List MetricSample → List MetricSample}

/-- With samples in the current snapshot, these alone are looked at. -/
theorem looked_at_current (hcurrent : staleSamples rule context.current.samples ≠ []) :
    lookedAt sortByTime rule context = staleSamples rule context.current.samples :=
  if_neg (by simpa using hcurrent)

/-- Without any, the history within the greatest age is. -/
theorem mem_looked_at_history (hsort : Sorts olderSample sortByTime)
    (hwindow : rule.evaluationWindowNs = 0)
    (hcurrent : staleSamples rule context.current.samples = [])
    (hpast : ∀ sample ∈ staleSamples rule (context.history ++ context.current.samples),
      sample.timeNs ≤ context.evaluationTimeNs) {sample : MetricSample} :
    sample ∈ lookedAt sortByTime rule context ↔ sample ∈ staleSamples rule context.history ∧
      (rule.condition.stale.maxAgeNs ≠ 0 → ¬Aged rule context sample) := by
  have hall : staleSamples rule (context.history ++ context.current.samples) =
      staleSamples rule context.history := by
    rw [staleSamples, List.filter_append]
    exact (congrArg _ hcurrent).trans (List.append_nil _)
  rw [lookedAt, if_pos (by rw [hcurrent]; rfl), if_pos hwindow,
    mem_select_alert_metric_history hsort, ← and_assoc, ← List.mem_filter, ← hall,
    UInt64.le_iff_toNat_le, toNat_window_start]
  refine and_congr_right fun hsample => ?_
  have hle := hpast sample hsample
  rw [and_iff_left hle]
  unfold Aged
  by_cases hzero : rule.condition.stale.maxAgeNs = 0
  · rw [if_pos hzero]
    exact iff_of_true (Nat.zero_le _) fun hne => absurd hzero hne
  · rw [if_neg hzero, imp_iff_right hzero]
    omega

/-- With samples in the current snapshot, the rule is right where one of these is not older than the
greatest age or all of the history are. -/
theorem stale_with_current_iff (hcurrent : staleSamples rule context.current.samples ≠ []) :
    ((evaluateStale sortByTime rule context).state = .active ↔
        (∀ sample ∈ staleSamples rule context.history, Aged rule context sample) ∧
          ∀ sample ∈ staleSamples rule context.current.samples, Aged rule context sample) ↔
      (∃ sample ∈ staleSamples rule context.current.samples, ¬Aged rule context sample) ∨
        ∀ sample ∈ staleSamples rule context.history, Aged rule context sample := by
  rw [stale_active_iff, looked_at_current hcurrent, and_iff_right hcurrent]
  by_cases hcurrentAged : ∀ sample ∈ staleSamples rule context.current.samples,
      Aged rule context sample
  · have hnone : ¬∃ sample ∈ staleSamples rule context.current.samples,
        ¬Aged rule context sample := fun ⟨sample, hsample, hnot⟩ =>
      hnot (hcurrentAged sample hsample)
    rw [iff_true_left hcurrentAged, and_iff_left hcurrentAged, or_iff_right hnone]
  · refine iff_of_true (iff_of_false hcurrentAged fun h => hcurrentAged h.2) (Or.inl ?_)
    simpa only [not_forall, exists_prop] using hcurrentAged

/-- Without any, it is where the greatest age is zero or a sample of the history is not older. -/
theorem stale_without_current_iff (hsort : Sorts olderSample sortByTime)
    (hwindow : rule.evaluationWindowNs = 0)
    (hcurrent : staleSamples rule context.current.samples = [])
    (hpast : ∀ sample ∈ staleSamples rule (context.history ++ context.current.samples),
      sample.timeNs ≤ context.evaluationTimeNs)
    (hhistory : staleSamples rule context.history ≠ []) :
    ((evaluateStale sortByTime rule context).state = .active ↔
        ∀ sample ∈ staleSamples rule context.history, Aged rule context sample) ↔
      rule.condition.stale.maxAgeNs = 0 ∨
        ∃ sample ∈ staleSamples rule context.history, ¬Aged rule context sample := by
  have hlooked (sample : MetricSample) :=
    @mem_looked_at_history rule context sortByTime hsort hwindow hcurrent hpast sample
  rw [stale_active_iff]
  by_cases hzero : rule.condition.stale.maxAgeNs = 0
  · -- the window of no length is the whole history
    have hsame (sample : MetricSample) : sample ∈ lookedAt sortByTime rule context ↔
        sample ∈ staleSamples rule context.history :=
      (hlooked sample).trans (and_iff_left fun hne => absurd hzero hne)
    have hne : lookedAt sortByTime rule context ≠ [] := fun hnil => by
      obtain ⟨sample, hsample⟩ := List.exists_mem_of_ne_nil _ hhistory
      rw [← hsame, hnil] at hsample
      cases hsample
    refine iff_of_true ?_ (Or.inl hzero)
    rw [and_iff_right hne]
    exact forall_congr' fun sample => imp_congr_left (hsame sample)
  · -- what is looked at is within the greatest age
    have hinactive : ¬(lookedAt sortByTime rule context ≠ [] ∧
        ∀ sample ∈ lookedAt sortByTime rule context, Aged rule context sample) := by
      rintro ⟨hne, haged⟩
      obtain ⟨sample, hsample⟩ := List.exists_mem_of_ne_nil _ hne
      exact ((hlooked sample).mp hsample).2 hzero (haged sample hsample)
    rw [iff_false_left hinactive, or_iff_right hzero]
    simp only [not_forall, exists_prop]

end Stale

/-- For every stale rule without an evaluation window, enabled and not suppressed, and every context
with samples of the metric, none of them later than the evaluation: the rule is active exactly when
the newest sample is older than the greatest age, if and only if a sample of the current snapshot is
not, or none of the history is either, and without one in the current snapshot the greatest age is
zero or a sample of the history is not older. -/
theorem stale_fires_iff (sortByTime sortSamplesByTime : List MetricSample → List MetricSample)
    (hsort : Sorts olderSample sortByTime) (rule : AlertRule) (context : AlertEvaluationContext)
    (henabled : rule.enabled = true)
    (hopen : ∀ suppression ∈ rule.suppressions,
      suppression.activeAt context.evaluationTimeNs = false)
    (hkind : rule.condition.kind = .stale) (hwindow : rule.evaluationWindowNs = 0)
    (hpast : ∀ sample ∈ context.history ++ context.current.samples,
      sample.timeNs ≤ context.evaluationTimeNs)
    (hsome : staleSamples rule (context.history ++ context.current.samples) ≠ []) :
    ((evaluateAlertRule sortByTime sortSamplesByTime rule context).state = .active ↔
        NewestAged rule context) ↔
      (staleSamples rule context.current.samples ≠ [] →
        (∃ sample ∈ staleSamples rule context.current.samples, ¬Aged rule context sample) ∨
          ∀ sample ∈ staleSamples rule context.history, Aged rule context sample) ∧
      (staleSamples rule context.current.samples = [] → rule.condition.stale.maxAgeNs = 0 ∨
        ∃ sample ∈ staleSamples rule context.history, ¬Aged rule context sample) := by
  have hall : staleSamples rule (context.history ++ context.current.samples) =
      staleSamples rule context.history ++ staleSamples rule context.current.samples :=
    List.filter_append ..
  rw [evaluate_open_rule sortByTime sortSamplesByTime henabled hopen, hkind]
  show ((evaluateStale sortByTime rule context).state = .active ↔ _) ↔ _
  rw [NewestAged, newest_aged_iff hsome, hall, List.forall_mem_append]
  by_cases hcurrent : staleSamples rule context.current.samples = []
  · have hhistory : staleSamples rule context.history ≠ [] := by
      rw [hall, hcurrent, List.append_nil] at hsome
      exact hsome
    rw [imp_iff_right hcurrent, and_iff_right (fun hne => absurd hcurrent hne), hcurrent,
      and_iff_left (List.forall_mem_nil _)]
    exact stale_without_current_iff hsort hwindow hcurrent
      (fun sample hsample => hpast sample (List.mem_of_mem_filter hsample)) hhistory
  · rw [imp_iff_right hcurrent, and_iff_left (fun hnil => absurd hnil hcurrent)]
    exact stale_with_current_iff hcurrent

/-! ### A metric that has stopped -/

/-- The same samples of a metric may be at most 1000 ns old. -/
def freshRule : AlertRule where
  condition := { kind := .stale, stale := { metricName := ['d'], maxAgeNs := 1000 } }

/-- A rule whose newest sample is fresh does not fire. -/
theorem fresh_rule_not_stale :
    (evaluateAlertRule (stableSort olderSample) (stableSort sampleBefore) freshRule
        (depthContext 5)).state = .active ↔ NewestAged freshRule (depthContext 5) :=
  (stale_fires_iff _ _ older_sample_compares.stable_sort_sorts freshRule (depthContext 5) rfl
    (List.forall_mem_nil _) rfl rfl (by decide) (List.cons_ne_nil _ _)).mpr
    ⟨fun _ => Or.inl ⟨depthSample 42 2000, List.mem_cons_self, by unfold Aged; decide⟩,
      fun hnil => absurd hnil (List.cons_ne_nil _ _)⟩

/-- No sample in the current snapshot, and an old one in the history. -/
def stoppedContext : AlertEvaluationContext where
  history := [depthSample 42 1000]
  evaluationTimeNs := 5000

/-- The window of the greatest age holds no sample that is older, so the rule has no data. -/
theorem stopped_has_no_data :
    (evaluateAlertRule (stableSort olderSample) (stableSort sampleBefore) freshRule
        stoppedContext).state = .noData ∧ NewestAged freshRule stoppedContext := by
  constructor
  · have hlooked : lookedAt (stableSort olderSample) freshRule stoppedContext = [] :=
      stable_sort_nil olderSample
    rw [evaluate_open_rule _ _ rfl (List.forall_mem_nil _)]
    show (evaluateStale (stableSort olderSample) freshRule stoppedContext).state = .noData
    rw [state_evaluate_stale, hlooked]
    rfl
  · refine ⟨depthSample 42 1000, List.mem_cons_self, fun sample hsample => ?_, ?_⟩
    · rw [List.mem_singleton.mp hsample]
      exact UInt64.le_refl _
    · unfold Aged
      decide

end Aethon.Diagnostics
