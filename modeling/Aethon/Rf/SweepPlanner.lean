import Mathlib.Algebra.Order.Ring.Rat
import Aethon.Foundation.Sweeping
import Aethon.Rf.BandPlan

/-!
# The sweep planner

`segment_range`, `channel_segments`, `plan_sweep` and `optimize_sweep_plan` of
`rf/sweep_planner.cpp`. The effective span of a receiver is computed with floating point from its
profile; here it is a number that is given, and so is the text of a range. The weights of the
priorities are halves and doubles of one and exact.
-/

namespace Aethon.Rf

open Sweeping

/-- What a sweep is for. -/
inductive SweepIntent where
  | survey
  | occupancy
  | interferenceHunt
  | calibration
  | compliance
  deriving DecidableEq, Repr

/-- How much a segment matters. -/
inductive SweepPriority where
  | low
  | normal
  | high
  | urgent
  deriving DecidableEq, Repr

/-- What a receiver can tune to. -/
structure ReceiverProfile where
  minFrequencyHz : UInt64 := 0
  maxFrequencyHz : UInt64 := 6000000000
  minStepHz : UInt64 := 1000
  tuningSettleUs : UInt64 := 2000
  deriving DecidableEq, Repr

/-- A range that is swept at once. -/
structure SweepSegment where
  range : FrequencyRange := {}
  centerFrequencyHz : UInt64 := 0
  spanHz : UInt64 := 0
  binWidthHz : UInt64 := 0
  dwellUs : UInt64 := 0
  priority : SweepPriority := .normal
  intent : SweepIntent := .survey
  channel : Option RfChannel := none
  allocation : Option BandAllocation := none
  reason : String := ""
  deriving DecidableEq, Repr

/-- The segments of a sweep, with its costs. -/
structure SweepPlan where
  name : String := ""
  segments : List SweepSegment := []
  estimatedDurationUs : UInt64 := 0
  coveredHz : UInt64 := 0
  dutyCycle : Float := 0
  warnings : List String := []

/-- The part of a range that the receiver reaches. -/
def receiverClip (range : FrequencyRange) (receiver : ReceiverProfile) : FrequencyRange :=
  ⟨max range.lowerHz receiver.minFrequencyHz, min range.upperHz receiver.maxFrequencyHz⟩

/-- The next multiple of a step; where that does not fit a word, the sum wraps. -/
def alignUp (value step : UInt64) : UInt64 :=
  if step = 0 then value
  else
    let remainder := value % step
    if remainder = 0 then value else value + step - remainder

/-- A sum that stops at the largest word. -/
def safeAdd (left right : UInt64) : UInt64 :=
  if right > 0xffffffffffffffff - left then 0xffffffffffffffff else left + right

/-! ## Segments of a range -/

/-- The segment of a range. -/
def makeSegment (range : FrequencyRange) (binWidthHz dwellUs : UInt64) (priority : SweepPriority)
    (intent : SweepIntent) (reason : String) : SweepSegment where
  range := range
  centerFrequencyHz := range.centerHz
  spanHz := range.widthHz
  binWidthHz := binWidthHz
  dwellUs := dwellUs
  priority := priority
  intent := intent
  reason := reason

/-- The upper edge of the segment that starts at the cursor. -/
def alignedUpper (upperHz span binWidth cursor : UInt64) : UInt64 :=
  let upper := min upperHz (safeAdd cursor span)
  let aligned := if upper < upperHz then alignUp upper binWidth else upper
  min aligned upperHz

/-- The loop of `segment_range`, from the cursor. It ends after a segment that does not get on. -/
def segmentLoop (segment : FrequencyRange → SweepSegment) (upperHz span binWidth cursor : UInt64) :
    List SweepSegment :=
  if cursor < upperHz then
    segment ⟨cursor, alignedUpper upperHz span binWidth cursor⟩ ::
      if alignedUpper upperHz span binWidth cursor ≤ cursor then []
      else
        segmentLoop segment upperHz span binWidth (alignedUpper upperHz span binWidth cursor)
  else []
termination_by upperHz.toNat - cursor.toNat
decreasing_by
  rename_i hmore hstuck
  have hprogress := UInt64.lt_iff_toNat_lt.mp (UInt64.not_le.mp hstuck)
  have hcursor := UInt64.lt_iff_toNat_lt.mp hmore
  omega

/-- The bin width that segments are aligned to. -/
def binWidth (receiver : ReceiverProfile) (resolutionHz : UInt64) : UInt64 :=
  max resolutionHz receiver.minStepHz

/-- The pieces of a range, each covered by one span. -/
def segmentRange (span : UInt64) (range : FrequencyRange) (receiver : ReceiverProfile)
    (resolutionHz dwellUs : UInt64) (priority : SweepPriority) (intent : SweepIntent) :
    List SweepSegment :=
  let range := receiverClip range receiver
  if range.empty then []
  else
    let binWidth := binWidth receiver resolutionHz
    segmentLoop (fun part => makeSegment part binWidth dwellUs priority intent "range survey")
      range.upperHz span binWidth range.lowerHz

/-! ## Plans -/

/-- Two segments of one priority, intent and allocation, at most two bins apart, fit one span. -/
def canMerge (span : UInt64) (left right : SweepSegment) : Bool :=
  if left.priority ≠ right.priority ∨ left.intent ≠ right.intent then false
  else if left.allocation.any fun allocation =>
      right.allocation.any fun other => allocation.name ≠ other.name then false
  else if left.range.upperHz < right.range.lowerHz ∧
      right.range.lowerHz - left.range.upperHz > left.binWidthHz * 2 then false
  else (merge left.range right.range).widthHz ≤ span

/-- The segment that covers two. -/
def mergedSegment (left right : SweepSegment) : SweepSegment :=
  let range := merge left.range right.range
  { left with
    range := range
    centerFrequencyHz := range.centerHz
    spanHz := range.widthHz
    dwellUs := max left.dwellUs right.dwellUs
    reason := (if left.reason.isEmpty then left.reason else left.reason ++ "; ") ++ right.reason }

/-- The loop body of `occupied_width`, on the total and the current range. -/
def occupyStep (state : UInt64 × FrequencyRange) (range : FrequencyRange) :
    UInt64 × FrequencyRange :=
  let (total, current) := state
  if range.empty then state
  else if current.empty then (total, range)
  else if current.overlaps range ∨ current.upperHz = range.lowerHz then
    (total, merge current range)
  else (safeAdd total current.widthHz, range)

/-- The comparison of the sort in `occupied_width`. -/
def lowerFirst (left right : FrequencyRange) : Bool :=
  left.lowerHz < right.lowerHz

/-- The ranges are sorted by their lower ends, those of one lower end in any order. -/
def occupiedWidth (sort : List FrequencyRange → List FrequencyRange)
    (segments : List SweepSegment) : UInt64 :=
  let (total, current) := (sort (segments.map (·.range))).foldl occupyStep (0, {})
  if !current.empty then safeAdd total current.widthHz else total

/-- The weight of a priority. -/
def priorityWeight : SweepPriority → ℚ
  | .low => 1 / 2
  | .normal => 1
  | .high => 2
  | .urgent => 4

/-- The comparison of the sort in `optimize_sweep_plan`. -/
def segmentFirst (left right : SweepSegment) : Bool :=
  if priorityWeight left.priority ≠ priorityWeight right.priority then
    priorityWeight left.priority > priorityWeight right.priority
  else left.range.lowerHz < right.range.lowerHz

/-- The dwell and the time that the receiver takes to settle. -/
def estimateSegmentDurationUs (segment : SweepSegment) (receiver : ReceiverProfile) : UInt64 :=
  safeAdd segment.dwellUs receiver.tuningSettleUs

/-- The time of all segments, which stops at the largest word. -/
def estimatePlanDurationUs (segments : List SweepSegment) (receiver : ReceiverProfile) : UInt64 :=
  segments.foldl (fun total segment => safeAdd total (estimateSegmentDurationUs segment receiver)) 0

/-- The merging loop of `optimize_sweep_plan` on sorted segments. -/
def mergeSegments (span : UInt64) (segments : List SweepSegment) : List SweepSegment :=
  sweep (fun left right => !canMerge span left right) mergedSegment
    (segments.filter fun segment => !segment.range.empty)

/-- Sort the segments, merge neighbours and work out the costs. -/
def optimizeSweepPlan (sort : List SweepSegment → List SweepSegment)
    (sortRanges : List FrequencyRange → List FrequencyRange) (span : UInt64) (plan : SweepPlan)
    (receiver : ReceiverProfile) : SweepPlan :=
  let segments := mergeSegments span (sort plan.segments)
  let duration := estimatePlanDurationUs segments receiver
  let active := segments.foldl (fun active segment => safeAdd active segment.dwellUs) 0
  { plan with
    segments := segments
    estimatedDurationUs := duration
    coveredHz := occupiedWidth sortRanges segments
    dutyCycle := if duration > 0 then active.toFloat / duration.toFloat else plan.dutyCycle }

/-! ## Planning -/

/-- A range that is to be swept, and how. -/
structure SweepRequest where
  intent : SweepIntent := .survey
  range : FrequencyRange := {}
  service : Option RfService := none
  resolutionHz : UInt64 := 25000
  dwellUs : UInt64 := 20000
  priority : SweepPriority := .normal
  includeGuardRanges : Bool := false
  preferKnownChannels : Bool := true
  deriving DecidableEq, Repr

/-- The segment of a channel, if it meets the request and the receiver reaches it. -/
def channelSegment (receiver : ReceiverProfile) (request : SweepRequest)
    (allocation : BandAllocation) (channel : RfChannel) : Option SweepSegment :=
  if !(channelRange channel).overlaps request.range then none
  else
    let range := receiverClip (channelRange channel) receiver
    if range.empty then none
    else
      let segment := makeSegment range (binWidth receiver request.resolutionHz) request.dwellUs
        request.priority request.intent ("known channel " ++ channel.label)
      some { segment with channel := some channel, allocation := some allocation }

/-- What `std::sort` does in the planner. -/
structure SweepSorts where
  channels : List RfChannel → List RfChannel
  segments : List SweepSegment → List SweepSegment
  ranges : List FrequencyRange → List FrequencyRange

/-- The sorts put their lists in the order of the planner. -/
structure SweepSorts.Sorted (sorts : SweepSorts) : Prop where
  channels : StableSort.Sorts BandPlan.channelBefore sorts.channels
  segments : StableSort.Sorts segmentFirst sorts.segments
  ranges : StableSort.Sorts lowerFirst sorts.ranges

section Planning

variable (sorts : SweepSorts) (span : UInt64) (bandPlan : BandPlan) (receiver : ReceiverProfile)

/-- The segments of the channels of all allocations that the request asks about. -/
def channelSegments (request : SweepRequest) : List SweepSegment :=
  (bandPlan.query { range := some request.range, service := request.service }).flatMap
    fun allocation => (BandPlan.channelsFor sorts.channels allocation).filterMap
      (channelSegment receiver request allocation)

/-- The segments of a guard range of an allocation, as far as the request reaches. -/
def guardSegments (request : SweepRequest) (allocation : BandAllocation)
    (guardRange : FrequencyRange) : List SweepSegment :=
  match intersect guardRange (receiverClip request.range receiver) with
  | none => []
  | some clippedGuard =>
      (segmentRange span clippedGuard receiver request.resolutionHz request.dwellUs .high
        request.intent).map fun segment => { segment with
          allocation := some allocation
          reason := "guard range for " ++ allocation.name }

/-- The segments of the guard ranges of all allocations that the request asks about. -/
def guardsSegments (request : SweepRequest) : List SweepSegment :=
  let query : BandPlanQuery :=
    { range := some (receiverClip request.range receiver), service := request.service }
  (bandPlan.query query).flatMap fun allocation =>
    (BandPlan.guardRanges allocation).flatMap (guardSegments span receiver request allocation)

/-- The segments of known channels, or of the whole range where none are asked for or known. -/
def wishedSegments (request : SweepRequest) : List SweepSegment :=
  let known :=
    if request.preferKnownChannels then channelSegments sorts bandPlan receiver request else []
  if known.isEmpty then
    segmentRange span (receiverClip request.range receiver) receiver request.resolutionHz
      request.dwellUs request.priority request.intent
  else known

/-- Segments clipped to the receiver once more. -/
def clipSegments (segments : List SweepSegment) : List SweepSegment :=
  (segments.map fun segment => { segment with
    range := receiverClip segment.range receiver }).filter fun segment => !segment.range.empty

/-- The segments of a request, the guard ranges last. -/
def requestSegments (request : SweepRequest) : List SweepSegment :=
  clipSegments receiver (wishedSegments sorts span bandPlan receiver request) ++
    if request.includeGuardRanges then guardsSegments span bandPlan receiver request else []

/-- The body of the loop of `plan_sweep`. The text of a range is made with floating point. -/
def planRequest (formatRange : FrequencyRange → String) (plan : SweepPlan)
    (request : SweepRequest) : SweepPlan :=
  if request.range.empty then
    { plan with warnings := plan.warnings ++ ["ignored empty sweep request"] }
  else if (receiverClip request.range receiver).empty then
    { plan with warnings := plan.warnings ++
        ["request outside receiver tuning range: " ++ formatRange request.range] }
  else
    { plan with segments := plan.segments ++
        requestSegments sorts span bandPlan receiver request }

/-- The plan of all requests, optimised. -/
def planSweep (formatRange : FrequencyRange → String) (receiverName : String)
    (requests : List SweepRequest) : SweepPlan :=
  let name := if receiverName.isEmpty then "rf_sweep" else receiverName ++ " rf_sweep"
  let plan := requests.foldl (planRequest sorts span bandPlan receiver formatRange)
    { name := name }
  optimizeSweepPlan sorts.segments sorts.ranges span plan receiver

/-- How bad interference is. -/
inductive InterferenceSeverity where
  | info
  | low
  | medium
  | high
  | critical
  deriving DecidableEq, Repr

/-- Interference in a range, and the allocation that it was found in. -/
structure InterferenceFinding where
  severity : InterferenceSeverity := .info
  range : FrequencyRange := {}
  allocation : Option BandAllocation := none
  deriving DecidableEq, Repr

/-- The range of a finding with room on both sides. -/
def paddedRange (range : FrequencyRange) (resolutionHz : UInt64) : FrequencyRange :=
  let pad := max range.widthHz (resolutionHz * 10)
  ⟨if range.lowerHz > pad then range.lowerHz - pad else 0, safeAdd range.upperHz pad⟩

/-- The request that `plan_interference_followup` makes of a finding. -/
def followupRequest (resolutionHz : UInt64) (finding : InterferenceFinding) : SweepRequest where
  intent := .interferenceHunt
  range :=
    if finding.allocation.isSome then paddedRange finding.range resolutionHz else finding.range
  service := finding.allocation.map (·.service)
  resolutionHz := resolutionHz
  dwellUs := if finding.severity = .critical then 100000 else 50000
  priority := if finding.severity = .critical then .urgent else .high
  includeGuardRanges := true
  preferKnownChannels := false

/-- The plan that goes after the findings. -/
def planInterferenceFollowup (formatRange : FrequencyRange → String) (receiverName : String)
    (findings : List InterferenceFinding) (resolutionHz : UInt64) : SweepPlan :=
  { planSweep sorts span bandPlan receiver formatRange receiverName
      (findings.map (followupRequest resolutionHz)) with name := "interference_followup" }

end Planning

/-! ## The arithmetic of the planner -/

/-- A saturated sum. -/
theorem toNat_safe_add (left right : UInt64) :
    (safeAdd left right).toNat = min (left.toNat + right.toNat) (2 ^ 64 - 1) := by
  have hleft := left.toNat_lt
  have hroom : ((0xffffffffffffffff : UInt64) - left).toNat = 2 ^ 64 - 1 - left.toNat :=
    UInt64.toNat_sub_of_le _ _ (UInt64.le_iff_toNat_le.mpr (Nat.le_sub_one_of_lt hleft))
  unfold safeAdd
  split
  · next h =>
    rw [gt_iff_lt, UInt64.lt_iff_toNat_lt, hroom] at h
    show 2 ^ 64 - 1 = _
    omega
  · next h =>
    rw [gt_iff_lt, UInt64.lt_iff_toNat_lt, hroom] at h
    rw [Words.toNat_add_of_lt (by omega)]
    omega

/-- Aligning a value goes to the end of its bin, modulo the words. -/
theorem toNat_align_up (value step : UInt64) :
    (alignUp value step).toNat =
      if step.toNat = 0 ∨ value.toNat % step.toNat = 0 then value.toNat
      else (value.toNat - value.toNat % step.toNat + step.toNat) % 2 ^ 64 := by
  have hzero : ∀ word : UInt64, word = 0 ↔ word.toNat = 0 := fun word => UInt64.toNat_inj.symm
  have hwidth := value.toNat_lt
  have hle := Nat.mod_le value.toNat step.toNat
  simp only [alignUp, hzero, UInt64.toNat_mod]
  by_cases hstep : step.toNat = 0
  · rw [if_pos hstep, if_pos (Or.inl hstep)]
  · by_cases hmod : value.toNat % step.toNat = 0
    · rw [if_neg hstep, if_pos hmod, if_pos (Or.inr hmod)]
    · rw [if_neg hstep, if_neg hmod, if_neg (not_or.mpr ⟨hstep, hmod⟩), UInt64.toNat_sub,
        UInt64.toNat_add, UInt64.toNat_mod]
      omega

end Aethon.Rf
