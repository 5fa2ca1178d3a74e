import Aethon.Common.Path
import Aethon.Foundation.StableSort
import Aethon.Foundation.Words
import Aethon.Storage.Manifest

/-!
# Retention of archives

Archives are kept, compacted, archived or deleted by the time of their last record, after
`storage/retention.cpp`. The rules are tried in a fixed order, and a threshold of zero switches its
rule off. A plan has one decision for each archive: `build_retention_plan_spec`.
-/

namespace Aethon.Storage

open StableSort

open scoped Words

/-! ## Decisions -/

/-- What is done with an archive. -/
inductive RetentionAction where
  | keep
  | compact
  | archive
  | deleteFile
  deriving DecidableEq, Repr

/-- The thresholds in time of the actions, and the sizes below which an archive is always kept. -/
structure RetentionPolicy where
  keepAfterTimeNs : UInt64 := 0
  compactBeforeTimeNs : UInt64 := 0
  archiveBeforeTimeNs : UInt64 := 0
  deleteBeforeTimeNs : UInt64 := 0
  minimumRecordsToKeep : UInt64 := 0
  minimumPayloadBytesToKeep : UInt64 := 0
  deriving DecidableEq, Repr

/-- An archive that a policy decides about. -/
structure RetentionCandidate where
  path : Path
  manifest : ArchiveManifest := {}
  deriving DecidableEq, Repr

/-- What is to be done with an archive, and why. -/
structure RetentionDecision where
  path : Path
  action : RetentionAction := .keep
  reason : String
  recordCount : UInt64 := 0
  payloadBytes : UInt64 := 0
  lastTimeNs : UInt64 := 0
  deriving DecidableEq, Repr

/-- The decisions, and the records under each action. -/
structure RetentionPlan where
  decisions : List RetentionDecision := []
  keptRecords : UInt64 := 0
  compactedRecords : UInt64 := 0
  archivedRecords : UInt64 := 0
  deletedRecords : UInt64 := 0
  deriving DecidableEq, Repr

/-- The bytes of the payloads that a manifest counts. -/
def manifestPayloadBytes (manifest : ArchiveManifest) : UInt64 :=
  manifest.devices.foldl (fun total device => total + device.totalPayloadBytes) 0

/-- A decision about a candidate. -/
def makeDecision (candidate : RetentionCandidate) (action : RetentionAction) (reason : String) :
    RetentionDecision where
  path := candidate.path
  action
  reason
  recordCount := candidate.manifest.summary.recordCount
  payloadBytes := manifestPayloadBytes candidate.manifest
  lastTimeNs := candidate.manifest.summary.lastTimeNs

/-- The archive has fewer records than the policy asks for. -/
def protectedByRecordFloor (manifest : ArchiveManifest) (policy : RetentionPolicy) : Bool :=
  policy.minimumRecordsToKeep ≠ 0 && manifest.summary.recordCount < policy.minimumRecordsToKeep

/-- The archive has fewer bytes than the policy asks for. -/
def protectedByPayloadFloor (manifest : ArchiveManifest) (policy : RetentionPolicy) : Bool :=
  policy.minimumPayloadBytesToKeep ≠ 0 &&
    manifestPayloadBytes manifest < policy.minimumPayloadBytesToKeep

/-- The decision about an archive, by the time of its last record. -/
def decideRetention (candidate : RetentionCandidate) (policy : RetentionPolicy) :
    RetentionDecision :=
  let manifest := candidate.manifest
  let last := manifest.summary.lastTimeNs
  if manifest.summary.recordCount = 0 then makeDecision candidate .deleteFile "empty archive"
  else if protectedByRecordFloor manifest policy then
    makeDecision candidate .keep "below minimum record floor"
  else if protectedByPayloadFloor manifest policy then
    makeDecision candidate .keep "below minimum payload floor"
  else if policy.keepAfterTimeNs ≠ 0 ∧ last ≥ policy.keepAfterTimeNs then
    makeDecision candidate .keep "inside active retention window"
  else if policy.deleteBeforeTimeNs ≠ 0 ∧ last < policy.deleteBeforeTimeNs then
    makeDecision candidate .deleteFile "older than delete threshold"
  else if policy.archiveBeforeTimeNs ≠ 0 ∧ last < policy.archiveBeforeTimeNs then
    makeDecision candidate .archive "older than archive threshold"
  else if policy.compactBeforeTimeNs ≠ 0 ∧ last < policy.compactBeforeTimeNs then
    makeDecision candidate .compact "older than compact threshold"
  else makeDecision candidate .keep "no retention rule matched"

/-! ## Plans -/

namespace RetentionPlan

/-- Count a decision under its action. -/
def accumulate (plan : RetentionPlan) (decision : RetentionDecision) : RetentionPlan :=
  match decision.action with
  | .keep => { plan with keptRecords := plan.keptRecords + decision.recordCount }
  | .compact => { plan with compactedRecords := plan.compactedRecords + decision.recordCount }
  | .archive => { plan with archivedRecords := plan.archivedRecords + decision.recordCount }
  | .deleteFile => { plan with deletedRecords := plan.deletedRecords + decision.recordCount }

/-- The body of the loop of `build_retention_plan`. -/
def addCandidate (policy : RetentionPolicy) (plan : RetentionPlan)
    (candidate : RetentionCandidate) : RetentionPlan :=
  let decision := decideRetention candidate policy
  let plan := plan.accumulate decision
  { plan with decisions := plan.decisions ++ [decision] }

end RetentionPlan

/-- The comparison of the sort. -/
def RetentionCandidate.endsBefore (left right : RetentionCandidate) : Bool :=
  left.manifest.summary.lastTimeNs < right.manifest.summary.lastTimeNs

/-- `sort` is `std::sort`, which may leave archives of one last time in any order. -/
def buildRetentionPlan (sort : List RetentionCandidate → List RetentionCandidate)
    (candidates : List RetentionCandidate) (policy : RetentionPolicy) : RetentionPlan :=
  (sort candidates).foldl (RetentionPlan.addCandidate policy) {}

/-! ## What a plan counts -/

/-- Whatever the rule, the decision describes the archive. -/
theorem decide_retention_describes (candidate : RetentionCandidate) (policy : RetentionPolicy) :
    ∃ action reason, decideRetention candidate policy = makeDecision candidate action reason := by
  simp only [decideRetention]
  split_ifs <;> exact ⟨_, _, rfl⟩

theorem path_decide (candidate : RetentionCandidate) (policy : RetentionPolicy) :
    (decideRetention candidate policy).path = candidate.path := by
  obtain ⟨action, reason, hdecision⟩ := decide_retention_describes candidate policy
  rw [hdecision]
  rfl

theorem record_count_decide (candidate : RetentionCandidate) (policy : RetentionPolicy) :
    (decideRetention candidate policy).recordCount = candidate.manifest.summary.recordCount := by
  obtain ⟨action, reason, hdecision⟩ := decide_retention_describes candidate policy
  rw [hdecision]
  rfl

namespace RetentionPlan

/-- The records of all decisions. -/
def totalRecords (plan : RetentionPlan) : ℕ :=
  plan.keptRecords.toNat + plan.compactedRecords.toNat + plan.archivedRecords.toNat +
    plan.deletedRecords.toNat

theorem decisions_accumulate (plan : RetentionPlan) (decision : RetentionDecision) :
    (plan.accumulate decision).decisions = plan.decisions := by
  unfold accumulate
  split <;> rfl

/-- A decision adds the records of its archive to the totals. -/
theorem total_accumulate {plan : RetentionPlan} {decision : RetentionDecision}
    (h : plan.totalRecords + decision.recordCount.toNat < 2 ^ 64) :
    (plan.accumulate decision).totalRecords =
      plan.totalRecords + decision.recordCount.toNat := by
  unfold totalRecords at h ⊢
  unfold accumulate
  split <;> simp only <;> rw [Words.toNat_add_of_lt (by omega)] <;> omega

/-- There is one decision for each candidate, in their order. -/
theorem decisions_foldl (policy : RetentionPolicy) (candidates : List RetentionCandidate)
    (plan : RetentionPlan) :
    (candidates.foldl (addCandidate policy) plan).decisions =
      plan.decisions ++ candidates.map (decideRetention · policy) := by
  induction candidates generalizing plan with
  | nil => exact (List.append_nil _).symm
  | cons candidate candidates ih =>
    rw [List.foldl_cons, ih]
    simp [addCandidate, decisions_accumulate]

/-- The totals are those of all candidates. -/
theorem total_foldl (policy : RetentionPolicy) {candidates : List RetentionCandidate}
    {plan : RetentionPlan}
    (h : plan.totalRecords +
      (candidates.map fun candidate => candidate.manifest.summary.recordCount.toNat).sum < 2 ^ 64) :
    (candidates.foldl (addCandidate policy) plan).totalRecords = plan.totalRecords +
      (candidates.map fun candidate => candidate.manifest.summary.recordCount.toNat).sum := by
  induction candidates generalizing plan with
  | nil => simp
  | cons candidate candidates ih =>
    rw [List.map_cons, List.sum_cons] at h
    have hadd : (addCandidate policy plan candidate).totalRecords =
        plan.totalRecords + candidate.manifest.summary.recordCount.toNat := by
      rw [← record_count_decide candidate policy]
      exact total_accumulate (by rw [record_count_decide]; omega)
    rw [List.foldl_cons, ih (by rw [hadd]; omega), hadd, List.map_cons, List.sum_cons,
      Nat.add_assoc]

end RetentionPlan

theorem ends_before_compares : Compares RetentionCandidate.endsBefore
    (fun candidate => candidate.manifest.summary.lastTimeNs) :=
  fun _ _ => decide_eq_true_iff

/-- A plan has one decision for each archive, and its totals are those of all archives. -/
theorem build_retention_plan_spec {sort : List RetentionCandidate → List RetentionCandidate}
    (hsort : Sorts RetentionCandidate.endsBefore sort) {candidates : List RetentionCandidate}
    (h : (candidates.map fun candidate => candidate.manifest.summary.recordCount.toNat).sum <
      2 ^ 64)
    (policy : RetentionPolicy) :
    (buildRetentionPlan sort candidates policy).decisions =
        (sort candidates).map (decideRetention · policy) ∧
      (buildRetentionPlan sort candidates policy).totalRecords =
        (candidates.map fun candidate => candidate.manifest.summary.recordCount.toNat).sum := by
  have hsum := ((hsort.perm candidates).map fun candidate =>
    candidate.manifest.summary.recordCount.toNat).sum_eq
  have hzero : RetentionPlan.totalRecords {} = 0 := rfl
  refine ⟨RetentionPlan.decisions_foldl policy _ _, ?_⟩
  have htotal := @RetentionPlan.total_foldl policy (sort candidates) {}
    (by rw [hsum, hzero, Nat.zero_add]; exact h)
  rw [hsum, hzero, Nat.zero_add] at htotal
  exact htotal

end Aethon.Storage
