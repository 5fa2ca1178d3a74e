import Aethon.Storage.ArchiveFiles
import Aethon.Storage.ArchiveIndex

/-!
# Rotation plans

`plan_archive_rotation` cuts the records of several archives, in the order of their capture times,
into shards within the limits of a policy, after `storage/archive_rotation.cpp`.
-/

namespace Aethon.Storage

open Actions FileSystem Codec Protocol Parsing

/-- The bytes of the header, as an estimate counts them. -/
def archiveHeaderBytes : UInt64 := 36

/-- The bytes that an estimate adds to each payload. -/
def archiveRecordOverheadBytes : UInt64 := 16

/-- Why a new archive begins. -/
inductive RotationReason where
  | none
  | maxRecords
  | maxPayloadBytes
  | maxSpanNs
  | maxFileBytes
  | idleGap
  | explicitBoundary
  deriving DecidableEq, Repr

/-- What a step of a rotation does. -/
inductive RotationStepKind where
  | keepCurrent
  | startNewArchive
  | closeArchive
  | copyRecord
  | skipRecord
  deriving DecidableEq, Repr

/-- The bounds of an archive, and how the outputs are named. -/
structure RotationPolicy where
  maxRecordsPerArchive : UInt64 := 0
  maxPayloadBytesPerArchive : UInt64 := 0
  maxCaptureSpanNs : UInt64 := 0
  maxEstimatedFileBytes : UInt64 := 0
  idleGapNs : UInt64 := 0
  keepEmptyArchives : Bool := false
  outputPrefix : String := "archive"
  outputExtension : String := ".ath"
  deriving DecidableEq, Repr

/-- An archive that goes into a rotation. -/
structure RotationInputArchive where
  path : Path
  manifest : ArchiveManifest := {}
  deriving DecidableEq, Repr

/-- A record as a rotation sees it. -/
structure RotationRecordProjection where
  sourcePath : Path
  sourceOffset : UInt64 := 0
  captureTimeNs : UInt64 := 0
  payloadSize : UInt64 := 0
  device : DeviceId := 0
  sequence : UInt32 := 0
  deriving DecidableEq, Repr

/-- An output of a rotation, and what goes into it. -/
structure RotationShard where
  outputPath : Path := ⟨""⟩
  reason : RotationReason := .none
  recordCount : UInt64 := 0
  payloadBytes : UInt64 := 0
  estimatedFileBytes : UInt64 := 0
  firstTimeNs : UInt64 := 0
  lastTimeNs : UInt64 := 0
  records : List RotationRecordProjection := []
  deriving DecidableEq, Repr

/-- A step of a rotation, and its reason. -/
structure RotationStep where
  kind : RotationStepKind := .keepCurrent
  reason : RotationReason := .none
  sourcePath : Path := ⟨""⟩
  outputPath : Path := ⟨""⟩
  captureTimeNs : UInt64 := 0
  sourceOffset : UInt64 := 0
  note : String := ""
  deriving DecidableEq, Repr

/-- The steps of a rotation and its outputs, with the totals. -/
structure RotationPlan where
  policy : RotationPolicy
  shards : List RotationShard := []
  steps : List RotationStep := []
  inputArchives : UInt64 := 0
  inputRecords : UInt64 := 0
  outputRecords : UInt64 := 0
  skippedRecords : UInt64 := 0
  deriving DecidableEq, Repr

/-- The shard that is being filled. -/
structure MutableShard where
  shard : RotationShard := {}
  hasRecords : Bool := false

/-! ## Output paths -/

/-- `std::setw(6)` with the fill character `0`. -/
def padded (n : UInt64) : List Char :=
  let digits := Nat.toDigits 10 n.toNat
  List.replicate (6 - digits.length) '0' ++ digits

/-- The name of an output: the prefix, its number and the extension. -/
def formatShardName (policy : RotationPolicy) (shardIndex : UInt64) : String :=
  policy.outputPrefix ++ "_" ++ String.ofList (padded shardIndex) ++ policy.outputExtension

/-- The path of an output. -/
def rotationOutputPath (policy : RotationPolicy) (directory : Path) (shardIndex : UInt64) : Path :=
  directory.append ⟨formatShardName policy shardIndex⟩

/-! ## Filling a shard -/

/-- A step about a record. -/
def makeStep (kind : RotationStepKind) (reason : RotationReason)
    (record : RotationRecordProjection) (outputPath : Path) (note : String) : RotationStep where
  kind
  reason
  sourcePath := record.sourcePath
  outputPath
  captureTimeNs := record.captureTimeNs
  sourceOffset := record.sourceOffset
  note

/-- A step about an output. -/
def makeArchiveStep (kind : RotationStepKind) (reason : RotationReason) (outputPath : Path)
    (note : String) : RotationStep where
  kind
  reason
  outputPath
  note

/-- What the file of an output would be with one record more, by estimate. -/
def estimateFileBytesAfter (shard : RotationShard) (record : RotationRecordProjection) : UInt64 :=
  shard.estimatedFileBytes + archiveRecordOverheadBytes + record.payloadSize

/-- The time from the first record of an output to the last, with one record more. -/
def spanAfter (shard : RotationShard) (record : RotationRecordProjection) : UInt64 :=
  if shard.recordCount = 0 then 0
  else max shard.lastTimeNs record.captureTimeNs - min shard.firstTimeNs record.captureTimeNs

/-- The first bound of the policy that a record would break. -/
def boundaryReason (policy : RotationPolicy) (shard : RotationShard)
    (record : RotationRecordProjection) : Option RotationReason :=
  if shard.recordCount = 0 then none
  else if policy.maxRecordsPerArchive ≠ 0
      ∧ shard.recordCount ≥ policy.maxRecordsPerArchive then some .maxRecords
  else if policy.maxPayloadBytesPerArchive ≠ 0
      ∧ shard.payloadBytes + record.payloadSize > policy.maxPayloadBytesPerArchive then
    some .maxPayloadBytes
  else if policy.maxCaptureSpanNs ≠ 0
      ∧ spanAfter shard record > policy.maxCaptureSpanNs then some .maxSpanNs
  else if policy.maxEstimatedFileBytes ≠ 0
      ∧ estimateFileBytesAfter shard record > policy.maxEstimatedFileBytes then some .maxFileBytes
  else if policy.idleGapNs ≠ 0 ∧ record.captureTimeNs > shard.lastTimeNs
      ∧ record.captureTimeNs - shard.lastTimeNs > policy.idleGapNs then some .idleGap
  else none

/-- Count a record at an output. -/
def appendRecord (shard : RotationShard) (record : RotationRecordProjection) : RotationShard :=
  let shard :=
    if shard.recordCount = 0 then
      { shard with
        firstTimeNs := record.captureTimeNs
        lastTimeNs := record.captureTimeNs
        estimatedFileBytes := archiveHeaderBytes }
    else
      { shard with
        firstTimeNs := min shard.firstTimeNs record.captureTimeNs
        lastTimeNs := max shard.lastTimeNs record.captureTimeNs }
  { shard with
    recordCount := shard.recordCount + 1
    payloadBytes := shard.payloadBytes + record.payloadSize
    estimatedFileBytes :=
      shard.estimatedFileBytes + (archiveRecordOverheadBytes + record.payloadSize)
    records := shard.records ++ [record] }

/-- The shard moves into the plan, and a fresh one takes its place. -/
def closeCurrentShard (plan : RotationPlan) (current : MutableShard)
    (nextReason : RotationReason) : RotationPlan × MutableShard :=
  if current.hasRecords = false ∧ plan.policy.keepEmptyArchives = false then (plan, current)
  else
    ({ plan with
        steps := plan.steps ++ [makeArchiveStep .closeArchive nextReason current.shard.outputPath
          "close rotation shard"]
        outputRecords := plan.outputRecords + current.shard.recordCount
        shards := plan.shards ++ [{ current.shard with reason := nextReason }] }, {})

/-- Begin an output, with its step. -/
def startShard (policy : RotationPolicy) (outputDirectory : Path) (shardIndex : UInt64)
    (reason : RotationReason) (plan : RotationPlan) : RotationPlan × MutableShard :=
  let outputPath := rotationOutputPath policy outputDirectory shardIndex
  ({ plan with
      steps := plan.steps ++
        [makeArchiveStep .startNewArchive reason outputPath "start rotation shard"] },
    { shard := { outputPath, reason, estimatedFileBytes := archiveHeaderBytes } })

/-! ## Estimates -/

/-- What a line of the index costs in a file, by estimate. -/
def ArchiveIndexEntry.estimateArchiveRecordBytes (entry : ArchiveIndexEntry) : UInt64 :=
  archiveRecordOverheadBytes + entry.payloadSize

/-- What a record costs in a file, by estimate. -/
def ArchiveRecord.estimateArchiveRecordBytes (record : ArchiveRecord) : UInt64 :=
  archiveRecordOverheadBytes + record.payloadSize

/-! ## The records of the inputs -/

/-- The order of the sort. Two paths that compare equal are ordered by the offsets. -/
def RotationRecordProjection.less (left right : RotationRecordProjection) : Bool :=
  if left.captureTimeNs ≠ right.captureTimeNs then left.captureTimeNs < right.captureTimeNs
  else if ¬ left.sourcePath.same right.sourcePath then
    left.sourcePath.chars < right.sourcePath.chars
  else left.sourceOffset < right.sourceOffset

/-- The projection of a line of the index. -/
def ArchiveIndexEntry.projection (path : Path) (entry : ArchiveIndexEntry) :
    RotationRecordProjection where
  sourcePath := path
  sourceOffset := entry.offset
  captureTimeNs := entry.captureTimeNs
  payloadSize := entry.payloadSize
  device := entry.device
  sequence := entry.sequence

section Planning

variable {κ : Type}

/-- The projections of the records of an archive. -/
def projectArchiveRecords (disk : Disk Path κ) (path : Path) :
    Except Error (List RotationRecordProjection) := do
  let index ← buildArchiveIndex (disk.read path)
  pure (index.records.map (ArchiveIndexEntry.projection path))

/-- The projections of all inputs, by time. -/
def collectInputs (disk : Disk Path κ) (inputs : List RotationInputArchive) :
    Except Error (List RotationRecordProjection) := do
  let projected ← inputs.mapM fun input => projectArchiveRecords disk input.path
  pure (projected.flatten.mergeSort fun left right => !right.less left)

/-- The variables of the loop of `plan_archive_rotation`. -/
structure RotationLoop where
  plan : RotationPlan
  current : MutableShard
  shardIndex : UInt64 := 0

/-- The body of the loop. -/
def RotationLoop.place (outputDirectory : Path) (loop : RotationLoop)
    (record : RotationRecordProjection) : RotationLoop :=
  let policy := loop.plan.policy
  let loop :=
    match boundaryReason policy loop.current.shard record with
    | none => loop
    | some reason =>
        let (plan, _) := closeCurrentShard loop.plan loop.current reason
        let shardIndex := loop.shardIndex + 1
        let (plan, current) := startShard policy outputDirectory shardIndex reason plan
        { plan, current, shardIndex }
  { loop with
    current := { shard := appendRecord loop.current.shard record, hasRecords := true }
    plan := { loop.plan with
      steps := loop.plan.steps ++ [makeStep .copyRecord .none record
        loop.current.shard.outputPath "copy record into rotation shard"] } }

/-- The plan for records that were collected. -/
def planRecords (plan : RotationPlan) (outputDirectory : Path)
    (records : List RotationRecordProjection) : RotationPlan :=
  let (plan, current) := startShard plan.policy outputDirectory 0 .none plan
  let loop := records.foldl (RotationLoop.place outputDirectory) { plan, current }
  (closeCurrentShard loop.plan loop.current .none).1

/-- Plan a rotation: the records by time, in outputs that keep the bounds. -/
def planArchiveRotation (disk : Disk Path κ) (inputs : List RotationInputArchive)
    (policy : RotationPolicy) (outputDirectory : Path) : Except Error RotationPlan := do
  rejectIf (policy.outputPrefix = "")
    (Error.mk .invalidArgument "rotation output prefix must not be empty")
  rejectIf (policy.outputExtension = "")
    (Error.mk .invalidArgument "rotation output extension must not be empty")
  let records ← collectInputs disk inputs
  let plan : RotationPlan :=
    { policy, inputArchives := UInt64.ofNat inputs.length
      inputRecords := UInt64.ofNat records.length }
  if records = [] then
    if policy.keepEmptyArchives then pure (planRecords plan outputDirectory [])
    else pure plan
  else pure (planRecords plan outputDirectory records)

/-- The overload for paths, which also reads the manifests. -/
def planArchiveRotationOfPaths (disk : Disk Path κ) (inputs : List Path) (policy : RotationPolicy)
    (outputDirectory : Path) : Except Error RotationPlan := do
  let archives ← inputs.mapM fun path => do
    let manifest ← buildArchiveManifest (disk.read path)
    pure { path, manifest : RotationInputArchive }
  planArchiveRotation disk archives policy outputDirectory

end Planning

/-! ## Validation -/

/-- The variables of the loop of `validate_rotation_plan`. -/
structure RotationCheck where
  outputs : List String := []
  countedRecords : UInt64 := 0
  warnings : List String := []

/-- The body of the loop. -/
def RotationCheck.check (policy : RotationPolicy) (checked : RotationCheck)
    (shard : RotationShard) : RotationCheck where
  outputs := shard.outputPath.string :: checked.outputs
  countedRecords := checked.countedRecords + shard.recordCount
  warnings := checked.warnings
    ++ warnIf shard.outputPath.empty "rotation shard has empty output path"
    ++ warnIf (shard.outputPath.string ∈ checked.outputs)
      "rotation plan contains duplicate output path"
    ++ warnIf (shard.recordCount ≠ UInt64.ofNat shard.records.length)
      "rotation shard record count differs from projected records"
    ++ warnIf (shard.recordCount = 0 ∧ policy.keepEmptyArchives = false)
      "rotation shard is empty but empty archives are disabled"
    ++ warnIf (shard.recordCount ≠ 0 ∧ shard.firstTimeNs > shard.lastTimeNs)
      "rotation shard has inverted time range"

/-- The warnings about the outputs and the totals of a plan. -/
def validateRotationPlan (plan : RotationPlan) : List String :=
  let checked := plan.shards.foldl (RotationCheck.check plan.policy) {}
  checked.warnings
    ++ warnIf (checked.countedRecords ≠ plan.outputRecords)
      "rotation output record total differs from shard totals"
    ++ warnIf (plan.outputRecords + plan.skippedRecords ≠ plan.inputRecords)
      "rotation plan does not account for every input record"

end Aethon.Storage
