import Aethon.Storage.ArchiveRecords
import Aethon.Storage.ArchiveRotation

/-!
# Carrying out a rotation

`execute_archive_rotation` writes the shards of a plan one by one, and reads each record from its
source when it is its turn, after `storage/archive_rotation.cpp`.
-/

namespace Aethon.Storage

open Actions FileSystem Codec Protocol Parsing

/-- Whether a rotation may write over files. -/
structure RotationExecutionOptions where
  overwriteOutputs : Bool := false
  deriving DecidableEq, Repr

/-- What the execution of a rotation wrote. -/
structure RotationExecutionReport where
  plan : RotationPlan
  writtenArchives : List Path := []
  warnings : List String := []
  recordsWritten : UInt64 := 0
  recordsSkipped : UInt64 := 0
  deriving DecidableEq, Repr

/-- What the report says of one more record of the plan. -/
def RotationExecutionReport.note (report : RotationExecutionReport)
    (projection : RotationRecordProjection) (found : Option ArchiveRecord) :
    RotationExecutionReport :=
  match found with
  | none =>
      { report with
        recordsSkipped := report.recordsSkipped + 1
        warnings := report.warnings ++
          ["missing projected record at offset " ++ toString projection.sourceOffset] }
  | some _ => { report with recordsWritten := report.recordsWritten + 1 }

section Execution

variable {κ : Type} [DecidableEq κ]

/-- Refuse an output that is a file already, or warn of it when it may be replaced. -/
def ensureOutputAvailable (path : Path) (overwrite : Bool) :
    Action (Disk Path κ) Error (List String) := do
  if (← get).isFile path then
    rejectIf (overwrite = false) (Error.mk .invalidArgument "rotation output already exists")
    modify fun disk => disk.remove path
    pure ["overwriting existing archive: " ++ path.string]
  else pure []

/-- What a path leads to while a shard is written. `flushed` says which bytes of a file that is
still written show, and the other files are those of the disk. -/
def seenFile (flushed : Bytes → Bytes) (disk : Disk Path κ) (output : Path) (content : Bytes)
    (path : Path) : Option Bytes :=
  if disk.locate path = disk.locate output then some (flushed content) else disk.read path

/-- The body of the loop over the records of a shard. -/
def copyRecord (flushed : Bytes → Bytes) (disk : Disk Path κ) (output : Path)
    (report : RotationExecutionReport) (projection : RotationRecordProjection) :
    Action ArchiveWriter Error RotationExecutionReport := do
  let file := seenFile flushed disk output (← get).out.content projection.sourcePath
  let found ← liftM (readRecordAt file projection.sourceOffset)
  match found with
  | none => pure ()
  | some record => ArchiveWriter.append record.captureTimeNs record.packet
  pure (report.note projection found)

/-- The body of the loop over the shards. -/
def executeShard (flushed : Bytes → Bytes) (options : RotationExecutionOptions)
    (report : RotationExecutionReport) (shard : RotationShard) :
    Action (Disk Path κ) Error RotationExecutionReport := do
  let warnings ← ensureOutputAvailable shard.outputPath options.overwriteOutputs
  let report := { report with warnings := report.warnings ++ warnings }
  let report ← withWriter shard.outputPath fun disk => do
    let report ← shard.records.foldlM (copyRecord flushed disk shard.outputPath) report
    ArchiveWriter.close
    pure report
  pure { report with writtenArchives := report.writtenArchives ++ [shard.outputPath] }

/-- Execute a plan: one writer after the other, and a copy of each record. -/
def executeArchiveRotation (flushed : Bytes → Bytes) (plan : RotationPlan)
    (options : RotationExecutionOptions := {}) :
    Action (Disk Path κ) Error RotationExecutionReport := do
  rejectIf (validateRotationPlan plan ≠ [])
    (Error.mk .invalidArgument "rotation plan failed validation")
  plan.shards.foldlM (executeShard flushed options) { plan }

end Execution

end Aethon.Storage
