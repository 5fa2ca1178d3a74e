import Aethon.Storage.ArchiveAudit
import Aethon.Storage.ArchiveFiles
import Aethon.Storage.Repair

/-!
# Repair plans

`plan_archive_repair` looks at the audit of an archive and at a salvage scan of its file, and
`execute_archive_repair_plan` carries out what was planned, after `storage/archive_repair_plan.cpp`.
-/

namespace Aethon.Storage

open Actions FileSystem Codec Protocol Parsing

/-- What an action of a repair does. -/
inductive RepairActionKind where
  | noOp
  | rewriteFromReadableRecords
  | rebuildFromSalvage
  | quarantineFile
  | verifyAfterWrite
  deriving DecidableEq, Repr

/-- Which repairs are allowed, and where they put their outputs. -/
structure RepairPlannerOptions where
  allowSalvageScan : Bool := true
  quarantineUnreadable : Bool := true
  rewriteWhenHeaderMismatch : Bool := true
  rewriteWhenUnordered : Bool := false
  outputDirectory : Path := ⟨""⟩
  repairedSuffix : String := ".repaired.ath"
  quarantineSuffix : String := ".quarantine"
  deriving DecidableEq, Repr

/-- One action of a repair. -/
structure RepairAction where
  kind : RepairActionKind := .noOp
  sourcePath : Path
  outputPath : Path
  reason : String
  expectedRecords : UInt64 := 0
  deriving DecidableEq, Repr

/-- What is to be done with an archive, and what is known of it. -/
structure ArchiveRepairPlan where
  sourcePath : Path
  audit : ArchiveAuditReport
  salvage : RepairReport := {}
  actions : List RepairAction := []
  readableRecords : UInt64 := 0
  salvagedRecords : UInt64 := 0
  usesSalvage : Bool := false

/-- What the execution of a plan did. -/
structure RepairExecutionReport where
  plan : ArchiveRepairPlan
  outputs : List Path := []
  warnings : List String := []
  actionsExecuted : UInt64 := 0
  recordsWritten : UInt64 := 0

/-! ## Planning -/

/-- The path of an output: the stem of the source with a suffix, in the directory of the options. -/
def outputFor (source : Path) (options : RepairPlannerOptions) (suffix : String) : Path :=
  let directory :=
    if options.outputDirectory.empty then source.parentPath else options.outputDirectory
  directory.append ⟨source.filename.string ++ suffix⟩

/-- The audit has a finding of this check. -/
def hasCheck (audit : ArchiveAuditReport) (check : AuditCheck) : Bool :=
  audit.findings.any fun finding => finding.check = check

/-- The audit has an error. -/
def hasError (audit : ArchiveAuditReport) : Bool :=
  audit.findings.any fun finding => finding.severity = .error

/-- The salvage scan of the plan, where the options and the audit call for one. -/
def salvageFor (file : Option Bytes) (audit : ArchiveAuditReport)
    (options : RepairPlannerOptions) : Except Error RepairReport :=
  if options.allowSalvageScan ∧ (¬ audit.readable ∨ hasError audit) then scanFile {} file
  else .ok {}

section Planning

variable {κ : Type}

/-- Audit an archive, and choose the actions that repair it. -/
def planArchiveRepair (disk : Disk Path κ) (path : Path) (options : RepairPlannerOptions := {}) :
    Except Error ArchiveRepairPlan := do
  let audit := auditArchiveIntegrity (disk.read path) path
  let salvage ← salvageFor (disk.read path) audit options
  let plan : ArchiveRepairPlan :=
    { sourcePath := path, audit, salvage, readableRecords := audit.recordsScanned
      salvagedRecords := UInt64.ofNat salvage.packets.length }
  let nothing (reason : String) : RepairAction :=
    { kind := .noOp, sourcePath := path, outputPath := ⟨""⟩, reason
      expectedRecords := plan.readableRecords }
  if auditReportOk audit then
    pure { plan with actions := [nothing "archive passed integrity audit"] }
  else
    let repairedOutput := outputFor path options options.repairedSuffix
    if plan.salvagedRecords > plan.readableRecords then
      pure { plan with
        usesSalvage := true
        actions := [
          { kind := .rebuildFromSalvage, sourcePath := path, outputPath := repairedOutput
            reason := "salvage scan found more packets than readable archive scan"
            expectedRecords := plan.salvagedRecords },
          { kind := .verifyAfterWrite, sourcePath := repairedOutput, outputPath := repairedOutput
            reason := "verify rebuilt archive", expectedRecords := plan.salvagedRecords }] }
    else
      let mismatch := options.rewriteWhenHeaderMismatch ∧ hasCheck audit .headerMatchesRecords
      let unordered := options.rewriteWhenUnordered ∧ hasCheck audit .orderedTimestamps
      let reason :=
        if unordered then "rewrite archive after timestamp ordering finding"
        else "rewrite archive to refresh inconsistent header"
      if (mismatch ∨ unordered) ∧ audit.readable then
        pure { plan with actions := [
          { kind := .rewriteFromReadableRecords, sourcePath := path, outputPath := repairedOutput
            reason, expectedRecords := plan.readableRecords },
          { kind := .verifyAfterWrite, sourcePath := repairedOutput, outputPath := repairedOutput
            reason := "verify rewritten archive", expectedRecords := plan.readableRecords }] }
      else if options.quarantineUnreadable then
        pure { plan with actions := [
          { kind := .quarantineFile, sourcePath := path
            outputPath := outputFor path options options.quarantineSuffix
            reason := "archive could not be safely repaired", expectedRecords := 0 }] }
      else
        pure { plan with actions := [nothing "repair planner found no enabled remediation"] }

/-- A plan for each archive, in the order of the paths. -/
def planArchiveRepairs (disk : Disk Path κ) (paths : List Path)
    (options : RepairPlannerOptions := {}) : Except Error (List ArchiveRepairPlan) :=
  paths.mapM fun path => planArchiveRepair disk path options

end Planning

/-- The warnings about a plan that cannot be executed as it stands. -/
def validateArchiveRepairPlan (plan : ArchiveRepairPlan) : List String :=
  warnIf plan.sourcePath.empty "repair plan has empty source path"
    ++ warnIf (plan.actions = []) "repair plan has no actions"
    ++ plan.actions.flatMap fun action =>
      warnIf (action.kind ≠ .noOp ∧ action.outputPath.empty)
          "repair action requires an output path"
        ++ warnIf (action.kind = .rebuildFromSalvage ∧ plan.salvage.packets = [])
          "salvage rebuild action has no salvaged packets"
        ++ warnIf (action.kind = .rewriteFromReadableRecords ∧ ¬ plan.audit.readable)
          "readable rewrite action cannot run on unreadable archive"

/-! ## Execution -/

/-- What may leave an execution: an exception of the library, or one of the file system. -/
inductive ExecutionFailure where
  | error (failure : Error)
  | filesystem
  deriving DecidableEq, Repr

section Execution

variable {κ : Type} [DecidableEq κ]

/-- No file is at the output when the writer opens it, so the writer never changes what the reader
has in front of it: the records it yields are those of the file as it was opened. -/
def copyReadableRecords (source output : Path) : Action (Disk Path κ) Error UInt64 := do
  let reader ← liftM (ArchiveReader.ofFile ((← get).read source))
  let (records, ending) := reader.drain
  withWriter output fun _ => do
    forM records fun record => ArchiveWriter.append record.captureTimeNs record.packet
    liftM (endLoop ending)
    ArchiveWriter.close
  pure (UInt64.ofNat records.length)

/-- Write the packets of a salvage into a new archive. -/
def writeRepairedArchive (output : Path) (report : RepairReport) :
    Action (Disk Path κ) Error Unit :=
  withWriter output fun _ => writeEntries (report.packets.map SalvagedPacket.entry)

/-- Refuse an output that is a file already, unless it may be replaced. -/
def ensureCanWrite (path : Path) (overwrite : Bool) : Action (Disk Path κ) Error Unit := do
  if (← get).isFile path then
    rejectIf (overwrite = false) (Error.mk .invalidArgument "repair output already exists")
    modify fun disk => disk.remove path
  else pure ()

/-- `std::filesystem::rename`. -/
def renameFile (source target : Path) : Action (Disk Path κ) ExecutionFailure Unit := do
  rejectIf ((← get).isFile source = false) ExecutionFailure.filesystem
  modify fun disk => disk.rename source target

/-- One action of a plan: what it adds to the report. -/
def executeAction (overwriteOutputs : Bool) (report : RepairExecutionReport)
    (action : RepairAction) : Action (Disk Path κ) ExecutionFailure RepairExecutionReport := do
  let report ← match action.kind with
    | .noOp => pure report
    | .rewriteFromReadableRecords => do
        rethrow .error (ensureCanWrite action.outputPath overwriteOutputs)
        let written ← rethrow .error (copyReadableRecords action.sourcePath action.outputPath)
        pure { report with
          recordsWritten := report.recordsWritten + written
          outputs := report.outputs ++ [action.outputPath] }
    | .rebuildFromSalvage => do
        rethrow .error (ensureCanWrite action.outputPath overwriteOutputs)
        rethrow .error (writeRepairedArchive action.outputPath report.plan.salvage)
        pure { report with
          recordsWritten :=
            report.recordsWritten + UInt64.ofNat report.plan.salvage.packets.length
          outputs := report.outputs ++ [action.outputPath] }
    | .quarantineFile => do
        rethrow .error (ensureCanWrite action.outputPath overwriteOutputs)
        renameFile action.sourcePath action.outputPath
        pure { report with outputs := report.outputs ++ [action.outputPath] }
    | .verifyAfterWrite => do
        let audit := auditArchiveIntegrity ((← get).read action.outputPath) action.outputPath
        pure { report with
          warnings := report.warnings ++ warnIf (auditReportOk audit = false)
            ("verification audit reported findings for " ++ action.outputPath.string) }
  pure { report with actionsExecuted := report.actionsExecuted + 1 }

/-- Execute the actions of a plan, one behind the other. -/
def executeArchiveRepairPlan (plan : ArchiveRepairPlan) (overwriteOutputs : Bool := false) :
    Action (Disk Path κ) ExecutionFailure RepairExecutionReport := do
  rejectIf (validateArchiveRepairPlan plan ≠ [])
    (ExecutionFailure.error ⟨.invalidArgument, "archive repair plan failed validation"⟩)
  plan.actions.foldlM (executeAction overwriteOutputs) { plan }

end Execution

end Aethon.Storage
