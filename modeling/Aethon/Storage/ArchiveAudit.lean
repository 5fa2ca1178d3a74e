import Std.Data.ExtTreeMap
import Aethon.Common.Path
import Aethon.Storage.Manifest

/-!
# Archive audits

`audit_archive_integrity` reads an archive record by record and collects findings, after
`storage/archive_audit.cpp`. An exception on the way is a finding of its own, and the records read
before it stay counted.
-/

namespace Aethon.Storage

open Protocol

/-- How bad a finding is. -/
inductive AuditSeverity where
  | info
  | warning
  | error
  deriving DecidableEq, Repr

/-- What an audit looks at. -/
inductive AuditCheck where
  | readable
  | headerMatchesRecords
  | orderedTimestamps
  | monotonicDeviceSequences
  | payloadBounds
  | duplicateOffsets
  | manifestConsistency
  | sparseDevices
  deriving DecidableEq, Repr

/-- Which checks an audit makes, and their bounds. -/
structure AuditOptions where
  requireTimeOrder : Bool := true
  requireDeviceSequenceMonotonicity : Bool := false
  minPayloadSize : UInt64 := 0
  maxPayloadSize : UInt64 := 0
  sparseDeviceRecordThreshold : UInt64 := 0
  sparseDevicePayloadThreshold : UInt64 := 0
  deriving DecidableEq, Repr

/-- A finding of an audit, and the record it is about. -/
structure AuditFinding where
  severity : AuditSeverity := .info
  check : AuditCheck := .readable
  path : Path
  offset : UInt64 := 0
  captureTimeNs : UInt64 := 0
  device : DeviceId := 0
  sequence : UInt32 := 0
  message : String
  deriving DecidableEq, Repr

/-- What an audit counted, and what it found. -/
structure ArchiveAuditReport where
  path : Path
  manifest : ArchiveManifest := {}
  findings : List AuditFinding := []
  recordsScanned : UInt64 := 0
  bytesEstimated : UInt64 := 0
  minPayloadSize : UInt64 := 0
  maxPayloadSize : UInt64 := 0
  firstOffset : UInt64 := 0
  lastOffset : UInt64 := 0
  readable : Bool := true
  deriving DecidableEq, Repr

/-- A finding about the whole archive. -/
def makeFinding (severity : AuditSeverity) (check : AuditCheck) (path : Path)
    (message : String) : AuditFinding where
  severity
  check
  path
  message

/-- A finding about one record. -/
def makeRecordFinding (severity : AuditSeverity) (check : AuditCheck) (path : Path)
    (record : ArchiveRecord) (message : String) : AuditFinding where
  severity
  check
  path
  message
  offset := record.offset
  captureTimeNs := record.captureTimeNs
  device := record.packet.device
  sequence := record.packet.sequence

/-- `estimate_archive_record_bytes`, for a record. -/
def ArchiveRecord.estimatedBytes (record : ArchiveRecord) : UInt64 :=
  16 + record.payloadSize

namespace ArchiveAuditReport

/-- `if (c) report.findings.push_back(finding)`. -/
def findIf (report : ArchiveAuditReport) (c : Prop) [Decidable c] (finding : AuditFinding) :
    ArchiveAuditReport :=
  if c then { report with findings := report.findings ++ [finding] } else report

/-- The findings about the header, which should say what the records say. -/
def addHeaderFindings (report : ArchiveAuditReport) (header : ArchiveSummary) :
    ArchiveAuditReport :=
  let observed := report.manifest.summary
  let report := report.findIf (header.recordCount ≠ observed.recordCount)
    (makeFinding .error .headerMatchesRecords report.path
      "archive header record count differs from readable records")
  let report := report.findIf
    (observed.recordCount ≠ 0 ∧ header.firstTimeNs ≠ observed.firstTimeNs)
    (makeFinding .warning .headerMatchesRecords report.path
      "archive header first timestamp differs from observed first timestamp")
  report.findIf (observed.recordCount ≠ 0 ∧ header.lastTimeNs ≠ observed.lastTimeNs)
    (makeFinding .warning .headerMatchesRecords report.path
      "archive header last timestamp differs from observed last timestamp")

/-- A warning for every warning of the manifest. -/
def addManifestFindings (report : ArchiveAuditReport) : ArchiveAuditReport :=
  { report with
    findings := report.findings ++
      report.manifest.warnings.map (makeFinding .warning .manifestConsistency report.path) }

/-- The findings about the size of a payload, outside the bounds of the options. -/
def checkPayloadBounds (report : ArchiveAuditReport) (record : ArchiveRecord)
    (options : AuditOptions) : ArchiveAuditReport :=
  let payloadSize := record.payloadSize
  let report :=
    if report.recordsScanned = 0 then
      { report with minPayloadSize := payloadSize, maxPayloadSize := payloadSize }
    else
      { report with
        minPayloadSize := min report.minPayloadSize payloadSize
        maxPayloadSize := max report.maxPayloadSize payloadSize }
  let report := report.findIf (options.minPayloadSize ≠ 0 ∧ payloadSize < options.minPayloadSize)
    (makeRecordFinding .warning .payloadBounds report.path record
      "record payload is below configured minimum")
  report.findIf (options.maxPayloadSize ≠ 0 ∧ payloadSize > options.maxPayloadSize)
    (makeRecordFinding .error .payloadBounds report.path record
      "record payload exceeds configured maximum")

/-- There is no previous time in front of the first record. -/
def checkTimeOrder (report : ArchiveAuditReport) (record : ArchiveRecord)
    (previousTime : Option UInt64) : ArchiveAuditReport :=
  report.findIf (∃ previous ∈ previousTime, record.captureTimeNs < previous)
    (makeRecordFinding .error .orderedTimestamps report.path record
      "record capture timestamp moved backwards")

/-- The findings about the devices with few records or few bytes. -/
def addSparseDeviceFindings (report : ArchiveAuditReport) (options : AuditOptions) :
    ArchiveAuditReport :=
  if options.sparseDeviceRecordThreshold = 0 ∧ options.sparseDevicePayloadThreshold = 0 then report
  else report.manifest.devices.foldl
    (fun report device =>
      let sparseByRecords := options.sparseDeviceRecordThreshold ≠ 0
        ∧ device.recordCount < options.sparseDeviceRecordThreshold
      let sparseByPayload := options.sparseDevicePayloadThreshold ≠ 0
        ∧ device.totalPayloadBytes < options.sparseDevicePayloadThreshold
      report.findIf (sparseByRecords ∨ sparseByPayload)
        { makeFinding .info .sparseDevices report.path "device has sparse archive coverage" with
          device := device.device
          captureTimeNs := device.lastTimeNs })
    report

/-- The `catch` block. -/
def unreadable (report : ArchiveAuditReport) (failure : Error) : ArchiveAuditReport :=
  { report with
    readable := false
    findings := report.findings ++ [makeFinding .error .readable report.path failure.message] }

end ArchiveAuditReport

/-- The report with the other variables of the loop over the records. -/
structure AuditScan where
  report : ArchiveAuditReport
  previousTime : Option UInt64 := none
  lastSequence : Std.ExtTreeMap DeviceId UInt32 := ∅
  offsets : List UInt64 := []

namespace AuditScan

/-- A second record with the same offset is an error. -/
def checkDuplicateOffset (scan : AuditScan) (record : ArchiveRecord) : AuditScan :=
  if record.offset ∈ scan.offsets then
    { scan with
      report.findings := scan.report.findings ++
        [makeRecordFinding .error .duplicateOffsets scan.report.path record
          "archive reader returned the same record offset twice"] }
  else { scan with offsets := record.offset :: scan.offsets }

/-- A sequence that does not grow at its device is a finding. -/
def checkDeviceSequence (scan : AuditScan) (record : ArchiveRecord) : AuditScan :=
  let last := scan.lastSequence[record.packet.device]?
  { scan with
    report := scan.report.findIf (∃ sequence ∈ last, record.packet.sequence < sequence)
      (makeRecordFinding .warning .monotonicDeviceSequences scan.report.path record
        "device sequence moved backwards")
    lastSequence := scan.lastSequence.insert record.packet.device
      (max (last.getD 0) record.packet.sequence) }

/-- The body of the loop. -/
def observe (options : AuditOptions) (scan : AuditScan) (record : ArchiveRecord) : AuditScan :=
  let scan := scan.checkDuplicateOffset record
  let scan :=
    if options.requireTimeOrder then
      { scan with report := scan.report.checkTimeOrder record scan.previousTime }
    else scan
  let scan :=
    if options.requireDeviceSequenceMonotonicity then scan.checkDeviceSequence record else scan
  let report := scan.report.checkPayloadBounds record options
  { scan with
    previousTime := some record.captureTimeNs
    report := { report with
      firstOffset := if report.recordsScanned = 0 then record.offset else report.firstOffset
      lastOffset := record.offset
      bytesEstimated := report.bytesEstimated + record.estimatedBytes
      recordsScanned := report.recordsScanned + 1 } }

end AuditScan

/-- The audit of the file that a path leads to. -/
def auditArchiveIntegrity (file : Option Bytes) (path : Path) (options : AuditOptions := {}) :
    ArchiveAuditReport :=
  match ArchiveReader.ofFile file with
  | .error failure => ({ path } : ArchiveAuditReport).unreadable failure
  | .ok reader =>
      let (records, ending) := reader.drain
      let report := (records.foldl (AuditScan.observe options) { report := { path } }).report
      match ending with
      | some failure => report.unreadable failure
      | none =>
          match buildArchiveManifest file with
          | .error failure => report.unreadable failure
          | .ok manifest =>
              let report := { report with manifest }
              let report := (report.addHeaderFindings reader.summary).addManifestFindings
              report.addSparseDeviceFindings options

/-- A report is good when the archive was read and no finding is an error. -/
def auditReportOk (report : ArchiveAuditReport) : Bool :=
  report.readable && report.findings.all fun finding => finding.severity ≠ .error

end Aethon.Storage
