import Mathlib.Data.UInt
import Aethon.Foundation.Grouping
import Aethon.Storage.RecordLoop

/-!
# Archive manifests

`build_archive_manifest` reads an archive to its end and summarises it by device and by packet kind,
after `storage/manifest.cpp`.
-/

namespace Aethon.Storage

open Protocol Grouping

/-- How many packets of one kind an archive holds. -/
structure PacketKindCount where
  kind : PacketKind := .heartbeat
  count : UInt64 := 0
  deriving DecidableEq, Repr

/-- What an archive holds of one device. -/
structure DeviceArchiveSummary where
  device : DeviceId := 0
  recordCount : UInt64 := 0
  firstTimeNs : UInt64 := 0
  lastTimeNs : UInt64 := 0
  totalPayloadBytes : UInt64 := 0
  deriving DecidableEq, Repr

/-- What an archive holds, by device and by kind, and what looks wrong in it. -/
structure ArchiveManifest where
  summary : ArchiveSummary := {}
  devices : List DeviceArchiveSummary := []
  packetKinds : List PacketKindCount := []
  warnings : List String := []
  deriving DecidableEq, Repr

/-- The payload size of a record. -/
def ArchiveRecord.payloadSize (record : ArchiveRecord) : UInt64 :=
  UInt64.ofNat record.packet.payload.length

/-- Count a record at its device. -/
def updateDevice (summary : DeviceArchiveSummary) (record : ArchiveRecord) :
    DeviceArchiveSummary :=
  let summary :=
    if summary.recordCount = 0 then
      { summary with
        firstTimeNs := record.captureTimeNs
        lastTimeNs := record.captureTimeNs }
    else
      { summary with
        firstTimeNs := min summary.firstTimeNs record.captureTimeNs
        lastTimeNs := max summary.lastTimeNs record.captureTimeNs }
  { summary with
    recordCount := summary.recordCount + 1
    totalPayloadBytes := summary.totalPayloadBytes + record.payloadSize }

/-- `find_device` and the update of what it finds. -/
def byDevice : Summary ArchiveRecord DeviceArchiveSummary DeviceId where
  key record := record.packet.device
  groupKey := DeviceArchiveSummary.device
  fresh device := { device }
  update := updateDevice
  groupKey_fresh _ := rfl
  groupKey_update summary record := by
    unfold updateDevice
    split <;> rfl

/-- `find_kind_count` and the increment of what it finds. -/
def byKind : Summary ArchiveRecord PacketKindCount PacketKind where
  key record := record.packet.kind
  groupKey := PacketKindCount.kind
  fresh kind := { kind }
  update count _ := { count with count := count.count + 1 }
  groupKey_fresh _ := rfl
  groupKey_update _ _ := rfl

/-- The records of all devices. -/
def sumDeviceRecords (devices : List DeviceArchiveSummary) : UInt64 :=
  (devices.map DeviceArchiveSummary.recordCount).sum

/-- The records of all kinds. -/
def sumKindRecords (counts : List PacketKindCount) : UInt64 :=
  (counts.map PacketKindCount.count).sum

/-- The order of the device summaries: the busiest first, then by device. -/
def busierDevice (left right : DeviceArchiveSummary) : Bool :=
  if left.recordCount ≠ right.recordCount then left.recordCount > right.recordCount
  else left.device ≤ right.device

/-- The order of the kinds: more packets first, then the smaller number. -/
def commonerKind (left right : PacketKindCount) : Bool :=
  if left.count ≠ right.count then left.count > right.count
  else left.kind.raw ≤ right.kind.raw

/-- Sort the devices and the kinds of a manifest. -/
def sortManifest (manifest : ArchiveManifest) : ArchiveManifest :=
  { manifest with
    devices := manifest.devices.mergeSort busierDevice
    packetKinds := manifest.packetKinds.mergeSort commonerKind }

/-- `if (c) warnings.push_back(message)`. -/
def warnIf (c : Prop) [Decidable c] (message : String) : List String :=
  if c then [message] else []

/-- The warnings about a manifest whose totals do not agree. -/
def validateArchiveManifest (manifest : ArchiveManifest) : List String :=
  let deviceTotal := sumDeviceRecords manifest.devices
  let kindTotal := sumKindRecords manifest.packetKinds
  warnIf (deviceTotal ≠ kindTotal) "device and packet-kind aggregates disagree"
    ++ warnIf (manifest.summary.recordCount ≠ 0 ∧ deviceTotal ≠ manifest.summary.recordCount)
      "aggregate record count differs from archive summary"
    ++ warnIf (manifest.summary.recordCount = 0
        ∧ (manifest.devices ≠ [] ∨ manifest.packetKinds ≠ []))
      "empty archive summary has non-empty aggregates"
    ++ manifest.devices.flatMap fun device =>
      warnIf (device.recordCount = 0) "device aggregate has zero records"
        ++ warnIf (device.firstTimeNs > device.lastTimeNs)
          "device aggregate has inverted time range"

/-- The variables of the loop of `build_archive_manifest`. -/
structure ManifestScan where
  observedCount : UInt64 := 0
  firstObserved : UInt64 := 0
  lastObserved : UInt64 := 0
  previousTime : UInt64 := 0
  manifest : ArchiveManifest := {}

/-- The body of the loop. -/
def ManifestScan.observe (scan : ManifestScan) (record : ArchiveRecord) : ManifestScan where
  observedCount := scan.observedCount + 1
  firstObserved :=
    if scan.observedCount = 0 then record.captureTimeNs
    else min scan.firstObserved record.captureTimeNs
  lastObserved :=
    if scan.observedCount = 0 then record.captureTimeNs
    else max scan.lastObserved record.captureTimeNs
  previousTime := record.captureTimeNs
  manifest :=
    { scan.manifest with
      warnings := scan.manifest.warnings
        ++ warnIf (scan.observedCount ≠ 0 ∧ record.captureTimeNs < scan.previousTime)
          "archive records are not ordered by capture time"
      devices := byDevice.add record scan.manifest.devices
      packetKinds := byKind.add record scan.manifest.packetKinds }

/-- The manifest of the records that were read behind a header. -/
def manifestOf (header : ArchiveSummary) (records : List ArchiveRecord) : ArchiveManifest :=
  let scan := records.foldl ManifestScan.observe
    { manifest := { summary := { formatVersion := header.formatVersion } } }
  let observed : ArchiveSummary :=
    { formatVersion := header.formatVersion, recordCount := scan.observedCount,
      firstTimeNs := scan.firstObserved, lastTimeNs := scan.lastObserved }
  let manifest := { scan.manifest with
    summary := observed
    warnings := scan.manifest.warnings
      ++ warnIf (scan.observedCount ≠ header.recordCount)
        "archive header record count differs from readable records"
      ++ warnIf (scan.observedCount ≠ 0 ∧ header.firstTimeNs ≠ scan.firstObserved)
        "archive header first timestamp differs from readable records"
      ++ warnIf (scan.observedCount ≠ 0 ∧ header.lastTimeNs ≠ scan.lastObserved)
        "archive header last timestamp differs from readable records" }
  let manifest := sortManifest manifest
  { manifest with warnings := manifest.warnings ++ validateArchiveManifest manifest }

/-- Read an archive and count its records. -/
def buildArchiveManifest (file : Option Bytes) : Except Error ArchiveManifest := do
  let (header, records) ← readArchive file
  pure (manifestOf header records)

end Aethon.Storage
