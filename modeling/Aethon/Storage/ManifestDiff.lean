import Aethon.Common.Text
import Aethon.Foundation.TableDiff
import Aethon.Storage.Retention
import Mathlib.Data.Char
import Mathlib.Data.Int.Order.Basic
import Mathlib.Data.List.Lex

/-!
# Differences of manifests

What changed from one manifest to another: the summary, the devices, the packet kinds and the
warnings, after `storage/manifest_diff.cpp`. Devices are compared by their rendered texts, kinds by
their counts and warnings as sets.
-/

namespace Aethon.Protocol

/-- `packet_kind_name`. -/
def PacketKind.name (kind : PacketKind) : Text :=
  if kind = .heartbeat then "heartbeat".toList
  else if kind = .observation then "observation".toList
  else if kind = .spectrum then "spectrum".toList
  else if kind = .control then "control".toList
  else if kind = .capabilities then "capabilities".toList
  else "unknown".toList

end Aethon.Protocol

namespace Aethon.Storage

open Protocol Text

/-! ## Entries -/

/-- How two manifests differ in an entry. -/
inductive ManifestDiffKind where
  | summaryChanged
  | deviceAdded
  | deviceRemoved
  | deviceChanged
  | kindAdded
  | kindRemoved
  | kindChanged
  | warningAdded
  | warningRemoved
  deriving DecidableEq, Repr

/-- One difference, with the words before and after. -/
structure ManifestDiffEntry where
  kind : ManifestDiffKind := .summaryChanged
  key : Text := []
  before : Text := []
  after : Text := []
  recordDelta : ℤ := 0
  payloadDelta : ℤ := 0
  deriving DecidableEq, Repr

/-- The differences of two manifests, and those of their totals. -/
structure ManifestDiff where
  before : ArchiveManifest := {}
  after : ArchiveManifest := {}
  entries : List ManifestDiffEntry := []
  recordDelta : ℤ := 0
  payloadDelta : ℤ := 0
  deviceDelta : ℤ := 0
  kindDelta : ℤ := 0
  deriving DecidableEq, Repr

/-- `static_cast<std::int64_t>`. -/
def signed (n : UInt64) : ℤ :=
  n.toInt64.toInt

/-- A summary in words. -/
def summaryString (summary : ArchiveSummary) : Text :=
  ["records=".toList, decimal summary.recordCount.toNat, " first=".toList,
    decimal summary.firstTimeNs.toNat, " last=".toList, decimal summary.lastTimeNs.toNat,
    " version=".toList, decimal summary.formatVersion.toNat].flatten

/-- The summary of a device in words. -/
def deviceString (device : DeviceArchiveSummary) : Text :=
  ["device=".toList, decimal device.device.toNat, " records=".toList,
    decimal device.recordCount.toNat, " first=".toList, decimal device.firstTimeNs.toNat,
    " last=".toList, decimal device.lastTimeNs.toNat, " payload_bytes=".toList,
    decimal device.totalPayloadBytes.toNat].flatten

/-- The count of a kind in words. -/
def kindString (kind : PacketKindCount) : Text :=
  ["kind=".toList, kind.kind.name, " records=".toList, decimal kind.count.toNat].flatten

/-! ## The differs -/

/-- The devices of a manifest by their ids. -/
def mapDevices (manifest : ArchiveManifest) : SortedTable DeviceId DeviceArchiveSummary :=
  SortedTable.ofValues DeviceArchiveSummary.device manifest.devices

/-- The kinds in the order of their numbers. -/
def mapKinds (manifest : ArchiveManifest) : SortedTable UInt8 PacketKindCount :=
  SortedTable.ofValues (fun count => count.kind.raw) manifest.packetKinds

/-- The difference of the summaries, if there is one. -/
def diffSummary (before after : ArchiveManifest) : List ManifestDiffEntry :=
  if before.summary.formatVersion = after.summary.formatVersion
      ∧ before.summary.recordCount = after.summary.recordCount
      ∧ before.summary.firstTimeNs = after.summary.firstTimeNs
      ∧ before.summary.lastTimeNs = after.summary.lastTimeNs then []
  else
    [{ kind := .summaryChanged
       key := "summary".toList
       before := summaryString before.summary
       after := summaryString after.summary
       recordDelta := signed after.summary.recordCount - signed before.summary.recordCount
       payloadDelta :=
        signed (manifestPayloadBytes after) - signed (manifestPayloadBytes before) }]

/-- A device that is new. -/
def deviceAdded (device : DeviceId) (after : DeviceArchiveSummary) : ManifestDiffEntry where
  kind := .deviceAdded
  key := decimal device.toNat
  after := deviceString after
  recordDelta := signed after.recordCount
  payloadDelta := signed after.totalPayloadBytes

/-- A device that is gone. -/
def deviceRemoved (device : DeviceId) (before : DeviceArchiveSummary) : ManifestDiffEntry where
  kind := .deviceRemoved
  key := decimal device.toNat
  before := deviceString before
  recordDelta := -signed before.recordCount
  payloadDelta := -signed before.totalPayloadBytes

/-- A device whose words have changed. -/
def deviceChanged (device : DeviceId) (before after : DeviceArchiveSummary) :
    Option ManifestDiffEntry :=
  if deviceString before ≠ deviceString after then
    some
      { kind := .deviceChanged
        key := decimal device.toNat
        before := deviceString before
        after := deviceString after
        recordDelta := signed after.recordCount - signed before.recordCount
        payloadDelta := signed after.totalPayloadBytes - signed before.totalPayloadBytes }
  else none

/-- The differences of the devices. -/
def diffDevices (before after : ArchiveManifest) : List ManifestDiffEntry :=
  (mapDevices before).diff deviceAdded deviceRemoved deviceChanged (mapDevices after)

/-- A kind that is new. -/
def kindAdded (kind : UInt8) (after : PacketKindCount) : ManifestDiffEntry where
  kind := .kindAdded
  key := (PacketKind.mk kind).name
  after := kindString after
  recordDelta := signed after.count

/-- A kind that is gone. -/
def kindRemoved (kind : UInt8) (before : PacketKindCount) : ManifestDiffEntry where
  kind := .kindRemoved
  key := (PacketKind.mk kind).name
  before := kindString before
  recordDelta := -signed before.count

/-- A kind whose count has changed. -/
def kindChanged (kind : UInt8) (before after : PacketKindCount) : Option ManifestDiffEntry :=
  if before.count ≠ after.count then
    some
      { kind := .kindChanged
        key := (PacketKind.mk kind).name
        before := kindString before
        after := kindString after
        recordDelta := signed after.count - signed before.count }
  else none

/-- The differences of the kinds. -/
def diffKinds (before after : ArchiveManifest) : List ManifestDiffEntry :=
  (mapKinds before).diff kindAdded kindRemoved kindChanged (mapKinds after)

/-- A warning that is gone. -/
def warningRemoved (warning : Text) : ManifestDiffEntry where
  kind := .warningRemoved
  key := warning
  before := warning

/-- A warning that is new. -/
def warningAdded (warning : Text) : ManifestDiffEntry where
  kind := .warningAdded
  key := warning
  after := warning

/-- The set of the warnings of a manifest. -/
def warningSet (manifest : ArchiveManifest) : SortedTable Text Unit :=
  SortedTable.setOf (manifest.warnings.map String.toList)

/-- The differences of the warnings. -/
def diffWarnings (before after : ArchiveManifest) : List ManifestDiffEntry :=
  ((warningSet before).keys.filter (· ∉ (warningSet after).keys)).map warningRemoved
    ++ ((warningSet after).keys.filter (· ∉ (warningSet before).keys)).map warningAdded

/-- Compare two manifests, part by part. -/
def diffArchiveManifests (before after : ArchiveManifest) : ManifestDiff where
  before
  after
  entries := diffSummary before after ++ diffDevices before after ++ diffKinds before after
    ++ diffWarnings before after
  recordDelta := signed after.summary.recordCount - signed before.summary.recordCount
  payloadDelta := signed (manifestPayloadBytes after) - signed (manifestPayloadBytes before)
  deviceDelta := signed (UInt64.ofNat after.devices.length)
    - signed (UInt64.ofNat before.devices.length)
  kindDelta := signed (UInt64.ofNat after.packetKinds.length)
    - signed (UInt64.ofNat before.packetKinds.length)

/-- There is no difference. -/
def manifestDiffEmpty (diff : ManifestDiff) : Bool :=
  diff.entries.isEmpty

/-! ## Texts -/

/-- `manifest_diff_kind_name`. -/
def ManifestDiffKind.name : ManifestDiffKind → Text
  | .summaryChanged => "summary_changed".toList
  | .deviceAdded => "device_added".toList
  | .deviceRemoved => "device_removed".toList
  | .deviceChanged => "device_changed".toList
  | .kindAdded => "kind_added".toList
  | .kindRemoved => "kind_removed".toList
  | .kindChanged => "kind_changed".toList
  | .warningAdded => "warning_added".toList
  | .warningRemoved => "warning_removed".toList

/-- A difference in words. -/
def renderManifestDiffEntry (entry : ManifestDiffEntry) : Text :=
  [entry.kind.name, " key=".toList, entry.key, " record_delta=".toList,
    signedDecimal entry.recordDelta, " payload_delta=".toList, signedDecimal entry.payloadDelta,
    " before=\"".toList, entry.before, "\" after=\"".toList, entry.after, "\"".toList].flatten

/-- All differences in words, behind the totals. -/
def renderManifestDiff (diff : ManifestDiff) : Text :=
  ["manifest_diff\n  record_delta: ".toList, signedDecimal diff.recordDelta,
    "\n  payload_delta: ".toList, signedDecimal diff.payloadDelta,
    "\n  device_delta: ".toList, signedDecimal diff.deviceDelta,
    "\n  kind_delta: ".toList, signedDecimal diff.kindDelta, "\n".toList].flatten ++
    diff.entries.flatMap fun entry =>
      "  entry: ".toList ++ renderManifestDiffEntry entry ++ ['\n']

end Aethon.Storage
