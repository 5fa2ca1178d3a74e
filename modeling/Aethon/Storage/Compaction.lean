import Aethon.Foundation.OrderedMap
import Aethon.Storage.ArchiveFiles
import Aethon.Storage.Query

/-!
# Compaction

A compaction copies an archive without the records that its query refuses, that have no payload or
that are superseded, after `storage/compaction.cpp`. What supersedes a record is settled in a first
pass over the file.
-/

namespace Aethon.Storage

open Actions FileSystem Codec Protocol

/-- What a compaction leaves out. -/
structure CompactionOptions where
  query : ArchiveQuery := {}
  dropEmptyPayloads : Bool := false
  keepLatestPerDevice : Bool := false
  deriving DecidableEq, Repr

/-- How many records a compaction read, wrote and dropped. -/
structure CompactionStats where
  recordsRead : UInt64 := 0
  recordsWritten : UInt64 := 0
  recordsDroppedByQuery : UInt64 := 0
  recordsDroppedEmpty : UInt64 := 0
  recordsDroppedSuperseded : UInt64 := 0
  deriving DecidableEq, Repr

/-! ## The latest sequence of each device -/

/-- The entry of a device is made with the sequence zero when it is first looked up. -/
def noteSequence (latest : Std.ExtTreeMap DeviceId UInt32) (record : ArchiveRecord) :
    Std.ExtTreeMap DeviceId UInt32 :=
  let current := latest[record.packet.device]?.getD 0
  latest.insert record.packet.device
    (if record.packet.sequence > current then record.packet.sequence else current)

/-- The largest sequence of every device in an archive. -/
def latestSequences (file : Option Bytes) : Except Error (Std.ExtTreeMap DeviceId UInt32) := do
  let reader ← ArchiveReader.ofFile file
  let (records, ending) := reader.drain
  endLoop ending
  pure (records.foldl noteSequence ∅)

/-- A record with a sequence smaller than the largest of its device. -/
def isSuperseded (record : ArchiveRecord) (latest : Std.ExtTreeMap DeviceId UInt32) : Bool :=
  match latest[record.packet.device]? with
  | none => false
  | some sequence => record.packet.sequence < sequence

/-! ## The copy -/

/-- One round of the loop of `compact_archive`. -/
def compactRecord (options : CompactionOptions) (latest : Std.ExtTreeMap DeviceId UInt32)
    (stats : CompactionStats) (record : ArchiveRecord) :
    Action ArchiveWriter Error CompactionStats :=
  let stats := { stats with recordsRead := stats.recordsRead + 1 }
  if !(matchesQuery record options.query).1 then
    pure { stats with recordsDroppedByQuery := stats.recordsDroppedByQuery + 1 }
  else if options.dropEmptyPayloads && record.packet.payload.isEmpty then
    pure { stats with recordsDroppedEmpty := stats.recordsDroppedEmpty + 1 }
  else if options.keepLatestPerDevice && isSuperseded record latest then
    pure { stats with recordsDroppedSuperseded := stats.recordsDroppedSuperseded + 1 }
  else do
    ArchiveWriter.append record.captureTimeNs record.packet
    pure { stats with recordsWritten := stats.recordsWritten + 1 }

variable {κ : Type} [DecidableEq κ]

/-- The reader has its file open when the writer truncates the destination. Where that is the same
file, the buffers of the streams decide what is still read: `overwritten` stands for it. -/
def compactArchive (overwritten : ArchiveReader → List ArchiveRecord × Option Error)
    (source destination : Path) (options : CompactionOptions) :
    Action (Disk Path κ) Error CompactionStats := do
  let disk ← get
  let latest ← liftM (if options.keepLatestPerDevice then latestSequences (disk.read source)
    else pure ∅)
  let reader ← liftM (ArchiveReader.ofFile (disk.read source))
  let (records, ending) :=
    if disk.locate destination = disk.locate source then overwritten reader else reader.drain
  withWriter destination fun _ => do
    let stats ← records.foldlM (compactRecord options latest) {}
    liftM (endLoop ending)
    ArchiveWriter.close
    pure stats

end Aethon.Storage
