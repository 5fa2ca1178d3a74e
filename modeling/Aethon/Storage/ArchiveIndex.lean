import Aethon.Foundation.BinarySearch
import Aethon.Storage.Manifest

/-!
# Archive indexes

`build_archive_index` lists where the records of an archive stand, in the order of their capture
times, and `find_record_at_or_after` searches the list by halves, after `storage/archive.cpp`.
-/

namespace Aethon.Storage

open Codec Protocol

/-- A line of the index: a record without its payload. -/
structure ArchiveIndexEntry where
  captureTimeNs : UInt64 := 0
  offset : UInt64 := 0
  payloadSize : UInt64 := 0
  device : DeviceId := 0
  sequence : UInt32 := 0
  deriving DecidableEq, Repr

/-- The index of an archive, by time. -/
structure ArchiveIndex where
  summary : ArchiveSummary := {}
  records : List ArchiveIndexEntry := []
  deriving DecidableEq, Repr

/-- The line of the index for a record. -/
def ArchiveRecord.indexEntry (record : ArchiveRecord) : ArchiveIndexEntry where
  captureTimeNs := record.captureTimeNs
  offset := record.offset
  payloadSize := record.payloadSize
  device := record.packet.device
  sequence := record.packet.sequence

/-- The order of the sort: by capture time, then by offset. -/
def ArchiveIndexEntry.less (left right : ArchiveIndexEntry) : Bool :=
  if left.captureTimeNs ≠ right.captureTimeNs then left.captureTimeNs < right.captureTimeNs
  else left.offset < right.offset

/-- Read an archive and index its records. -/
def buildArchiveIndex (file : Option Bytes) : Except Error ArchiveIndex := do
  let (header, records) ← readArchive file
  let entries := (records.map ArchiveRecord.indexEntry).mergeSort fun left right => !right.less left
  pure {
    summary := {
      formatVersion := header.formatVersion
      recordCount := UInt64.ofNat entries.length
      firstTimeNs := (entries.head?.map ArchiveIndexEntry.captureTimeNs).getD 0
      lastTimeNs := (entries.getLast?.map ArchiveIndexEntry.captureTimeNs).getD 0 }
    records := entries }

/-- The first line of the index at a time or later. -/
def findRecordAtOrAfter (index : ArchiveIndex) (captureTimeNs : UInt64) :
    Option ArchiveIndexEntry :=
  -- the lower bound at the end of the list is no entry
  index.records[BinarySearch.lowerBound
    (fun entry => decide (entry.captureTimeNs < captureTimeNs)) index.records]?

/-- An index lists the records of the archive. -/
theorem build_archive_index_perm {file : Option Bytes} {header : ArchiveSummary}
    {records : List ArchiveRecord} (h : readArchive file = .ok (header, records)) :
    ∃ index, buildArchiveIndex file = .ok index ∧
      index.records.Perm (records.map ArchiveRecord.indexEntry) := by
  have hbuild : ∃ index, buildArchiveIndex file = .ok index ∧ index.records =
      (records.map ArchiveRecord.indexEntry).mergeSort fun left right => !right.less left := by
    rw [buildArchiveIndex, h]
    exact ⟨_, rfl, rfl⟩
  obtain ⟨index, hindex, hrecords⟩ := hbuild
  exact ⟨index, hindex, hrecords ▸ List.mergeSort_perm _ _⟩

end Aethon.Storage
