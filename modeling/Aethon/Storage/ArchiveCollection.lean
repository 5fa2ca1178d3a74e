import Aethon.Foundation.Limits
import Aethon.Foundation.OrderedMap
import Aethon.Foundation.StableSort
import Aethon.Storage.ArchiveIndex
import Aethon.Storage.ArchiveRecords
import Aethon.Storage.Query

/-!
# Archive collections

A collection lists the records of several archives by their capture times, for all devices and for
each device, after `storage/archive_collection.cpp`. It holds references: a search filters by them
and reads a record again where it is asked for. An ordinal counts the elements of a vector, so it
does not overflow.
-/

namespace Aethon.Storage

open FileSystem Limits Protocol StableSort

/-- An archive of a collection, with its manifest and its index. -/
structure ArchiveCollectionEntry where
  path : Path
  manifest : ArchiveManifest := {}
  index : ArchiveIndex := {}
  ordinal : Nat := 0
  deriving DecidableEq, Repr

/-- A record of a collection: the archive that it is in, and its line of the index. -/
structure ArchiveCollectionRecordRef where
  path : Path
  archiveOrdinal : Nat := 0
  offset : UInt64 := 0
  captureTimeNs : UInt64 := 0
  payloadSize : UInt64 := 0
  device : DeviceId := 0
  sequence : UInt32 := 0
  deriving DecidableEq, Repr

/-- Several archives as one, and their records by time and by device. -/
structure ArchiveCollection where
  archives : List ArchiveCollectionEntry := []
  records : List ArchiveCollectionRecordRef := []
  recordsByDevice : Std.ExtTreeMap DeviceId (List ArchiveCollectionRecordRef) := ∅
  summary : ArchiveSummary := {}

/-- What a search looks for, and how it answers. -/
structure CollectionSearchOptions where
  query : ArchiveQuery := {}
  sortByTime : Bool := true
  loadRecords : Bool := true
  deriving DecidableEq, Repr

/-- The records that a search found, with their references. -/
structure CollectionSearchResult where
  records : List ArchiveRecord := []
  refs : List ArchiveCollectionRecordRef := []
  stats : ArchiveQueryStats := {}
  deriving DecidableEq

/-! ## Building -/

/-- The reference for a line of the index of an archive. -/
def makeRef (entry : ArchiveCollectionEntry) (indexEntry : ArchiveIndexEntry) :
    ArchiveCollectionRecordRef where
  path := entry.path
  archiveOrdinal := entry.ordinal
  offset := indexEntry.offset
  captureTimeNs := indexEntry.captureTimeNs
  payloadSize := indexEntry.payloadSize
  device := indexEntry.device
  sequence := indexEntry.sequence

/-- Add a reference to the records, to those of its device and to the summary. -/
def addRecordRef (collection : ArchiveCollection) (ref : ArchiveCollectionRecordRef) :
    ArchiveCollection :=
  let summary := collection.summary
  let summary :=
    if summary.recordCount = 0 then
      { summary with firstTimeNs := ref.captureTimeNs, lastTimeNs := ref.captureTimeNs }
    else
      { summary with
        firstTimeNs := min summary.firstTimeNs ref.captureTimeNs
        lastTimeNs := max summary.lastTimeNs ref.captureTimeNs }
  { collection with
    records := collection.records ++ [ref]
    recordsByDevice := collection.recordsByDevice.insert ref.device
      (collection.recordsByDevice[ref.device]?.getD [] ++ [ref])
    summary := { summary with recordCount := summary.recordCount + 1 } }

/-- The comparison `by_time`: by capture time, then by archive, then by offset. -/
def byTime (left right : ArchiveCollectionRecordRef) : Bool :=
  if left.captureTimeNs ≠ right.captureTimeNs then left.captureTimeNs < right.captureTimeNs
  else if left.archiveOrdinal ≠ right.archiveOrdinal then
    left.archiveOrdinal < right.archiveOrdinal
  else left.offset < right.offset

/-- Sort the references by time, those of each device too. -/
def sortCollection (collection : ArchiveCollection) : ArchiveCollection :=
  { collection with
    records := stableSort byTime collection.records
    recordsByDevice := collection.recordsByDevice.map fun _ refs => stableSort byTime refs }

/-- The collection of archives that were read. -/
def collectionOf (entries : List ArchiveCollectionEntry) : ArchiveCollection :=
  sortCollection <| entries.foldl
    (fun collection archive => archive.index.records.foldl
      (fun collection record => addRecordRef collection (makeRef archive record)) collection)
    { archives := entries }

section Disks

variable {κ : Type}

/-- The loop body of `build_archive_collection`. -/
def buildEntry (disk : Disk Path κ) (path : Path) (ordinal : Nat) :
    Except Error ArchiveCollectionEntry := do
  let manifest ← buildArchiveManifest (disk.read path)
  let index ← buildArchiveIndex (disk.read path)
  pure { path, manifest, index, ordinal }

/-- Read the archives in the order of the paths, and collect their records. -/
def buildArchiveCollection (disk : Disk Path κ) (paths : List Path) :
    Except Error ArchiveCollection := do
  let entries ← paths.zipIdx.mapM fun place => buildEntry disk place.1 place.2
  pure (collectionOf entries)

/-! ## Filtering -/

/-- Whether a reference answers a query, and the count of what was looked at. -/
def refMatchesQuery (ref : ArchiveCollectionRecordRef) (query : ArchiveQuery)
    (stats : ArchiveQueryStats := {}) : Bool × ArchiveQueryStats :=
  let stats := { stats with scannedRecords := stats.scannedRecords + 1 }
  let (inTime, stats) := timeMatches ref.captureTimeNs query stats
  if !inTime then (false, stats)
  else if query.device.any (ref.device ≠ ·) then
    (false, { stats with skippedByDevice := stats.skippedByDevice + 1 })
  else
    let (inSize, stats) := payloadMatches ref.payloadSize query stats
    if !inSize then (false, stats)
    else (true, { stats with matchedRecords := stats.matchedRecords + 1 })

/-- The references that a query looks at, if its device has any. -/
def ArchiveCollection.source (collection : ArchiveCollection) (query : ArchiveQuery) :
    Option (List ArchiveCollectionRecordRef) :=
  match query.device with
  | none => some collection.records
  | some device => collection.recordsByDevice[device]?

/-- A reference has no packet kind to filter by. -/
def filterCollectionRefs (collection : ArchiveCollection) (query : ArchiveQuery) :
    List ArchiveCollectionRecordRef :=
  match collection.source query with
  | none => []
  | some refs => collect (fun ref => (refMatchesQuery ref query).1) query.limit.toNat refs []

/-! ## Searching -/

/-- The record at an offset of a file, if one is there. -/
def loadRecordAtOffset (file : Option Bytes) (offset : UInt64) :
    Except Error (Option ArchiveRecord) :=
  readRecordAt file offset

/-- The record of a reference, from the archive that it is in. -/
def loadCollectionRecord (disk : Disk Path κ) (ref : ArchiveCollectionRecordRef) :
    Except Error (Option ArchiveRecord) := do
  match ← loadRecordAtOffset (disk.read ref.path) ref.offset with
  | none => pure none
  | some record =>
      if record.captureTimeNs ≠ ref.captureTimeNs ∨ record.packet.device ≠ ref.device
          ∨ record.packet.sequence ≠ ref.sequence then
        throw (archiveError "collection record reference does not match archive contents")
      pure (some record)

/-- The loop of `search_archive_collection`. -/
def searchRefs (disk : Disk Path κ) (options : CollectionSearchOptions) :
    List ArchiveCollectionRecordRef → CollectionSearchResult →
      Except Error CollectionSearchResult
  | [], result => pure result
  | ref :: refs, result => do
      let (matched, stats) := refMatchesQuery ref options.query result.stats
      let result := { result with stats }
      if !matched then searchRefs disk options refs result
      else
        match options.query.kind with
        | some kind =>
            let found ← loadCollectionRecord disk ref
            match found.filter fun record => record.packet.kind = kind with
            | none =>
                searchRefs disk options refs { result with stats := { stats with
                  matchedRecords := stats.matchedRecords - 1
                  skippedByKind := stats.skippedByKind + 1 } }
            | some record =>
                let result := { result with
                  refs := result.refs ++ [ref]
                  records := result.records ++ if options.loadRecords then [record] else [] }
                if Reached options.query.limit.toNat result.refs then pure result
                else searchRefs disk options refs result
        | none =>
            let found ← if options.loadRecords then loadCollectionRecord disk ref else pure none
            let result := { result with
              refs := result.refs ++ [ref]
              records := result.records ++ found.toList }
            if Reached options.query.limit.toNat result.refs then pure result
            else searchRefs disk options refs result

/-- The comparison of the final sort of the records. -/
def recordEarlier (left right : ArchiveRecord) : Bool :=
  left.captureTimeNs < right.captureTimeNs

/-- The comparison of the final sort of the references. -/
def refEarlier (left right : ArchiveCollectionRecordRef) : Bool :=
  left.captureTimeNs < right.captureTimeNs

/-- The search of a collection: the references that match, up to the limit, and their records. -/
def searchArchiveCollection (disk : Disk Path κ) (collection : ArchiveCollection)
    (options : CollectionSearchOptions) : Except Error CollectionSearchResult := do
  match collection.source options.query with
  | none => pure {}
  | some refs =>
      let result ← searchRefs disk options refs {}
      if options.sortByTime then
        pure { result with
          records := stableSort recordEarlier result.records
          refs := stableSort refEarlier result.refs }
      else pure result

end Disks

end Aethon.Storage
