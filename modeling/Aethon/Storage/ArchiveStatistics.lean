import Aethon.Foundation.Consecutive
import Aethon.Foundation.SortedTable
import Aethon.Foundation.Words
import Aethon.Storage.ArchiveCollection
import Mathlib.Data.Finset.Card
import Mathlib.Data.Prod.Lex

/-!
# Archive statistics

The views of a collection that count its records by time, by device, by payload and by packet kind,
and that look for silent devices, for sequences that jump and for archives that share a period,
after `storage/archive_statistics.cpp`. What `std::sort` does with elements that compare equal is
left to the sorts, which are parameters. Averages, shares and percentiles are computed with floating
point and left out.
-/

namespace Aethon.Storage

open FileSystem Protocol StableSort Words

/-- What was captured in a bucket of time. -/
structure ArchiveTimeBucket where
  bucketStartNs : UInt64 := 0
  bucketEndNs : UInt64 := 0
  recordCount : UInt64 := 0
  payloadBytes : UInt64 := 0
  archiveCount : UInt64 := 0
  deriving DecidableEq, Repr

/-- A record on the timeline of its device. -/
structure DeviceTimelinePoint where
  device : DeviceId := 0
  captureTimeNs : UInt64 := 0
  sequence : UInt32 := 0
  payloadSize : UInt64 := 0
  archivePath : Path := ⟨""⟩
  deriving DecidableEq, Repr

/-- The records of a device by time. -/
structure DeviceTimeline where
  device : DeviceId := 0
  points : List DeviceTimelinePoint := []
  firstTimeNs : UInt64 := 0
  lastTimeNs : UInt64 := 0
  totalPayloadBytes : UInt64 := 0
  deriving DecidableEq, Repr

/-- A silence of a device that reaches the threshold. -/
structure ArchiveGap where
  device : DeviceId := 0
  previousTimeNs : UInt64 := 0
  nextTimeNs : UInt64 := 0
  gapNs : UInt64 := 0
  previousArchive : Path := ⟨""⟩
  nextArchive : Path := ⟨""⟩
  deriving DecidableEq, Repr

/-- Two archives whose periods overlap, and the period that they share. -/
structure ArchiveOverlap where
  leftArchive : Path := ⟨""⟩
  rightArchive : Path := ⟨""⟩
  overlapStartNs : UInt64 := 0
  overlapEndNs : UInt64 := 0
  overlapSpanNs : UInt64 := 0
  leftRecordsInOverlap : UInt64 := 0
  rightRecordsInOverlap : UInt64 := 0
  deriving DecidableEq, Repr

/-- Two records of a device whose sequences do not follow each other. -/
structure SequenceAnomaly where
  device : DeviceId := 0
  previousSequence : UInt32 := 0
  currentSequence : UInt32 := 0
  captureTimeNs : UInt64 := 0
  archivePath : Path := ⟨""⟩
  reason : String := ""
  deriving DecidableEq, Repr

/-- The payload share and the average payload size are left out. -/
structure DevicePayloadRank where
  device : DeviceId := 0
  recordCount : UInt64 := 0
  payloadBytes : UInt64 := 0
  deriving DecidableEq, Repr

/-- How many packets of one kind a device sent. -/
structure DeviceKindMatrixCell where
  device : DeviceId := 0
  kind : PacketKind := .heartbeat
  recordCount : UInt64 := 0
  deriving DecidableEq, Repr

/-! ## Time buckets -/

/-- The start of the bucket that a time is in. -/
def bucketStart (captureTimeNs width : UInt64) : UInt64 :=
  if width = 0 then captureTimeNs else captureTimeNs / width * width

/-- The loop body of `build_archive_time_buckets` for the bucket of a record. -/
def countInBucket (start width : UInt64) (ref : ArchiveCollectionRecordRef)
    (held : Option ArchiveTimeBucket) : ArchiveTimeBucket :=
  let bucket := held.getD {}
  let bucket :=
    if bucket.recordCount = 0 then
      { bucket with bucketStartNs := start, bucketEndNs := start + width - 1 }
    else bucket
  { bucket with
    recordCount := bucket.recordCount + 1
    payloadBytes := bucket.payloadBytes + ref.payloadSize }

/-- The ordinals of the archives with a record in a bucket, as a set. -/
def bucketArchives (records : List ArchiveCollectionRecordRef) (bucket : ArchiveTimeBucket) :
    Finset Nat :=
  ((records.filter fun ref => ref.captureTimeNs ≥ bucket.bucketStartNs
    ∧ ref.captureTimeNs ≤ bucket.bucketEndNs).map (·.archiveOrdinal)).toFinset

/-- The buckets of a collection by their starts, a width of zero as one. -/
def buildArchiveTimeBuckets (collection : ArchiveCollection) (bucketWidthNs : UInt64) :
    List ArchiveTimeBucket :=
  let width := if bucketWidthNs = 0 then 1 else bucketWidthNs
  let buckets : SortedTable UInt64 ArchiveTimeBucket := collection.records.foldl
    (fun buckets ref =>
      let start := bucketStart ref.captureTimeNs width
      buckets.update start (countInBucket start width ref)) ∅
  let buckets := buckets.map fun bucket =>
    { bucket with archiveCount := UInt64.ofNat (bucketArchives collection.records bucket).card }
  buckets.values

/-! ## Timelines -/

/-- The point of a reference. -/
def makeTimelinePoint (ref : ArchiveCollectionRecordRef) : DeviceTimelinePoint where
  device := ref.device
  captureTimeNs := ref.captureTimeNs
  sequence := ref.sequence
  payloadSize := ref.payloadSize
  archivePath := ref.path

/-- Put a point behind a timeline. -/
def updateTimeline (timeline : DeviceTimeline) (point : DeviceTimelinePoint) : DeviceTimeline :=
  let timeline :=
    if timeline.points.isEmpty then
      { timeline with firstTimeNs := point.captureTimeNs, lastTimeNs := point.captureTimeNs }
    else
      { timeline with
        firstTimeNs := min timeline.firstTimeNs point.captureTimeNs
        lastTimeNs := max timeline.lastTimeNs point.captureTimeNs }
  { timeline with
    totalPayloadBytes := timeline.totalPayloadBytes + point.payloadSize
    points := timeline.points ++ [point] }

/-- The comparison of the points of a timeline. -/
def pointBefore (left right : DeviceTimelinePoint) : Bool :=
  if left.captureTimeNs ≠ right.captureTimeNs then left.captureTimeNs < right.captureTimeNs
  else left.sequence < right.sequence

/-- The timeline of every device. -/
def timelineMap (collection : ArchiveCollection) : SortedTable DeviceId DeviceTimeline :=
  let timelines : SortedTable DeviceId DeviceTimeline := collection.records.foldl
    (fun timelines ref => timelines.update ref.device fun held =>
      updateTimeline { held.getD {} with device := ref.device } (makeTimelinePoint ref)) ∅
  timelines.map fun timeline =>
    { timeline with points := stableSort pointBefore timeline.points }

/-- The comparison of timelines: the longer ones first, then by device. -/
def timelineBefore (left right : DeviceTimeline) : Bool :=
  if left.points.length ≠ right.points.length then left.points.length > right.points.length
  else left.device < right.device

/-- The comparison of gaps: the longer ones first, then by device. -/
def gapBefore (left right : ArchiveGap) : Bool :=
  if left.gapNs ≠ right.gapNs then left.gapNs > right.gapNs
  else left.device < right.device

/-- The comparison of anomalies: by device, then by capture time. -/
def anomalyBefore (left right : SequenceAnomaly) : Bool :=
  if left.device ≠ right.device then left.device < right.device
  else left.captureTimeNs < right.captureTimeNs

section Timelines

variable (sortTimelines : List DeviceTimeline → List DeviceTimeline)

/-- The timelines by device, the points of each by time. -/
def buildDeviceTimelines (collection : ArchiveCollection) : List DeviceTimeline :=
  sortTimelines (timelineMap collection).values

/-- The loop body of `detect_archive_gaps`. -/
def gapBetween (device : DeviceId) (gapThresholdNs : UInt64)
    (previous current : DeviceTimelinePoint) : Option ArchiveGap :=
  if current.captureTimeNs < previous.captureTimeNs then none
  else
    let gap := current.captureTimeNs - previous.captureTimeNs
    if gap ≤ gapThresholdNs then none
    else
      some
        { device
          previousTimeNs := previous.captureTimeNs
          nextTimeNs := current.captureTimeNs
          gapNs := gap
          previousArchive := previous.archivePath
          nextArchive := current.archivePath }

/-- The silences of all devices, sorted. -/
def detectArchiveGaps (sortGaps : List ArchiveGap → List ArchiveGap)
    (collection : ArchiveCollection) (gapThresholdNs : UInt64) : List ArchiveGap :=
  sortGaps <| (buildDeviceTimelines sortTimelines collection).flatMap fun timeline =>
    if timeline.points.length < 2 then []
    else timeline.points.consecutivePairs.filterMap fun pair =>
      gapBetween timeline.device gapThresholdNs pair.1 pair.2

/-- How a sequence fails to follow the one before. -/
def anomalyReason (previous current : UInt32) : String :=
  if current = previous then "duplicate sequence"
  else if current < previous then "sequence moved backwards"
  else "sequence gap"

/-- The loop body of `detect_sequence_anomalies`. -/
def anomalyBetween (device : DeviceId) (previous current : DeviceTimelinePoint) :
    Option SequenceAnomaly :=
  let duplicate := current.sequence = previous.sequence
  let backwards := current.sequence < previous.sequence
  let gap := current.sequence > previous.sequence + 1
  if ¬duplicate ∧ ¬backwards ∧ ¬gap then none
  else
    some
      { device
        previousSequence := previous.sequence
        currentSequence := current.sequence
        captureTimeNs := current.captureTimeNs
        archivePath := current.archivePath
        reason := anomalyReason previous.sequence current.sequence }

/-- The anomalies of all devices, sorted. -/
def detectSequenceAnomalies (sortAnomalies : List SequenceAnomaly → List SequenceAnomaly)
    (collection : ArchiveCollection) : List SequenceAnomaly :=
  sortAnomalies <| (buildDeviceTimelines sortTimelines collection).flatMap fun timeline =>
    if timeline.points.length < 2 then []
    else timeline.points.consecutivePairs.filterMap fun pair =>
      anomalyBetween timeline.device pair.1 pair.2

end Timelines

/-! ## Overlaps -/

/-- How many records of an archive are in a window. -/
def countRecordsInWindow (archive : ArchiveCollectionEntry) (startNs endNs : UInt64) : UInt64 :=
  UInt64.ofNat <| archive.index.records.countP fun record =>
    record.captureTimeNs ≥ startNs ∧ record.captureTimeNs ≤ endNs

/-- Two archives with records whose periods share a time. -/
def archivesHaveTimeOverlap (left right : ArchiveCollectionEntry) : Bool :=
  if left.manifest.summary.recordCount = 0 ∨ right.manifest.summary.recordCount = 0 then false
  else left.manifest.summary.firstTimeNs ≤ right.manifest.summary.lastTimeNs
    ∧ right.manifest.summary.firstTimeNs ≤ left.manifest.summary.lastTimeNs

/-- The overlap of two archives. -/
def makeOverlap (left right : ArchiveCollectionEntry) : ArchiveOverlap :=
  let startNs := max left.manifest.summary.firstTimeNs right.manifest.summary.firstTimeNs
  let endNs := min left.manifest.summary.lastTimeNs right.manifest.summary.lastTimeNs
  { leftArchive := left.path
    rightArchive := right.path
    overlapStartNs := startNs
    overlapEndNs := endNs
    overlapSpanNs := if endNs ≥ startNs then endNs - startNs else 0
    leftRecordsInOverlap := countRecordsInWindow left startNs endNs
    rightRecordsInOverlap := countRecordsInWindow right startNs endNs }

/-- The comparison of overlaps: the longer ones first, then by the paths. -/
def overlapBefore (left right : ArchiveOverlap) : Bool :=
  if left.overlapSpanNs ≠ right.overlapSpanNs then left.overlapSpanNs > right.overlapSpanNs
  else if !left.leftArchive.same right.leftArchive then
    left.leftArchive.string < right.leftArchive.string
  else left.rightArchive.string < right.rightArchive.string

/-- The two loops of `detect_archive_overlaps`: each archive with those behind it. -/
def overlapPairs : List ArchiveCollectionEntry → List ArchiveOverlap
  | [] => []
  | left :: archives =>
      (archives.filter (archivesHaveTimeOverlap left)).map (makeOverlap left) ++
        overlapPairs archives

/-- The overlaps of every two archives, sorted. -/
def detectArchiveOverlaps (sortOverlaps : List ArchiveOverlap → List ArchiveOverlap)
    (collection : ArchiveCollection) : List ArchiveOverlap :=
  if collection.archives.length < 2 then [] else sortOverlaps (overlapPairs collection.archives)

/-! ## Payloads and kinds -/

/-- The order of the devices: more bytes first, then more records, then the smaller id. -/
def rankBefore (left right : DevicePayloadRank) : Bool :=
  if left.payloadBytes ≠ right.payloadBytes then left.payloadBytes > right.payloadBytes
  else if left.recordCount ≠ right.recordCount then left.recordCount > right.recordCount
  else left.device < right.device

/-- The loop body of `rank_devices_by_payload`. -/
def countPayload (ref : ArchiveCollectionRecordRef) (held : Option DevicePayloadRank) :
    DevicePayloadRank :=
  let rank := held.getD { device := ref.device }
  { rank with
    recordCount := rank.recordCount + 1
    payloadBytes := rank.payloadBytes + ref.payloadSize }

/-- The devices by the bytes of their payloads. -/
def rankDevicesByPayload (sortRanks : List DevicePayloadRank → List DevicePayloadRank)
    (collection : ArchiveCollection) : List DevicePayloadRank :=
  let byDevice : SortedTable DeviceId DevicePayloadRank := collection.records.foldl
    (fun byDevice ref => byDevice.update ref.device (countPayload ref)) ∅
  sortRanks byDevice.values

/-- The summary of the references of a collection. -/
def summarizeCollection (collection : ArchiveCollection) : ArchiveSummary :=
  match collection.records with
  | [] => { formatVersion := collection.summary.formatVersion }
  | first :: refs =>
      { formatVersion := collection.summary.formatVersion
        recordCount := UInt64.ofNat (first :: refs).length
        firstTimeNs := (first :: refs).foldl (fun time ref => min time ref.captureTimeNs)
          first.captureTimeNs
        lastTimeNs := (first :: refs).foldl (fun time ref => max time ref.captureTimeNs)
          first.captureTimeNs }

/-- The order of the cells: by device, then by kind. -/
def cellBefore (left right : DeviceKindMatrixCell) : Bool :=
  if left.device ≠ right.device then left.device < right.device
  else left.kind.raw < right.kind.raw

/-- The key of a cell in the map of pairs. -/
def cellKey (device : DeviceId) (kind : PacketKind) : ℕ ×ₗ ℕ :=
  toLex (device.toNat, kind.raw.toNat)

/-- Count a packet in its cell. -/
def countCell (device : DeviceId) (kind : PacketKind) (held : Option DeviceKindMatrixCell) :
    DeviceKindMatrixCell :=
  let cell := held.getD { device, kind }
  { cell with recordCount := cell.recordCount + 1 }

/-- `++counts[{device, kind}]`. -/
def countKind (counts : SortedTable (ℕ ×ₗ ℕ) DeviceKindMatrixCell) (device : DeviceId)
    (kind : PacketKind) : SortedTable (ℕ ×ₗ ℕ) DeviceKindMatrixCell :=
  counts.update (cellKey device kind) (countCell device kind)

section Disks

variable {κ : Type}

/-- The loop of `build_device_kind_matrix`. A record that is not found is not counted. -/
def countKinds (disk : Disk Path κ) :
    List ArchiveCollectionRecordRef → SortedTable (ℕ ×ₗ ℕ) DeviceKindMatrixCell →
      Except Error (SortedTable (ℕ ×ₗ ℕ) DeviceKindMatrixCell)
  | [], counts => pure counts
  | ref :: refs, counts => do
      match ← loadCollectionRecord disk ref with
      | none => countKinds disk refs counts
      | some record => countKinds disk refs (countKind counts ref.device record.packet.kind)

/-- The matrix of devices and kinds, from the packets of the archives. -/
def buildDeviceKindMatrix (sortCells : List DeviceKindMatrixCell → List DeviceKindMatrixCell)
    (disk : Disk Path κ) (collection : ArchiveCollection) :
    Except Error (List DeviceKindMatrixCell) := do
  let counts ← countKinds disk collection.records ∅
  pure (sortCells counts.values)

/-! ## The report -/

/-- The averages are left out. -/
structure ArchiveDensitySummary where
  archiveCount : UInt64 := 0
  recordCount : UInt64 := 0
  payloadBytes : UInt64 := 0
  deriving DecidableEq, Repr

/-- The payload percentiles are left out. -/
structure ArchiveStatisticsReport where
  summary : ArchiveSummary := {}
  timeBuckets : List ArchiveTimeBucket := []
  deviceTimelines : List DeviceTimeline := []
  gaps : List ArchiveGap := []
  overlaps : List ArchiveOverlap := []
  sequenceAnomalies : List SequenceAnomaly := []
  payloadRanking : List DevicePayloadRank := []
  deviceKindMatrix : List DeviceKindMatrixCell := []
  density : ArchiveDensitySummary := {}
  deriving DecidableEq, Repr

/-- The density of a collection: its archives, its records and their bytes. -/
def calculateArchiveDensity (collection : ArchiveCollection) : ArchiveDensitySummary where
  archiveCount := UInt64.ofNat collection.archives.length
  recordCount := UInt64.ofNat collection.records.length
  payloadBytes := (collection.records.map (·.payloadSize)).sum

/-- The sorts by `std::sort` that a report uses. -/
structure StatisticsSorts where
  timelines : List DeviceTimeline → List DeviceTimeline
  gaps : List ArchiveGap → List ArchiveGap
  overlaps : List ArchiveOverlap → List ArchiveOverlap
  anomalies : List SequenceAnomaly → List SequenceAnomaly
  ranks : List DevicePayloadRank → List DevicePayloadRank
  cells : List DeviceKindMatrixCell → List DeviceKindMatrixCell

/-- All statistics of a collection in one report. -/
def buildArchiveStatisticsReport (sorts : StatisticsSorts) (disk : Disk Path κ)
    (collection : ArchiveCollection) (bucketWidthNs gapThresholdNs : UInt64) :
    Except Error ArchiveStatisticsReport := do
  let deviceKindMatrix ← buildDeviceKindMatrix sorts.cells disk collection
  pure
    { summary := summarizeCollection collection
      timeBuckets := buildArchiveTimeBuckets collection bucketWidthNs
      deviceTimelines := buildDeviceTimelines sorts.timelines collection
      gaps := detectArchiveGaps sorts.timelines sorts.gaps collection gapThresholdNs
      overlaps := detectArchiveOverlaps sorts.overlaps collection
      sequenceAnomalies := detectSequenceAnomalies sorts.timelines sorts.anomalies collection
      payloadRanking := rankDevicesByPayload sorts.ranks collection
      deviceKindMatrix
      density := calculateArchiveDensity collection }

end Disks

end Aethon.Storage
