import Aethon.Storage.Compaction
import Aethon.Storage.QueryMatching
import Aethon.Storage.RepairRewrite

/-!
# The copy of a compaction

Each record that a compaction reads is written or dropped for one reason. `compact_archive_ok_iff`
says what it leaves apart from its source: an archive of the records that are kept, in their order,
and how many came to which fate.
-/

namespace Aethon.Storage

open Actions FileSystem Codec Protocol Parsing

/-! ## The first pass -/

/-- The sequences that a map of latest sequences supersedes are those below one of its records. -/
def LatestOf (latest : Std.ExtTreeMap DeviceId UInt32) (records : List ArchiveRecord) : Prop :=
  ∀ device sequence, (∃ bound, latest[device]? = some bound ∧ sequence < bound) ↔
    ∃ record ∈ records, record.packet.device = device ∧ sequence < record.packet.sequence

/-- No device has a latest sequence in front of the records. -/
theorem latest_of_nil : LatestOf ∅ [] := by
  intro device sequence
  constructor
  · intro h
    obtain ⟨bound, hbound, -⟩ := h
    rw [Std.ExtTreeMap.getElem?_empty] at hbound
    cases hbound
  · intro h
    obtain ⟨record, hrecord, -⟩ := h
    exact absurd hrecord List.not_mem_nil

/-- A sequence is below the larger of two when it is below one. -/
theorem lt_note_iff {sequence noted current : UInt32} :
    sequence < (if noted > current then noted else current) ↔
      sequence < current ∨ sequence < noted := by
  split
  · next h => exact ⟨Or.inr, fun hlt => hlt.elim (UInt32.lt_trans · h) id⟩
  · next h =>
    exact ⟨Or.inl, fun hlt => hlt.elim id fun hnoted =>
      UInt32.lt_of_lt_of_le hnoted (UInt32.not_lt.mp h)⟩

/-- One more record keeps the latest sequences right. -/
theorem LatestOf.note {latest : Std.ExtTreeMap DeviceId UInt32} {records : List ArchiveRecord}
    (h : LatestOf latest records) (record : ArchiveRecord) :
    LatestOf (noteSequence latest record) (records ++ [record]) := by
  intro device sequence
  have hbefore := h device sequence
  simp only [List.mem_append, List.mem_singleton, or_and_right, exists_or, exists_eq_left]
  rw [noteSequence, OrderedMap.getElem?_insert]
  by_cases hdevice : device = record.packet.device
  · subst hdevice
    simp only [if_true, Option.some.injEq, exists_eq_left', lt_note_iff, true_and, ← hbefore]
    refine or_congr_left ?_
    cases latest[record.packet.device]? with
    | none => simp
    | some bound => simp
  · rw [if_neg hdevice, hbefore]
    exact (or_iff_left fun hthis => hdevice hthis.1.symm).symm

/-- The records keep the latest sequences right. -/
theorem LatestOf.foldl {latest : Std.ExtTreeMap DeviceId UInt32} {before : List ArchiveRecord}
    (h : LatestOf latest before) (records : List ArchiveRecord) :
    LatestOf (records.foldl noteSequence latest) (before ++ records) := by
  induction records generalizing latest before with
  | nil =>
    rw [List.append_nil]
    exact h
  | cons record records ih =>
    rw [List.append_cons]
    exact ih (h.note record)

/-- A record is superseded when a larger sequence of its device is there. -/
theorem LatestOf.is_superseded_iff {latest : Std.ExtTreeMap DeviceId UInt32}
    {records : List ArchiveRecord} (h : LatestOf latest records) (record : ArchiveRecord) :
    isSuperseded record latest = true ↔ ∃ other ∈ records,
      other.packet.device = record.packet.device ∧
        record.packet.sequence < other.packet.sequence := by
  rw [← h record.packet.device record.packet.sequence, isSuperseded]
  cases latest[record.packet.device]? with
  | none => simp
  | some bound => simp

/-- The latest sequences of an archive that was read. -/
theorem latest_sequences_of_read {file : Option Bytes} {header : ArchiveSummary}
    {records : List ArchiveRecord} (h : readArchive file = .ok (header, records)) :
    ∃ latest, latestSequences file = .ok latest ∧ LatestOf latest records := by
  obtain ⟨reader, hopen, hdrain, -⟩ := read_archive_reader_iff.mp h
  refine ⟨records.foldl noteSequence ∅, ?_, latest_of_nil.foldl records⟩
  simp only [latestSequences, hopen, except_bind_ok_iff]
  exact ⟨reader, rfl, (), by rw [hdrain]; rfl, by rw [hdrain]; rfl⟩

/-! ## The fate of a record -/

/-- What becomes of a record in a compaction. -/
inductive RecordFate where
  | written
  | droppedByQuery
  | droppedEmpty
  | droppedSuperseded
  deriving DecidableEq, Repr

namespace CompactionOptions

variable (options : CompactionOptions)

/-- A record that the query and the filter on empty payloads let through. -/
def admits (record : ArchiveRecord) : Bool :=
  options.query.accepts record && !(options.dropEmptyPayloads && record.packet.payload.isEmpty)

/-- Whether a compaction writes a record. -/
def keeps (latest : Std.ExtTreeMap DeviceId UInt32) (record : ArchiveRecord) : Bool :=
  options.admits record && !(options.keepLatestPerDevice && isSuperseded record latest)

/-- The filters are tried in this order. -/
def fate (latest : Std.ExtTreeMap DeviceId UInt32) (record : ArchiveRecord) : RecordFate :=
  if !options.query.accepts record then .droppedByQuery
  else if options.dropEmptyPayloads && record.packet.payload.isEmpty then .droppedEmpty
  else if options.keepLatestPerDevice && isSuperseded record latest then .droppedSuperseded
  else .written

/-- A record is kept when its fate is to be written. -/
theorem keeps_eq_fate (latest : Std.ExtTreeMap DeviceId UInt32) (record : ArchiveRecord) :
    options.keeps latest record = decide (options.fate latest record = .written) := by
  unfold keeps admits fate
  cases options.query.accepts record with
  | false => rfl
  | true =>
    cases options.dropEmptyPayloads && record.packet.payload.isEmpty with
    | true => rfl
    | false => cases options.keepLatestPerDevice && isSuperseded record latest <;> rfl

end CompactionOptions

namespace CompactionStats

/-- Every record that was read was written or dropped for one reason. -/
def Balanced (stats : CompactionStats) : Prop :=
  stats.recordsRead = stats.recordsWritten + stats.recordsDroppedByQuery +
    stats.recordsDroppedEmpty + stats.recordsDroppedSuperseded

/-- The statistics with one more record. -/
def note (stats : CompactionStats) (fate : RecordFate) : CompactionStats :=
  let stats := { stats with recordsRead := stats.recordsRead + 1 }
  match fate with
  | .written => { stats with recordsWritten := stats.recordsWritten + 1 }
  | .droppedByQuery => { stats with recordsDroppedByQuery := stats.recordsDroppedByQuery + 1 }
  | .droppedEmpty => { stats with recordsDroppedEmpty := stats.recordsDroppedEmpty + 1 }
  | .droppedSuperseded =>
      { stats with recordsDroppedSuperseded := stats.recordsDroppedSuperseded + 1 }

/-- The counter of the records that came to a fate. -/
def counter (stats : CompactionStats) : RecordFate → UInt64
  | .written => stats.recordsWritten
  | .droppedByQuery => stats.recordsDroppedByQuery
  | .droppedEmpty => stats.recordsDroppedEmpty
  | .droppedSuperseded => stats.recordsDroppedSuperseded

variable {stats : CompactionStats}

/-- A fate keeps the counts balanced. -/
theorem Balanced.note (h : stats.Balanced) (fate : RecordFate) : (stats.note fate).Balanced := by
  unfold Balanced at h ⊢
  cases fate
  all_goals
    simp only [CompactionStats.note, h]
    ac_rfl

theorem Balanced.foldl (h : stats.Balanced) (fates : List RecordFate) :
    (fates.foldl CompactionStats.note stats).Balanced := by
  induction fates generalizing stats with
  | nil => exact h
  | cons fate fates ih => exact ih (h.note fate)

@[simp] theorem records_read_note (fate : RecordFate) :
    (stats.note fate).recordsRead = stats.recordsRead + 1 := by
  cases fate <;> rfl

theorem counter_note (fate other : RecordFate) :
    (stats.note fate).counter other =
      stats.counter other + if fate = other then 1 else 0 := by
  cases fate <;> cases other <;> first | rfl | exact (UInt64.add_zero _).symm

/-- Each counter goes up by the number of records that came to its fate. -/
theorem counter_foldl (fates : List RecordFate) (fate : RecordFate) :
    (fates.foldl CompactionStats.note stats).counter fate =
      stats.counter fate + UInt64.ofNat (fates.count fate) := by
  induction fates generalizing stats with
  | nil => exact (UInt64.add_zero _).symm
  | cons first fates ih =>
    rw [List.foldl_cons, ih, counter_note, List.count_cons, UInt64.add_assoc]
    by_cases hfate : first = fate
    · subst hfate
      rw [if_pos rfl, if_pos (beq_self_eq_true first), UInt64.ofNat_add, UInt64.add_comm 1]
      rfl
    · simp [hfate]

/-- Every fate is of a record that was read. -/
theorem records_read_foldl (fates : List RecordFate) :
    (fates.foldl CompactionStats.note stats).recordsRead =
      stats.recordsRead + UInt64.ofNat fates.length := by
  induction fates generalizing stats with
  | nil => exact (UInt64.add_zero _).symm
  | cons first fates ih =>
    rw [List.foldl_cons, ih, records_read_note, List.length_cons, UInt64.ofNat_add,
      UInt64.add_assoc, UInt64.add_comm 1]
    rfl

end CompactionStats

/-! ## The loop -/

/-- A round writes its record exactly when it is kept. -/
theorem compact_record_eq (options : CompactionOptions)
    (latest : Std.ExtTreeMap DeviceId UInt32) (stats : CompactionStats) (record : ArchiveRecord) :
    compactRecord options latest stats record =
      if options.keeps latest record then do
        ArchiveWriter.append record.captureTimeNs record.packet
        pure (stats.note (options.fate latest record))
      else pure (stats.note (options.fate latest record)) := by
  unfold compactRecord CompactionOptions.keeps CompactionOptions.admits CompactionOptions.fate
  rw [matches_query_fst]
  cases options.query.accepts record with
  | false => rfl
  | true =>
    cases options.dropEmptyPayloads && record.packet.payload.isEmpty with
    | true => rfl
    | false => cases options.keepLatestPerDevice && isSuperseded record latest <;> rfl

/-- The statistics of a compaction of records. -/
def CompactionOptions.statsOf (options : CompactionOptions)
    (latest : Std.ExtTreeMap DeviceId UInt32) (records : List ArchiveRecord) : CompactionStats :=
  (records.map (options.fate latest)).foldl CompactionStats.note {}

theorem CompactionOptions.stats_of_balanced (options : CompactionOptions)
    (latest : Std.ExtTreeMap DeviceId UInt32) (records : List ArchiveRecord) :
    (options.statsOf latest records).Balanced := by
  have hstart : CompactionStats.Balanced {} := rfl
  exact hstart.foldl _

/-- So the loop writes the records that are kept, in their order. -/
theorem compact_records_eq (options : CompactionOptions)
    (latest : Std.ExtTreeMap DeviceId UInt32) (records : List ArchiveRecord)
    (stats : CompactionStats) :
    records.foldlM (compactRecord options latest) stats = (do
      forM ((records.filter (options.keeps latest)).map ArchiveRecord.entry) fun entry =>
        ArchiveWriter.append entry.1 entry.2
      pure ((records.map (options.fate latest)).foldl CompactionStats.note stats)) := by
  induction records generalizing stats with
  | nil => rfl
  | cons record records ih =>
    rw [List.foldlM_cons, compact_record_eq]
    by_cases hkeeps : options.keeps latest record = true
    · rw [if_pos hkeeps, List.filter_cons_of_pos hkeeps, List.map_cons, List.forM_cons, bind_assoc,
        bind_assoc]
      simp only [pure_bind, ih]
      rfl
    · rw [if_neg hkeeps, List.filter_cons_of_neg hkeeps, pure_bind, ih]
      rfl

variable {κ : Type} [DecidableEq κ]

/-- A scope that yields a fixed value behind its body leaves what the body leaves. -/
theorem with_writer_then_pure_ok_iff {α : Type} {output : Path}
    {body : Disk Path κ → Action ArchiveWriter Error Unit} {disk disk' : Disk Path κ} {a b : α} :
    start (withWriter output fun disk => do
        body disk
        pure a) disk = (.ok b, disk') ↔
      start (withWriter output body) disk = (.ok (), disk') ∧ b = a := by
  simp only [with_writer_ok_iff, start_bind_ok_iff, start_pure, Prod.mk.injEq, Except.ok.injEq]
  constructor
  · intro h
    obtain ⟨medium, opened, writer, hmedium, hopen, ⟨_, _, hbody, rfl, rfl⟩, rfl⟩ := h
    exact ⟨⟨medium, opened, _, hmedium, hopen, hbody, rfl⟩, rfl⟩
  · intro h
    obtain ⟨⟨medium, opened, writer, hmedium, hopen, hbody, rfl⟩, rfl⟩ := h
    exact ⟨medium, opened, writer, hmedium, hopen, ⟨(), writer, hbody, rfl, rfl⟩, rfl⟩

/-- Apart from its source, a compaction leaves an archive of the records that are kept. -/
theorem compact_archive_ok_iff
    (overwritten : ArchiveReader → List ArchiveRecord × Option Error)
    {source destination : Path} {options : CompactionOptions} {disk : Disk Path κ}
    {header : ArchiveSummary} {records : List ArchiveRecord}
    (hread : readArchive (disk.read source) = .ok (header, records))
    (hapart : disk.locate destination ≠ disk.locate source) :
    ∃ latest, (options.keepLatestPerDevice = true → LatestOf latest records) ∧ ∀ stats disk',
      start (compactArchive overwritten source destination options) disk = (.ok stats, disk') ↔
        start (withWriter destination fun _ => writeEntries
          ((records.filter (options.keeps latest)).map ArchiveRecord.entry)) disk =
            (.ok (), disk') ∧ stats = options.statsOf latest records := by
  obtain ⟨latest, hsequences, hlatest⟩ : ∃ latest,
      (if options.keepLatestPerDevice then latestSequences (disk.read source) else pure ∅) =
        Except.ok latest ∧ (options.keepLatestPerDevice = true → LatestOf latest records) := by
    cases options.keepLatestPerDevice with
    | false => exact ⟨∅, rfl, fun h => absurd h Bool.false_ne_true⟩
    | true =>
      obtain ⟨latest, hsequences, hlatest⟩ := latest_sequences_of_read hread
      exact ⟨latest, hsequences, fun _ => hlatest⟩
  obtain ⟨reader, hopen, hdrain, -⟩ := read_archive_reader_iff.mp hread
  refine ⟨latest, hlatest, fun stats disk' => ?_⟩
  have hbody : (fun _ : Disk Path κ => (do
      let stats ← records.foldlM (compactRecord options latest) {}
      liftM (endLoop none)
      ArchiveWriter.close
      pure stats : Action ArchiveWriter Error CompactionStats)) =
      fun _ => (do
        writeEntries ((records.filter (options.keeps latest)).map ArchiveRecord.entry)
        pure (options.statsOf latest records)) := by
    funext _
    rw [compact_records_eq, writeEntries, bind_assoc, bind_assoc]
    rfl
  rw [compactArchive, start_get_bind, hsequences, start_lift_bind_ok_iff, hopen]
  simp only [start_lift_bind_ok_iff, Except.ok.injEq, ↓existsAndEq, true_and, if_neg hapart,
    hdrain, hbody, with_writer_then_pure_ok_iff]

section Runs

variable (overwritten : ArchiveReader → List ArchiveRecord × Option Error)
  {source destination : Path} {options : CompactionOptions} {disk : Disk Path κ}
  {header : ArchiveSummary} {records : List ArchiveRecord}

variable (options) in
/-- A compaction returns when it has room for a copy of its source. -/
theorem compaction_returns {content : Bytes} (hsource : disk.read source = some content)
    (hread : readArchive (some content) = .ok (header, records))
    (hapart : disk.locate destination ≠ disk.locate source)
    (hwritable : OutputWritable disk destination true content.length) :
    ∃ stats left,
      start (compactArchive overwritten source destination options) disk = (.ok stats, left) := by
  obtain ⟨latest, -, hruns⟩ := compact_archive_ok_iff overwritten (hsource.symm ▸ hread) hapart
  obtain ⟨medium, hmedium, hfits⟩ := hwritable.room
  let kept := records.filter (options.keeps latest)
  have hlimits : ∀ entry ∈ kept.map ArchiveRecord.entry, EncoderLimits entry.2 := by
    rw [List.forall_mem_map]
    exact fun record hrecord =>
      (readable_of_read hread record (List.mem_filter.mp hrecord).1).encoder
  have hkept : kept.Sublist records := List.filter_sublist
  have hshorter := (length_copy_le hread hkept).trans hfits
  exact ⟨_, _, (hruns _ _).mpr
    ⟨write_entries_on_disk_iff.mpr ⟨medium, hmedium, hlimits, hshorter, rfl⟩, rfl⟩⟩

/-- A compaction that returns leaves an archive of the records that are kept, no longer than its
source, and no other file has changed. -/
theorem compaction_written (hread : readArchive (disk.read source) = .ok (header, records))
    (hapart : disk.locate destination ≠ disk.locate source) {stats : CompactionStats}
    {left : Disk Path κ} (hrun :
      start (compactArchive overwritten source destination options) disk = (.ok stats, left)) :
    ∃ latest file, (options.keepLatestPerDevice = true → LatestOf latest records) ∧
      stats = options.statsOf latest records ∧
      left = disk.put (disk.locate destination) (some file) ∧
      file.bytes = archiveWire ((records.filter (options.keeps latest)).map ArchiveRecord.entry) ∧
      readArchive (some file.bytes) =
        .ok (summarize {} ((records.filter (options.keeps latest)).map ArchiveRecord.entry),
          recordsAt 36 ((records.filter (options.keeps latest)).map ArchiveRecord.entry)) := by
  obtain ⟨latest, hlatest, hruns⟩ := compact_archive_ok_iff overwritten hread hapart
  obtain ⟨hwrite, hstats⟩ := (hruns stats left).mp hrun
  obtain ⟨medium, -, -, hfits, hleft⟩ := write_entries_on_disk_iff.mp hwrite
  have hbytes := File.bytes_ofBytes (hfits.trans_lt medium.addressable)
  refine ⟨latest, _, hlatest, hstats, hleft, hbytes, ?_⟩
  rw [hbytes]
  refine read_archive_wire (List.forall_mem_map.mpr fun record hrecord => ?_)
  rcases hfile : disk.read source with _ | content
  · rw [hfile] at hread
    cases hread
  · rw [hfile] at hread
    exact readable_of_read hread record (List.mem_filter.mp hrecord).1

end Runs

end Aethon.Storage
