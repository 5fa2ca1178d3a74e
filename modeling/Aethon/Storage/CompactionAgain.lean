import Aethon.Storage.CompactionLatest

/-!
# Compacting again

A record that is kept is the latest of its device among all records, so it is the latest among those
that are kept: compacting the output again has nothing left to drop. `compaction_again` says so for
all filters together.
-/

namespace Aethon.Storage

open Actions FileSystem Codec Protocol

/-! ## The fates of the second pass -/

/-- The filters on single records look at what is written of a record. -/
theorem admits_of_entry {record other : ArchiveRecord} (h : other.entry = record.entry)
    (options : CompactionOptions) : options.admits other = options.admits record := by
  obtain ⟨htime, hpacket⟩ := Prod.mk.inj h
  simp only [CompactionOptions.admits, ArchiveQuery.accepts, ArchiveQuery.passes,
    ArchiveQuery.ofDevice, ArchiveQuery.ofKind, ArchiveRecord.payloadSize, htime,
    hpacket]

section Kept

variable {options : CompactionOptions} {latest latest' : Std.ExtTreeMap DeviceId UInt32}
  {records records' : List ArchiveRecord}

/-- What is kept among some records is kept among fewer of them. -/
theorem keeps_among_fewer (h : options.keepLatestPerDevice = true → LatestOf latest records)
    (h' : options.keepLatestPerDevice = true → LatestOf latest' records')
    (hfewer : ∀ other ∈ records', ∃ original ∈ records, other.entry = original.entry)
    {record other : ArchiveRecord} (hentry : other.entry = record.entry)
    (hkeeps : options.keeps latest record = true) : options.keeps latest' other = true := by
  obtain ⟨-, hpacket⟩ := Prod.mk.inj hentry
  rw [CompactionOptions.keeps, Bool.and_eq_true, Bool.not_eq_true'] at hkeeps ⊢
  refine ⟨(admits_of_entry hentry options).trans hkeeps.1, ?_⟩
  cases hlatest : options.keepLatestPerDevice with
  | false => rfl
  | true =>
    have hfirst := hkeeps.2
    rw [hlatest, Bool.true_and, ← Bool.not_eq_true, (h hlatest).is_superseded_iff] at hfirst
    rw [Bool.true_and, ← Bool.not_eq_true, (h' hlatest).is_superseded_iff, hpacket]
    -- a record that superseded it the second time would have done so the first time
    intro hsuperseded
    obtain ⟨rival, hrival, hdevice, hlater⟩ := hsuperseded
    obtain ⟨original, horiginal, hsame⟩ := hfewer rival hrival
    obtain ⟨-, hrivalPacket⟩ := Prod.mk.inj hsame
    rw [hrivalPacket] at hdevice hlater
    exact hfirst ⟨original, horiginal, hdevice, hlater⟩

/-- So every record of a copy of the records that are kept is kept again. -/
theorem keeps_copied (h : options.keepLatestPerDevice = true → LatestOf latest records)
    (h' : options.keepLatestPerDevice = true → LatestOf latest' records')
    (hcopy : records'.map ArchiveRecord.entry =
      (records.filter (options.keeps latest)).map ArchiveRecord.entry) :
    ∀ record ∈ records', options.keeps latest' record = true := by
  have horiginal : ∀ other ∈ records', ∃ original ∈ records,
      options.keeps latest original = true ∧ other.entry = original.entry := by
    intro other hother
    have hmem := List.mem_map_of_mem (f := ArchiveRecord.entry) hother
    rw [hcopy] at hmem
    obtain ⟨original, horiginal, hentry⟩ := List.mem_map.mp hmem
    obtain ⟨hrecord, hkeeps⟩ := List.mem_filter.mp horiginal
    exact ⟨original, hrecord, hkeeps, hentry.symm⟩
  intro record hrecord
  obtain ⟨original, -, hkeeps, hentry⟩ := horiginal record hrecord
  refine keeps_among_fewer h h' (fun other hother => ?_) hentry hkeeps
  obtain ⟨original, horiginal, -, hentry⟩ := horiginal other hother
  exact ⟨original, horiginal, hentry⟩

end Kept

/-! ## The statistics -/

/-- Every fate is one of four. -/
theorem length_eq_counts (fates : List RecordFate) :
    fates.length = fates.count .written + fates.count .droppedByQuery +
      fates.count .droppedEmpty + fates.count .droppedSuperseded := by
  induction fates with
  | nil => rfl
  | cons fate fates ih =>
    rw [List.length_cons, ih]
    cases fate
    all_goals
      simp only [List.count_cons, beq_self_eq_true, if_true]
      simp
      omega

/-- A compaction counts the records that it reads. -/
theorem stats_of_records_read (options : CompactionOptions)
    (latest : Std.ExtTreeMap DeviceId UInt32) {records : List ArchiveRecord}
    (hlength : records.length < 2 ^ 64) :
    (options.statsOf latest records).recordsRead.toNat = records.length := by
  rw [CompactionOptions.statsOf, CompactionStats.records_read_foldl, List.length_map]
  show (0 + _ : UInt64).toNat = _
  rw [UInt64.zero_add]
  exact UInt64.toNat_ofNat_of_lt' hlength

/-- Each counter counts the records of its fate. -/
theorem stats_of_counter (options : CompactionOptions)
    (latest : Std.ExtTreeMap DeviceId UInt32) {records : List ArchiveRecord}
    (hlength : records.length < 2 ^ 64) (fate : RecordFate) :
    ((options.statsOf latest records).counter fate).toNat =
      (records.map (options.fate latest)).count fate := by
  have hle : (records.map (options.fate latest)).count fate ≤ records.length :=
    List.count_le_length.trans (List.length_map _).le
  rw [CompactionOptions.statsOf, CompactionStats.counter_foldl]
  have hzero : ({} : CompactionStats).counter fate = 0 := by cases fate <;> rfl
  rw [hzero, UInt64.zero_add]
  exact UInt64.toNat_ofNat_of_lt' (hle.trans_lt hlength)

/-- The records that are written are those that are kept. -/
theorem count_written (options : CompactionOptions) (latest : Std.ExtTreeMap DeviceId UInt32)
    (records : List ArchiveRecord) : (records.map (options.fate latest)).count .written =
      (records.filter (options.keeps latest)).length := by
  rw [List.count_eq_countP, List.countP_map, List.countP_eq_length_filter]
  refine congrArg List.length (List.filter_congr fun record _ => ?_)
  rw [CompactionOptions.keeps_eq_fate]
  rfl

/-- The counters of the fates add up to the records that were read. -/
theorem stats_of_exact (options : CompactionOptions)
    (latest : Std.ExtTreeMap DeviceId UInt32) {records : List ArchiveRecord}
    (hlength : records.length < 2 ^ 64) :
    let stats := options.statsOf latest records
    stats.recordsRead.toNat = stats.recordsWritten.toNat + stats.recordsDroppedByQuery.toNat +
      stats.recordsDroppedEmpty.toNat + stats.recordsDroppedSuperseded.toNat := by
  intro stats
  have hcounts := length_eq_counts (records.map (options.fate latest))
  rw [List.length_map, ← stats_of_counter options latest hlength,
    ← stats_of_counter options latest hlength, ← stats_of_counter options latest hlength,
    ← stats_of_counter options latest hlength] at hcounts
  exact (stats_of_records_read options latest hlength).trans hcounts

/-- The statistics count a compaction that wrote every record that it read. -/
def CompactionStats.DropsNone (stats : CompactionStats) : Prop :=
  stats.recordsWritten = stats.recordsRead ∧ stats.recordsDroppedByQuery = 0 ∧
    stats.recordsDroppedEmpty = 0 ∧ stats.recordsDroppedSuperseded = 0

/-- Nothing is dropped where everything is kept. -/
theorem drops_none_of_kept {options : CompactionOptions}
    {latest : Std.ExtTreeMap DeviceId UInt32} {records : List ArchiveRecord}
    (hlength : records.length < 2 ^ 64)
    (hkept : ∀ record ∈ records, options.keeps latest record = true) :
    (options.statsOf latest records).DropsNone := by
  have hread := stats_of_records_read options latest hlength
  have hwritten := stats_of_counter options latest hlength .written
  rw [count_written, List.filter_eq_self.mpr hkept] at hwritten
  have hexact := stats_of_exact options latest hlength
  dsimp only at hexact
  simp only [CompactionStats.DropsNone, ← UInt64.toNat_inj, UInt64.toNat_zero]
  have hcounter : (options.statsOf latest records).recordsWritten.toNat = records.length := hwritten
  omega

/-! ## The second run -/

section Runs

variable {κ : Type} [DecidableEq κ]
  (overwritten : ArchiveReader → List ArchiveRecord × Option Error)
  {source destination again : Path}
  {options : CompactionOptions} {disk : Disk Path κ} {header : ArchiveSummary}
  {records : List ArchiveRecord}

/-- Compacting a copy of the records that are kept with the same options writes the same archive and
drops nothing. -/
theorem compaction_of_kept {latest : Std.ExtTreeMap DeviceId UInt32} {summary : ArchiveSummary}
    {written : List ArchiveRecord}
    (hlatest : options.keepLatestPerDevice = true → LatestOf latest records)
    (hleft : readArchive (disk.read source) = .ok (summary, written))
    (hcopy : written.map ArchiveRecord.entry =
      (records.filter (options.keeps latest)).map ArchiveRecord.entry)
    (hapart : disk.locate destination ≠ disk.locate source) {stats : CompactionStats}
    {left : Disk Path κ} (hrun :
      start (compactArchive overwritten source destination options) disk = (.ok stats, left)) :
    readArchive (left.read destination) = .ok (summarize {} (written.map ArchiveRecord.entry),
        recordsAt 36 (written.map ArchiveRecord.entry)) ∧
      stats.DropsNone := by
  obtain ⟨latest', file, hlatest', rfl, rfl, -, hwritten⟩ :=
    compaction_written overwritten hleft hapart hrun
  have hkept := keeps_copied hlatest hlatest' hcopy
  have hput : (disk.put (disk.locate destination) (some file)).read destination =
      some file.bytes := Disk.read_put_same rfl file
  rw [List.filter_eq_self.mpr hkept] at hwritten
  exact ⟨hput ▸ hwritten, drops_none_of_kept (length_records_lt hleft) hkept⟩

/-- Whenever a compaction to a path apart from its source returns, it has written some of the
records of its source in their order and has counted each record that it read once. Compacting its
output again, to a path apart from that, with the same options writes the same records and drops
none. A call onto its own source truncates what it reads and is left out. -/
theorem compaction_again {content : Bytes} (hsource : disk.read source = some content)
    (hread : readArchive (some content) = .ok (header, records))
    (hapart : disk.locate destination ≠ disk.locate source)
    (hagain : disk.locate again ≠ disk.locate destination) :
    (OutputWritable disk destination true content.length → ∃ stats left,
      start (compactArchive overwritten source destination options) disk = (.ok stats, left)) ∧
    ∀ stats left,
      start (compactArchive overwritten source destination options) disk = (.ok stats, left) →
      ∃ summary written, readArchive (left.read destination) = .ok (summary, written) ∧
        (written.map ArchiveRecord.entry).Sublist (records.map ArchiveRecord.entry) ∧
        stats.recordsRead.toNat = records.length ∧
        stats.recordsWritten.toNat = written.length ∧
        stats.recordsRead.toNat = stats.recordsWritten.toNat + stats.recordsDroppedByQuery.toNat +
          stats.recordsDroppedEmpty.toNat + stats.recordsDroppedSuperseded.toNat ∧
        (OutputWritable disk again true content.length → ∃ stats' left',
          start (compactArchive overwritten destination again options) left =
            (.ok stats', left')) ∧
        ∀ stats' left', start (compactArchive overwritten destination again options) left =
            (.ok stats', left') →
          readArchive (left'.read again) = .ok (summary, written) ∧ stats'.DropsNone := by
  have hread' : readArchive (disk.read source) = .ok (header, records) := by rw [hsource, hread]
  refine ⟨compaction_returns overwritten options hsource hread hapart, fun stats left hrun => ?_⟩
  obtain ⟨latest, file, hlatest, rfl, rfl, hbytes, hwritten⟩ :=
    compaction_written overwritten hread' hapart hrun
  have hleft : (disk.put (disk.locate destination) (some file)).read destination =
      some file.bytes := Disk.read_put_same rfl file
  have hentries := entries_recordsAt 36
    ((records.filter (options.keeps latest)).map ArchiveRecord.entry)
  have hlength := length_records_lt hread'
  rw [hleft]
  refine ⟨_, _, hwritten, ?_, stats_of_records_read options latest hlength, ?_,
    stats_of_exact options latest hlength, ?_, ?_⟩
  · rw [hentries]
    exact List.filter_sublist.map ArchiveRecord.entry
  · have hcount := stats_of_counter options latest hlength .written
    rw [count_written] at hcount
    rw [length_recordsAt, List.length_map]
    exact hcount
  · intro hwritable
    obtain ⟨medium, hmedium, hroom⟩ := hwritable.room
    have hshorter : file.bytes.length ≤ content.length := by
      rw [hbytes]
      exact length_copy_le hread List.filter_sublist
    exact compaction_returns overwritten options hleft hwritten hagain
      ⟨.inl rfl, medium, hmedium, hshorter.trans hroom⟩
  · intro stats' left' hrun'
    rw [← hleft] at hwritten
    have hagain := compaction_of_kept overwritten hlatest hwritten hentries hagain hrun'
    rw [hentries] at hagain
    exact hagain

/-- Two readings of a device, of which the first is superseded. -/
theorem compaction_again_readings :
    ∃ stats left, start (compactArchive ArchiveReader.drain ⟨"day.ath"⟩ ⟨"latest.ath"⟩
        { dropEmptyPayloads := true, keepLatestPerDevice := true }) readingsDisk =
          (.ok stats, left) ∧
      stats.recordsRead.toNat = 2 ∧
      ∃ summary written stats' left',
        readArchive (left.read ⟨"latest.ath"⟩) = .ok (summary, written) ∧
        start (compactArchive ArchiveReader.drain ⟨"latest.ath"⟩ ⟨"again.ath"⟩
          { dropEmptyPayloads := true, keepLatestPerDevice := true }) left = (.ok stats', left') ∧
        readArchive (left'.read ⟨"again.ath"⟩) = .ok (summary, written) ∧ stats'.DropsNone := by
  obtain ⟨hsource, hlength, hread⟩ := read_two_readings
  obtain ⟨hreturns, hleaves⟩ := compaction_again ArchiveReader.drain hsource hread
    (show readingsDisk.locate ⟨"latest.ath"⟩ ≠ readingsDisk.locate ⟨"day.ath"⟩ by decide)
    (show readingsDisk.locate ⟨"again.ath"⟩ ≠ readingsDisk.locate ⟨"latest.ath"⟩ by decide)
  obtain ⟨stats, left, hrun⟩ := hreturns ⟨.inl rfl, smallMedium, rfl, hlength⟩
  obtain ⟨summary, written, hwritten, -, hcount, -, -, hreturns', hleaves'⟩ :=
    hleaves stats left hrun
  obtain ⟨stats', left', hrun'⟩ := hreturns' ⟨.inl rfl, smallMedium, rfl, hlength⟩
  obtain ⟨hsame, hnone⟩ := hleaves' stats' left' hrun'
  exact ⟨stats, left, hrun, hcount, summary, written, stats', left', hwritten, hrun', hsame, hnone⟩

end Runs

end Aethon.Storage
