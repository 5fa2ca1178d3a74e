import Aethon.Storage.CompactionCopy
import Mathlib.Data.List.MinMax

/-!
# The latest records of a compaction

The first pass takes the latest sequence of a device over all of its records, also those that the
other filters drop. `compaction_keeps_latest_iff` says when the latest of the others is still kept.
-/

namespace Aethon.Storage

open Actions FileSystem Codec Protocol Parsing

variable {κ : Type} [DecidableEq κ]

/-! ## The latest records -/

/-- Each device with a record that was let through keeps those of them that have the highest
sequence among them. -/
def KeepsLatest (options : CompactionOptions) (records written : List ArchiveRecord) : Prop :=
  ∀ record ∈ records, options.admits record = true →
    (written.filter fun other => other.packet.device = record.packet.device).map
        ArchiveRecord.entry =
      (records.filter fun other => options.admits other ∧
        other.packet.device = record.packet.device ∧
        ∀ rival ∈ records, options.admits rival → rival.packet.device = record.packet.device →
          rival.packet.sequence ≤ other.packet.sequence).map ArchiveRecord.entry

/-- The filters let through a record with the highest sequence of each device that they do not
drop. -/
def LatestAdmitted (options : CompactionOptions) (records : List ArchiveRecord) : Prop :=
  ∀ record ∈ records, options.admits record = true → ∃ best ∈ records,
    options.admits best = true ∧ best.packet.device = record.packet.device ∧
    ∀ other ∈ records, other.packet.device = record.packet.device →
      other.packet.sequence ≤ best.packet.sequence

/-- Among the records of a device that were let through one has the highest sequence. -/
theorem exists_latest {options : CompactionOptions} {records : List ArchiveRecord}
    {record : ArchiveRecord} (hrecord : record ∈ records) (hadmits : options.admits record = true) :
    ∃ best ∈ records, options.admits best = true ∧
      best.packet.device = record.packet.device ∧ ∀ rival ∈ records, options.admits rival = true →
        rival.packet.device = record.packet.device →
          rival.packet.sequence ≤ best.packet.sequence := by
  let rivals := records.filter fun rival =>
    options.admits rival ∧ rival.packet.device = record.packet.device
  have hrivals (rival : ArchiveRecord) : rival ∈ rivals ↔ rival ∈ records ∧
      options.admits rival = true ∧ rival.packet.device = record.packet.device := by
    rw [List.mem_filter, decide_eq_true_iff]
  rcases hbest : rivals.argmax fun rival => rival.packet.sequence.toNat with _ | best
  · have hnone := (hrivals record).mpr ⟨hrecord, hadmits, rfl⟩
    rw [List.argmax_eq_none.mp hbest] at hnone
    exact absurd hnone List.not_mem_nil
  · obtain ⟨hmem, hpasses, hsame⟩ := (hrivals best).mp (List.argmax_mem hbest)
    refine ⟨best, hmem, hpasses, hsame, fun rival hrival hrivalAdmits hrivalDevice => ?_⟩
    have hle : rival.packet.sequence.toNat ≤ best.packet.sequence.toNat :=
      @List.le_of_mem_argmax _ _ _ (fun rival : ArchiveRecord => rival.packet.sequence.toNat) _ _ _
        ((hrivals rival).mpr ⟨hrival, hrivalAdmits, hrivalDevice⟩) hbest
    exact UInt32.le_iff_toNat_le.mpr hle

/-- A record is kept when it is admitted and nothing of its device is later. -/
theorem keeps_iff {options : CompactionOptions} {latest : Std.ExtTreeMap DeviceId UInt32}
    {records : List ArchiveRecord} (h : LatestOf latest records)
    (hlatest : options.keepLatestPerDevice = true) (record : ArchiveRecord) :
    options.keeps latest record = true ↔ options.admits record = true ∧
      ∀ other ∈ records, other.packet.device = record.packet.device →
        other.packet.sequence ≤ record.packet.sequence := by
  rw [CompactionOptions.keeps, hlatest, Bool.true_and, Bool.and_eq_true, Bool.not_eq_true',
    ← Bool.not_eq_true, h.is_superseded_iff]
  refine and_congr_right fun _ => ?_
  simp only [not_exists, not_and, UInt32.not_lt]

/-- Of a device the records that are kept are written. -/
theorem written_of_device {keeps : ArchiveRecord → Bool} {records written : List ArchiveRecord}
    (hwritten : written.map ArchiveRecord.entry =
      (records.filter keeps).map ArchiveRecord.entry) (device : DeviceId) :
    (written.filter fun other => other.packet.device = device).map ArchiveRecord.entry =
      (records.filter fun other => keeps other && other.packet.device = device).map
        ArchiveRecord.entry := by
  rw [← entriesOf_map, hwritten, entriesOf_map, List.filter_filter]
  simp only [Bool.and_comm]

section Kept

variable {options : CompactionOptions} {latest : Std.ExtTreeMap DeviceId UInt32}
  {records written : List ArchiveRecord}

/-- The best of the records that were let through can only be written if none of the others is
better. -/
theorem latest_admitted_of_kept (h : LatestOf latest records)
    (hlatest : options.keepLatestPerDevice = true)
    (hwritten : written.map ArchiveRecord.entry =
      (records.filter (options.keeps latest)).map ArchiveRecord.entry)
    (hkept : KeepsLatest options records written) : LatestAdmitted options records := by
  intro record hrecord hadmits
  obtain ⟨best, hbest, hpasses, hsame, hhighest⟩ := exists_latest hrecord hadmits
  refine ⟨best, hbest, hpasses, hsame, fun other hother hotherDevice => ?_⟩
  have hamong : best ∈ records.filter fun other => options.admits other ∧
      other.packet.device = record.packet.device ∧
      ∀ rival ∈ records, options.admits rival → rival.packet.device = record.packet.device →
        rival.packet.sequence ≤ other.packet.sequence :=
    List.mem_filter.mpr ⟨hbest, decide_eq_true ⟨hpasses, hsame, hhighest⟩⟩
  have hlisted := List.mem_map_of_mem (f := ArchiveRecord.entry) hamong
  rw [← hkept record hrecord hadmits, written_of_device hwritten] at hlisted
  obtain ⟨copied, hcopied, hentry⟩ := List.mem_map.mp hlisted
  obtain ⟨hkeeps, hdevice⟩ := Bool.and_eq_true_iff.mp (List.mem_filter.mp hcopied).2
  have hpacket : copied.packet = best.packet := congrArg Prod.snd hentry
  rw [← hpacket]
  exact ((keeps_iff h hlatest copied).mp hkeeps).2 other hother
    (hotherDevice.trans (of_decide_eq_true hdevice).symm)

/-- The latest record of each device is kept when it is admitted. -/
theorem kept_of_latest_admitted (h : LatestOf latest records)
    (hlatest : options.keepLatestPerDevice = true)
    (hwritten : written.map ArchiveRecord.entry =
      (records.filter (options.keeps latest)).map ArchiveRecord.entry)
    (hadmitted : LatestAdmitted options records) : KeepsLatest options records written := by
  intro record hrecord hadmits
  obtain ⟨best, hbest, hpasses, hsame, hhighest⟩ := hadmitted record hrecord hadmits
  rw [written_of_device hwritten]
  refine congrArg (List.map ArchiveRecord.entry) (List.filter_congr fun other hother => ?_)
  rw [Bool.eq_iff_iff, Bool.and_eq_true, keeps_iff h hlatest, decide_eq_true_iff,
    decide_eq_true_iff]
  constructor
  · intro hkeeps
    obtain ⟨⟨hother, hall⟩, hdevice⟩ := hkeeps
    exact ⟨hother, hdevice, fun rival hrival _ hrivalDevice =>
      hall rival hrival (hrivalDevice.trans hdevice.symm)⟩
  · intro hamong
    obtain ⟨hother, hdevice, hall⟩ := hamong
    exact ⟨⟨hother, fun rival hrival hrivalDevice => UInt32.le_trans
      (hhighest rival hrival (hrivalDevice.trans hdevice)) (hall best hbest hpasses hsame)⟩,
      hdevice⟩

/-- What is kept are the latest of the records that were let through exactly when these are the
latest of all. -/
theorem keeps_latest_iff (h : LatestOf latest records)
    (hlatest : options.keepLatestPerDevice = true)
    (hwritten : written.map ArchiveRecord.entry =
      (records.filter (options.keeps latest)).map ArchiveRecord.entry) :
    KeepsLatest options records written ↔ LatestAdmitted options records :=
  ⟨latest_admitted_of_kept h hlatest hwritten, kept_of_latest_admitted h hlatest hwritten⟩

end Kept

section Runs

variable (overwritten : ArchiveReader → List ArchiveRecord × Option Error)
  {source destination : Path} {options : CompactionOptions} {disk : Disk Path κ}
  {content : Bytes} {header : ArchiveSummary} {records : List ArchiveRecord}

/-- A compaction that returns leaves an archive, with the latest records exactly when the filters
let them through. -/
theorem compaction_leaves (hsource : disk.read source = some content)
    (hread : readArchive (some content) = .ok (header, records))
    (hapart : disk.locate destination ≠ disk.locate source)
    (hlatest : options.keepLatestPerDevice = true) {stats : CompactionStats}
    {left : Disk Path κ} (hrun :
      start (compactArchive overwritten source destination options) disk = (.ok stats, left)) :
    stats.Balanced ∧ ∃ summary written, readArchive (left.read destination) =
        .ok (summary, written) ∧
      (KeepsLatest options records written ↔ LatestAdmitted options records) := by
  obtain ⟨latest, file, hlatestOf, rfl, rfl, -, hleft⟩ :=
    compaction_written overwritten (hsource.symm ▸ hread) hapart hrun
  have hput : (disk.put (disk.locate destination) (some file)).read destination =
      some file.bytes := Disk.read_put_same rfl file
  rw [← hput] at hleft
  exact ⟨options.stats_of_balanced latest records, _, _, hleft,
    keeps_latest_iff (hlatestOf hlatest) hlatest (entries_recordsAt 36 _)⟩

/-- Apart from its source and with room for as many bytes, a compaction returns. Whenever it does,
each device keeps its latest records exactly when the filters let its latest record through. A call
onto its own source, which throws for every archive with a record, is left out. -/
theorem compaction_keeps_latest_iff (hsource : disk.read source = some content)
    (hread : readArchive (some content) = .ok (header, records))
    (hapart : disk.locate destination ≠ disk.locate source)
    (hlatest : options.keepLatestPerDevice = true) :
    (OutputWritable disk destination true content.length → ∃ stats left,
      start (compactArchive overwritten source destination options) disk = (.ok stats, left)) ∧
    ∀ stats left,
      start (compactArchive overwritten source destination options) disk = (.ok stats, left) →
        stats.Balanced ∧ ∃ summary written,
          readArchive (left.read destination) = .ok (summary, written) ∧
          (KeepsLatest options records written ↔ LatestAdmitted options records) :=
  ⟨compaction_returns overwritten options hsource hread hapart, fun _ _ hrun =>
    compaction_leaves overwritten hsource hread hapart hlatest hrun⟩

end Runs

/-! ## A device that is lost -/

/-- Two observations of one device. -/
def twoReadings : List (UInt64 × Packet) :=
  [(1000, { sequence := 1, payload := [1] }), (2000, { sequence := 2, payload := [2] })]

/-- A disk with an archive of two readings. -/
def readingsDisk : Disk Path Path :=
  diskOf [(⟨"day.ath"⟩, twoReadings)]

/-- The archive of two readings is read with its records. -/
theorem read_two_readings :
    readingsDisk.read ⟨"day.ath"⟩ = some (archiveWire twoReadings) ∧
      (archiveWire twoReadings).length ≤ 1000 ∧
      readArchive (some (archiveWire twoReadings)) =
        .ok (summarize {} twoReadings, recordsAt 36 twoReadings) := by
  have hlength : (archiveWire twoReadings).length ≤ 1000 := by
    simp [twoReadings, archiveWire, recordsWire, length_packet_frame, Packet.sectionsWire]
  refine ⟨congrArg some (File.bytes_ofBytes (hlength.trans_lt (by decide))), hlength,
    read_archive_wire fun entry hentry => ?_⟩
  simp only [twoReadings, List.mem_cons, List.not_mem_nil, or_false] at hentry
  rcases hentry with rfl | rfl
  · exact readable_observation 0 1 (by decide)
  · exact readable_observation 0 2 (by decide)

/-- Without other filters the later reading is kept. -/
theorem compaction_keeps_latest_reading :
    ∃ stats left summary written, start (compactArchive ArchiveReader.drain ⟨"day.ath"⟩
        ⟨"latest.ath"⟩ { keepLatestPerDevice := true }) readingsDisk = (.ok stats, left) ∧
      readArchive (left.read ⟨"latest.ath"⟩) = .ok (summary, written) ∧
      KeepsLatest { keepLatestPerDevice := true } (recordsAt 36 twoReadings) written := by
  obtain ⟨hsource, hlength, hread⟩ := read_two_readings
  obtain ⟨hreturns, hleaves⟩ := compaction_keeps_latest_iff ArchiveReader.drain hsource hread
    (show readingsDisk.locate ⟨"latest.ath"⟩ ≠ readingsDisk.locate ⟨"day.ath"⟩ by decide)
    (show ({ keepLatestPerDevice := true } : CompactionOptions).keepLatestPerDevice = true from rfl)
  obtain ⟨stats, left, hrun⟩ := hreturns ⟨Or.inl rfl, smallMedium, rfl, hlength⟩
  obtain ⟨-, summary, written, hleft, hkept⟩ := hleaves stats left hrun
  have hadmitted : LatestAdmitted { keepLatestPerDevice := true } (recordsAt 36 twoReadings) := by
    unfold LatestAdmitted
    decide
  exact ⟨stats, left, summary, written, hrun, hleft, hkept.mpr hadmitted⟩

/-- The query drops the later reading, which still supersedes the earlier one. -/
theorem compaction_loses_device :
    let options : CompactionOptions :=
      { query := { endTimeNs := some 1000 }, keepLatestPerDevice := true }
    readArchive (readingsDisk.read ⟨"day.ath"⟩) =
        .ok (summarize {} twoReadings, recordsAt 36 twoReadings) ∧
      ∃ stats left summary written, start (compactArchive ArchiveReader.drain ⟨"day.ath"⟩
          ⟨"latest.ath"⟩ options) readingsDisk = (.ok stats, left) ∧
        readArchive (left.read ⟨"latest.ath"⟩) = .ok (summary, written) ∧
        ¬KeepsLatest options (recordsAt 36 twoReadings) written := by
  intro options
  obtain ⟨hsource, hlength, hread⟩ := read_two_readings
  have hwritable : OutputWritable readingsDisk ⟨"latest.ath"⟩ true
      (archiveWire twoReadings).length := ⟨Or.inl rfl, smallMedium, rfl, hlength⟩
  obtain ⟨stats, left, hrun⟩ := compaction_returns ArchiveReader.drain options hsource hread
    (by decide) hwritable
  obtain ⟨-, summary, written, hleft, hkept⟩ :=
    compaction_leaves ArchiveReader.drain hsource hread (by decide) rfl hrun
  refine ⟨by rw [hsource, hread], stats, left, summary, written, hrun, hleft, fun hall => ?_⟩
  obtain ⟨best, hbest, hpasses, -, hhighest⟩ :=
    hkept.mp hall ⟨36, 1000, { sequence := 1, payload := [1] }⟩ List.mem_cons_self (by decide)
  rcases List.mem_cons.mp hbest with rfl | hlater
  · have hle := hhighest _ (List.mem_cons_of_mem _ List.mem_cons_self) rfl
    exact absurd hle (by decide)
  · rw [List.mem_singleton.mp hlater] at hpasses
    exact absurd hpasses (by decide)

end Aethon.Storage
