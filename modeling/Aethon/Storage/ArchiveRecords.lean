import Mathlib.Data.List.Flatten
import Aethon.Storage.ArchiveFiles

/-!
# The records of archives on a disk

What a file holds that is read to its end, and how one of its records is read again by its offset.
The offsets increase in the order of the file, so `read_record_at` finds the record that it is asked
for.
-/

namespace Aethon.Storage

open FileSystem Codec Protocol Parsing

/-! ## Files that are read to their end -/

/-- The records of an archive that is read to its end. -/
def archiveRecords (file : Option Bytes) : List ArchiveRecord :=
  match readArchive file with
  | .error _ => []
  | .ok (_, records) => records

/-- An archive is read by draining it to its end. -/
theorem read_archive_reader_iff {file : Option Bytes} {header : ArchiveSummary}
    {records : List ArchiveRecord} :
    readArchive file = .ok (header, records) ↔ ∃ reader, ArchiveReader.ofFile file = .ok reader ∧
      reader.drain = (records, none) ∧ reader.summary = header := by
  simp only [readArchive, except_bind_ok_iff, except_pure_ok_iff, read_to_end_ok_iff,
    Prod.mk.injEq, ↓existsAndEq, and_true]

/-- The bytes of an archive read back as a header that matches and its records. -/
theorem read_archive_wire {entries : List (UInt64 × Packet)}
    (hlimits : ∀ entry ∈ entries, ReadableLimits entry.2) :
    readArchive (some (archiveWire entries)) =
      .ok (summarize {} entries, recordsAt 36 entries) := by
  have hstands := stands_of_entries 36 [] hlimits
  rw [List.append_nil] at hstands
  exact read_archive_ok_iff.mpr ⟨_, rfl, hstands⟩

/-- The records of a file that is read to its end stand one behind the other. -/
theorem offsets_increase_of_read {content : Bytes} {header : ArchiveSummary}
    {records : List ArchiveRecord} (h : readArchive (some content) = .ok (header, records))
    (hsize : content.length < 2 ^ 64) :
    records.Pairwise fun earlier later => earlier.offset < later.offset := by
  obtain ⟨body, rfl, hstands⟩ := read_archive_ok_iff.mp h
  simp only [List.length_append, length_archive_magic, length_summary_wire] at hsize
  exact hstands.offsets_increase (by omega)

/-- The records of a file that is read to its end stand at different offsets, and written again
they take no more bytes. -/
theorem records_of_read {content : Bytes} {header : ArchiveSummary} {records : List ArchiveRecord}
    (h : readArchive (some content) = .ok (header, records)) (hsize : content.length < 2 ^ 64) :
    (records.map ArchiveRecord.offset).Nodup ∧
      (recordsWire (records.map ArchiveRecord.entry)).length < 2 ^ 64 := by
  obtain ⟨body, rfl, hstands⟩ := read_archive_ok_iff.mp h
  simp only [List.length_append, length_archive_magic, length_summary_wire] at hsize
  have hlength := hstands.length_records_wire_le
  refine ⟨?_, by omega⟩
  rw [List.Nodup, List.pairwise_map]
  exact (hstands.offsets_increase (by omega)).imp UInt64.ne_of_lt

/-- Some of the records of a file, written to one of their own, take no more bytes than the file. -/
theorem length_copy_le {content : Bytes} {header : ArchiveSummary}
    {records kept : List ArchiveRecord} (h : readArchive (some content) = .ok (header, records))
    (hkept : kept.Sublist records) :
    (archiveWire (kept.map ArchiveRecord.entry)).length ≤ content.length := by
  obtain ⟨body, rfl, hstands⟩ := read_archive_ok_iff.mp h
  have hbody := hstands.length_records_wire_le
  have hpart : (recordsWire (kept.map ArchiveRecord.entry)).length ≤
      (recordsWire (records.map ArchiveRecord.entry)).length :=
    ((hkept.map ArchiveRecord.entry).flatMap _).length_le
  simp only [archiveWire, List.length_append, length_archive_magic, length_summary_wire]
  omega

/-- The packets of a file that is read are within the limits of the reader. -/
theorem readable_of_read {content : Bytes} {header : ArchiveSummary}
    {records : List ArchiveRecord} (h : readArchive (some content) = .ok (header, records)) :
    ∀ record ∈ records, ReadableLimits record.packet := by
  obtain ⟨body, rfl, hstands⟩ := read_archive_ok_iff.mp h
  exact hstands.readable

section Disks

variable {κ : Type}

/-- Every path leads to an archive that is read to its end. -/
def ReadableArchives (disk : Disk Path κ) (paths : List Path) : Prop :=
  ∀ path ∈ paths, ∃ header records, readArchive (disk.read path) = .ok (header, records)

theorem read_archive_of_readable {disk : Disk Path κ} {paths : List Path}
    (h : ReadableArchives disk paths) {path : Path} (hpath : path ∈ paths) :
    ∃ header, readArchive (disk.read path) = .ok (header, archiveRecords (disk.read path)) := by
  obtain ⟨header, records, hread⟩ := h path hpath
  exact ⟨header, by rw [archiveRecords, hread]⟩

/-- The records of an archive have growing offsets. -/
theorem offsets_increase (disk : Disk Path κ) (path : Path) :
    (archiveRecords (disk.read path)).Pairwise fun earlier later =>
      earlier.offset < later.offset := by
  unfold archiveRecords
  split
  · exact List.Pairwise.nil
  · rename_i header records hread
    rcases hfile : disk.read path with _ | content
    · rw [hfile] at hread
      cases hread
    · rw [hfile] at hread
      have hsize := Disk.read_addressable hfile
      exact offsets_increase_of_read hread (by omega)

/-- A file holds fewer records than a 64-bit count reaches. -/
theorem length_records_lt {disk : Disk Path κ} {path : Path} {header : ArchiveSummary}
    {records : List ArchiveRecord} (h : readArchive (disk.read path) = .ok (header, records)) :
    records.length < 2 ^ 64 := by
  rcases hfile : disk.read path with _ | content
  · rw [hfile] at h
    cases h
  · rw [hfile] at h
    have hsize := Disk.read_addressable hfile
    have hbytes := (records_of_read h (by omega)).2
    have hrecords := length_le_records_wire (records.map ArchiveRecord.entry)
    rw [List.length_map] at hrecords
    omega

/-- The records of a file stand at different offsets. -/
theorem offsets_distinct (disk : Disk Path κ) (path : Path) :
    ((archiveRecords (disk.read path)).map ArchiveRecord.offset).Nodup := by
  rw [List.Nodup, List.pairwise_map]
  exact (offsets_increase disk path).imp UInt64.ne_of_lt

end Disks

/-! ## Reading one record -/

/-- The loop ends at the first record that does not stand in front of the offset. -/
def readRecordAt (file : Option Bytes) (offset : UInt64) :
    Except Error (Option ArchiveRecord) := do
  let reader ← ArchiveReader.ofFile file
  let (records, ending) := reader.drain
  match records.find? fun record => record.offset ≥ offset with
  | some record => pure (if record.offset = offset then some record else none)
  | none =>
      endLoop ending
      pure none

/-- A record that was found stands at the offset, and its packet is within the limits of the
reader. -/
theorem read_record_at_some {file : Option Bytes} {offset : UInt64} {record : ArchiveRecord}
    (h : readRecordAt file offset = .ok (some record)) :
    record.offset = offset ∧ ReadableLimits record.packet := by
  simp only [readRecordAt, except_bind_ok_iff] at h
  obtain ⟨reader, hopen, hfound⟩ := h
  rcases file with _ | content
  · cases hopen
  rcases hfind : reader.drain.1.find? fun record => record.offset ≥ offset with _ | first
  · simp only [hfind, except_bind_ok_iff, except_pure_ok_iff, reduceCtorEq, and_false,
      exists_false] at hfound
  · simp only [hfind, except_pure_ok_iff, Option.ite_none_right_eq_some, Option.some.injEq]
      at hfound
    obtain ⟨hoffset, rfl⟩ := hfound
    obtain ⟨hgood, -, -⟩ := of_file_spec hopen
    obtain ⟨_, hstands, -⟩ := reader.drain_stands hgood
    exact ⟨hoffset, hstands.readable _ (List.mem_of_find?_eq_some hfind)⟩

/-- A record of a readable file is found at its offset. -/
theorem read_record_at_of_mem {content : Bytes} {header : ArchiveSummary}
    {records : List ArchiveRecord} (h : readArchive (some content) = .ok (header, records))
    (hsize : content.length < 2 ^ 63) {record : ArchiveRecord} (hrecord : record ∈ records) :
    readRecordAt (some content) record.offset = .ok (some record) := by
  obtain ⟨reader, hopen, hdrain, -⟩ := read_archive_reader_iff.mp h
  have hincrease := offsets_increase_of_read h (by omega)
  obtain ⟨front, behind, rfl⟩ := List.append_of_mem hrecord
  -- the records in front of it stand in front of its offset
  have hfind : (front ++ record :: behind).find? (fun other => other.offset ≥ record.offset) =
      some record := by
    refine List.find?_eq_some_iff_append.mpr ⟨by simp, front, behind, rfl, fun other hother => ?_⟩
    have hlt := (List.pairwise_append.mp hincrease).2.2 other hother record List.mem_cons_self
    simpa using hlt
  simp only [readRecordAt, hopen, except_bind_ok_iff]
  exact ⟨reader, rfl, by simp only [hdrain, hfind, if_true]; rfl⟩

/-! ## Disks of archives -/

/-- The file of an archive that was closed. -/
def archiveFile (entries : List (UInt64 × Packet)) : Option File :=
  some (File.ofBytes (archiveWire entries))

/-- A disk that holds archives of these entries. -/
def diskOf (archives : List (Path × List (UInt64 × Packet))) : Disk Path Path where
  locate := id
  medium _ := some smallMedium
  files path := (archives.lookup path).bind archiveFile

/-- An archive on the disk is read with its entries. -/
theorem read_disk_of {archives : List (Path × List (UInt64 × Packet))} {path : Path}
    {entries : List (UInt64 × Packet)} (hpath : archives.lookup path = some entries)
    (hlimits : ∀ entry ∈ entries, ReadableLimits entry.2)
    (hsize : (archiveWire entries).length < 2 ^ 63) :
    readArchive ((diskOf archives).read path) =
      .ok (summarize {} entries, recordsAt 36 entries) := by
  have hfile : (diskOf archives).read path = some (archiveWire entries) := by
    show ((archives.lookup path).bind archiveFile).map File.bytes = _
    rw [hpath]
    exact congrArg some (File.bytes_ofBytes hsize)
  rw [hfile, read_archive_wire hlimits]

/-! ## Two shifts -/

/-- The records of an early archive, which a late one overlaps. -/
def earlyShift : List (UInt64 × Packet) :=
  [(1000, { payload := [1] }), (3000, { kind := .heartbeat })]

/-- The records of a late archive. -/
def lateShift : List (UInt64 × Packet) :=
  [(2000, { kind := .heartbeat }), (4000, { kind := .heartbeat })]

/-- Two archives whose records interleave in time. -/
def shiftsDisk : Disk Path Path :=
  diskOf [(⟨"early.ath"⟩, earlyShift), (⟨"late.ath"⟩, lateShift)]

/-- The paths of the two archives. -/
def shifts : List Path :=
  [⟨"early.ath"⟩, ⟨"late.ath"⟩]

/-- Both archives are read with their records. -/
theorem read_shifts : readArchive (shiftsDisk.read ⟨"early.ath"⟩) =
      .ok (summarize {} earlyShift, recordsAt 36 earlyShift) ∧
    readArchive (shiftsDisk.read ⟨"late.ath"⟩) =
      .ok (summarize {} lateShift, recordsAt 36 lateShift) := by
  have hheartbeat : ReadableLimits { kind := .heartbeat } :=
    readable_plain 0 0 (by decide) (by decide)
  constructor
  · refine read_disk_of rfl (List.forall_mem_cons.mpr ⟨readable_observation 0 0 (by decide),
      List.forall_mem_singleton.mpr hheartbeat⟩) ?_
    simp [earlyShift, archiveWire, recordsWire, length_packet_frame, Packet.sectionsWire]
  · refine read_disk_of rfl (List.forall_mem_cons.mpr ⟨hheartbeat,
      List.forall_mem_singleton.mpr hheartbeat⟩) ?_
    simp [lateShift, archiveWire, recordsWire, length_packet_frame, Packet.sectionsWire]

theorem shifts_readable : ReadableArchives shiftsDisk shifts :=
  List.forall_mem_cons.mpr ⟨⟨_, _, read_shifts.1⟩,
    List.forall_mem_singleton.mpr ⟨_, _, read_shifts.2⟩⟩

end Aethon.Storage
