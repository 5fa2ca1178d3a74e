import Aethon.Storage.RotationOverwrites

/-!
# The estimate of a rotation

The planner counts 16 bytes for a record besides its payload, which are those of the archive format.
A record holds its packet in a frame, though, and `rotation_estimate_short` says by how much its
size is underestimated.
-/

namespace Aethon.Storage

open Actions FileStream FileSystem Codec Protocol Parsing

/-- The bytes of a frame besides the payload: its header, length fields and checksum, the sections
and their terminator. -/
def frameOverhead (packet : Packet) : ℕ :=
  45 + packet.sectionsWire.length

theorem length_written (captureTimeNs : UInt64) (packet : Packet) :
    (recordWire captureTimeNs (packetFrame packet)).length =
      16 + packet.payload.length + frameOverhead packet := by
  rw [length_record_wire, length_packet_frame, frameOverhead]
  omega

theorem length_extend (writer : ArchiveWriter) (bytes : Bytes) (summary : ArchiveSummary) :
    (writer.extend bytes summary).out.content.length = writer.out.content.length + bytes.length :=
  List.length_append

/-- Both overloads agree on a record that was indexed. -/
theorem estimate_index_entry (record : ArchiveRecord) :
    record.indexEntry.estimateArchiveRecordBytes = record.estimateArchiveRecordBytes := rfl

/-- The estimate of a record is at most sixteen bytes and its payload. -/
theorem estimate_le (record : ArchiveRecord) :
    record.estimateArchiveRecordBytes.toNat ≤ 16 + record.packet.payload.length := by
  have hsize : record.payloadSize.toNat ≤ record.packet.payload.length := by
    rw [ArchiveRecord.payloadSize, UInt64.toNat_ofNat']
    exact Nat.mod_le _ _
  rw [ArchiveRecord.estimateArchiveRecordBytes, UInt64.toNat_add]
  refine (Nat.mod_le _ _).trans ?_
  show 16 + record.payloadSize.toNat ≤ _
  omega

/-- The estimate is exact for a record that can be read. -/
theorem estimate_eq {record : ArchiveRecord} (h : ReadableLimits record.packet) :
    record.estimateArchiveRecordBytes.toNat = 16 + record.packet.payload.length := by
  have hmax : ({} : DecodeOptions).maxPacketSize < 2 ^ 32 := by decide
  have hlimit := h.size
  have hsize : record.payloadSize.toNat = record.packet.payload.length := by
    rw [ArchiveRecord.payloadSize]
    exact UInt64.toNat_ofNat_of_lt' (by show _ < 2 ^ 64; omega)
  rw [ArchiveRecord.estimateArchiveRecordBytes, Words.toNat_add_of_lt] <;> rw [hsize]
  · rfl
  · show 16 + _ < 2 ^ 64
    omega

/-- The bytes of an archive, by the estimates of its records. -/
theorem length_archive_of_estimates {records : List ArchiveRecord}
    (h : ∀ record ∈ records, ReadableLimits record.packet) :
    (archiveWire (records.map ArchiveRecord.entry)).length =
      36 + (records.map fun record =>
        record.estimateArchiveRecordBytes.toNat + frameOverhead record.packet).sum := by
  have hrecords : (recordsWire (records.map ArchiveRecord.entry)).length =
      (records.map fun record =>
        record.estimateArchiveRecordBytes.toNat + frameOverhead record.packet).sum := by
    rw [recordsWire, List.length_flatMap, List.map_map]
    refine congrArg List.sum (List.map_congr_left fun record hrecord => ?_)
    rw [estimate_eq (h record hrecord)]
    exact length_written _ _
  simp only [archiveWire, List.length_append, length_archive_magic, length_summary_wire, hrecords]

/-! ## Shards -/

section Shards

variable {κ : Type} [DecidableEq κ] {flushed : Bytes → Bytes} {disk disk' : Disk Path κ}

/-- A shard that is written without overwriting is written all the same with it. -/
theorem execute_shard_overwriting {options : RotationExecutionOptions}
    {report report' : RotationExecutionReport} {shard : RotationShard}
    (h : start (executeShard flushed options report shard) disk = (.ok report', disk')) :
    start (executeShard flushed { overwriteOutputs := true } report shard) disk =
      (.ok report', disk') := by
  rw [executeShard, start_bind_ok_iff] at h ⊢
  obtain ⟨warnings, middle, hoverwrite, hrest⟩ := h
  refine ⟨warnings, middle, ?_, hrest⟩
  rw [ensureOutputAvailable, start_get_bind] at hoverwrite ⊢
  split
  · next hfile =>
    rw [if_pos hfile, start_rejectIf_bind_ok_iff] at hoverwrite
    rw [start_rejectIf_bind_ok_iff]
    exact ⟨by decide, hoverwrite.2⟩
  · next hfile => rwa [if_neg hfile] at hoverwrite

/-- The file of a shard that was written, by the estimates of the records in it. -/
theorem shard_file_length {options : RotationExecutionOptions}
    {report report' : RotationExecutionReport} {shard : RotationShard}
    (h : start (executeShard flushed options report shard) disk = (.ok report', disk')) :
    ∃ content header records, disk'.read shard.outputPath = some content ∧
      readArchive (some content) = .ok (header, records) ∧
      content.length = 36 + (records.map fun record =>
        record.estimateArchiveRecordBytes.toNat + frameOverhead record.packet).sum := by
  obtain ⟨founds, medium, hfinds, -, hfits, rfl, -⟩ :=
    execute_shard_ok_iff.mp (execute_shard_overwriting h)
  have hread : (disk.put (disk.locate shard.outputPath) (archiveFile (foundEntries founds))).read
      shard.outputPath = some (archiveWire (foundEntries founds)) := by
    rw [archiveFile, Disk.read_put_same rfl, File.bytes_ofBytes (hfits.trans_lt medium.addressable)]
  have hrecords : ∀ record ∈ recordsAt 36 (foundEntries founds), ReadableLimits record.packet := by
    intro record hrecord
    refine hfinds.readable record.entry ?_
    rw [← entries_recordsAt 36 (foundEntries founds)]
    exact List.mem_map_of_mem hrecord
  refine ⟨_, _, _, hread, read_archive_wire hfinds.readable, ?_⟩
  rw [← length_archive_of_estimates hrecords, entries_recordsAt]

end Shards

/-- For no record the estimate is what an append writes: it is short of the frame around the
payload, which is 45 bytes and the sections. The file of a shard is within a limit exactly where
that leaves room for the frames of the records besides their estimates. -/
theorem rotation_estimate_short (record : ArchiveRecord) {κ : Type} [DecidableEq κ]
    (flushed : Bytes → Bytes) (options : RotationExecutionOptions) (shard : RotationShard) :
    (∀ (medium : Medium) (entries : List (UInt64 × Packet))
        (created writer writer' : ArchiveWriter),
      ArchiveWriter.create (some medium) = .ok created →
      start (forM entries fun entry => ArchiveWriter.append entry.1 entry.2) created =
        (.ok (), writer) →
      start (ArchiveWriter.append record.captureTimeNs record.packet) writer = (.ok (), writer') →
      writer.out.content.length + record.estimateArchiveRecordBytes.toNat +
        frameOverhead record.packet ≤ writer'.out.content.length ∧
      45 ≤ frameOverhead record.packet) ∧
    ∀ (disk disk' : Disk Path κ) (report report' : RotationExecutionReport),
      start (executeShard flushed options report shard) disk = (.ok report', disk') →
      ∃ content header records, disk'.read shard.outputPath = some content ∧
        readArchive (some content) = .ok (header, records) ∧
        ∀ limit, content.length ≤ limit ↔ 36 + (records.map fun record =>
          record.estimateArchiveRecordBytes.toNat + frameOverhead record.packet).sum ≤ limit := by
  refine ⟨?_, ?_⟩
  · intro medium entries created writer writer' hcreate hentries happend
    obtain ⟨hroom, hcreated⟩ := create_ok_iff.mp hcreate
    have hopened : created.AtEnd := by
      rw [hcreated]
      exact ⟨rfl, rfl, hroom⟩
    obtain ⟨⟨-, hfits⟩, rfl⟩ := (append_all_ok_iff hopened).mp hentries
    obtain ⟨-, rfl⟩ := (append_ok_iff (hopened.extend hfits)).mp happend
    refine ⟨?_, Nat.le_add_right _ _⟩
    have hle := estimate_le record
    simp only [length_extend, length_written]
    omega
  · intro disk disk' report report' hrun
    obtain ⟨content, header, records, hread, harchive, hlength⟩ := shard_file_length hrun
    exact ⟨content, header, records, hread, harchive, fun limit => by rw [hlength]⟩

/-! ## A shard over its limit -/

/-- Two records of one payload byte, in an archive of at most 70 bytes by the estimate. -/
def shortPlan : RotationPlan :=
  let records := [onlyRecord ⟨"incoming.ath"⟩ 1000, onlyRecord ⟨"archive_000000.ath"⟩ 2000]
  planRecords (.begun { maxEstimatedFileBytes := 70 } twoArchives records) ⟨"out"⟩ records

theorem short_planned : planArchiveRotation twoArchivesDisk twoArchives
    { maxEstimatedFileBytes := 70 } ⟨"out"⟩ = .ok shortPlan :=
  plan_archive_rotation_ok_iff.mpr ⟨by decide, by decide, _, two_archives_collected,
    (if_pos (Or.inl (List.cons_ne_nil _ _))).symm⟩

/-- What is found for the two records of the plan. -/
theorem short_finds {output : Path} (hincoming : ⟨"incoming.ath"⟩ ≠ output)
    (hlater : ⟨"archive_000000.ath"⟩ ≠ output) (content : Bytes) :
    Finds (seenFile (fun _ => []) twoArchivesDisk output) content
      [onlyRecord ⟨"incoming.ath"⟩ 1000, onlyRecord ⟨"archive_000000.ath"⟩ 2000]
      [some ⟨36, 1000, { payload := [1] }⟩, some ⟨36, 2000, { payload := [1] }⟩] := by
  obtain ⟨hread, hread'⟩ := read_two_archives
  have hseen : ∀ {path : Path} {time : UInt64} (content : Bytes), path ≠ output →
      twoArchivesDisk.read path = some (archiveOfOne time) →
      readRecordAt (seenFile (fun _ => []) twoArchivesDisk output content path) 36 =
        .ok (some ⟨36, time, { payload := [1] }⟩) := by
    intro path time content hapart hread
    rw [seenFile, if_neg (show twoArchivesDisk.locate path ≠ twoArchivesDisk.locate output from
      hapart), hread]
    exact read_archive_of_one time
  exact Finds.cons (hseen _ hincoming hread') (Finds.cons (hseen _ hlater hread) (Finds.nil _))

/-- The estimate of each record is 17 bytes, of which 62 are written, and the archive has 160. -/
theorem rotation_exceeds_limit :
    ∃ shard report disk' content,
      planArchiveRotation twoArchivesDisk twoArchives { maxEstimatedFileBytes := 70 } ⟨"out"⟩ =
        .ok shortPlan ∧
      shortPlan.shards = [shard] ∧ shard.records.length = 2 ∧ shard.estimatedFileBytes = 70 ∧
      start (executeArchiveRotation (fun _ => []) shortPlan { overwriteOutputs := true })
        twoArchivesDisk = (.ok report, disk') ∧
      disk'.read shard.outputPath = some content ∧ content.length = 160 ∧
      (ArchiveRecord.mk 36 1000 { payload := [1] }).estimateArchiveRecordBytes = 17 ∧
      (recordWire 1000 (packetFrame { payload := [1] })).length = 62 := by
  obtain ⟨shard, hshards, hrecords, hestimate, hincoming, hlater⟩ : ∃ shard,
      shortPlan.shards = [shard] ∧ shard.records =
        [onlyRecord ⟨"incoming.ath"⟩ 1000, onlyRecord ⟨"archive_000000.ath"⟩ 2000] ∧
      shard.estimatedFileBytes = 70 ∧ ⟨"incoming.ath"⟩ ≠ shard.outputPath ∧
      ⟨"archive_000000.ath"⟩ ≠ shard.outputPath :=
    ⟨_, rfl, by decide, by decide, by decide, by decide⟩
  have hfinds := short_finds hincoming hlater openedWire
  rw [← hrecords] at hfinds
  have hlength : (archiveWire [(1000, { payload := [1] }), (2000, { payload := [1] })]).length =
      160 := by
    simp [archiveWire, recordsWire, length_packet_frame, Packet.sectionsWire]
  have hroom : _ ≤ smallMedium.capacity := hlength.le.trans (by decide)
  have hrotates := Rotates.cons hfinds rfl hroom (Rotates.nil _)
  rw [← hshards] at hrotates
  obtain ⟨report, hrun⟩ := execute_rotation_sound (by decide) hrotates
  refine ⟨shard, report, _, _, short_planned, hshards, by rw [hrecords]; rfl, hestimate, hrun, ?_,
    hlength, by decide, ?_⟩
  · rw [archiveFile]
    exact (Disk.read_put_same rfl _).trans
      (congrArg some (File.bytes_ofBytes (hlength.trans_lt (by decide))))
  · simp [length_packet_frame, Packet.sectionsWire]

end Aethon.Storage
