import Aethon.Protocol.PacketDecode
import Aethon.Storage.ArchiveReading
import Aethon.Storage.ArchiveWriting

/-!
# The archive round trip

The writer asks less of a packet than the reader: `ReadableLimits` is what the reader adds.
`reads_back_iff` says that an archive that was written reads back exactly when all its packets are
within these limits.
-/

namespace Aethon.Storage

open Actions FileStream Codec Protocol Parsing LittleEndian

/-! ## What the reader asks of a packet -/

/-- The packets whose records the reader returns. The limits of the wire format and the size of
the frame are checked when a record is read, but not when it is appended. -/
structure ReadableLimits (packet : Packet) : Prop extends WireLimits packet where
  size : 45 + packet.sectionsWire.length + packet.payload.length ≤
    ({} : DecodeOptions).maxPacketSize

theorem length_packet_frame (packet : Packet) : (packetFrame packet).length =
    45 + packet.sectionsWire.length + packet.payload.length := by
  simp [packetFrame, Packet.bodyWire, Packet.headerWire]
  omega

/-- A packet within the limits is decoded from its frame. -/
theorem ReadableLimits.decode {packet : Packet} (h : ReadableLimits packet) :
    (packetFrame packet).length ≤ ({} : DecodeOptions).maxPacketSize ∧
      decodePacket (packetFrame packet) = .ok packet := by
  have hsize : (packetFrame packet).length ≤ ({} : DecodeOptions).maxPacketSize := by
    rw [length_packet_frame]
    exact h.size
  exact ⟨hsize, decode_encode_packet h.toWireLimits (encode_packet_of_limits h.toWireLimits) hsize
    (hsize.trans_lt (by decide))⟩

/-- The encoder accepts a packet within the limits. -/
theorem ReadableLimits.encoder {packet : Packet} (h : ReadableLimits packet) :
    EncoderLimits packet :=
  (encode_packet_ok_iff.mp (encode_packet_of_limits h.toWireLimits)).1

/-- A packet that any frame within the size limit decodes to is within the limits. -/
theorem readable_of_decode {frame : Bytes} {packet : Packet}
    (hsize : frame.length ≤ ({} : DecodeOptions).maxPacketSize)
    (hdecode : decodePacket frame = .ok packet) : ReadableLimits packet := by
  have hshorter : (packetFrame packet).length ≤ frame.length := length_frame_le hdecode
  rw [length_packet_frame] at hshorter
  exact { decode_packet_limits hdecode with size := hshorter.trans hsize }

/-! ## Reading the records -/

/-- What was given to the writer for a record. -/
def ArchiveRecord.entry (record : ArchiveRecord) : UInt64 × Packet :=
  (record.captureTimeNs, record.packet)

/-- What `n` calls of `next` yield. -/
def ArchiveReader.readings (reader : ArchiveReader) (n : Nat) :
    List (Except Error (Option (UInt64 × Packet))) :=
  (outcomes ArchiveReader.next n reader).map fun outcome =>
    outcome.map fun record => record.map ArchiveRecord.entry

/-- The readings of a complete archive: each entry once, in order, and then the end. -/
def completeReadings (entries : List (UInt64 × Packet)) :
    List (Except Error (Option (UInt64 × Packet))) :=
  (entries.map fun entry => .ok (some entry)) ++ [.ok none]

theorem readings_succ (reader : ArchiveReader) (n : Nat) : reader.readings (n + 1) =
    (start ArchiveReader.next reader).1.map (fun record => record.map ArchiveRecord.entry) ::
      (start ArchiveReader.next reader).2.readings n := rfl

theorem completeReadings_cons (entry : UInt64 × Packet) (entries : List (UInt64 × Packet)) :
    completeReadings (entry :: entries) = .ok (some entry) :: completeReadings entries := rfl

/-- A good reader in front of the records of readable packets reads them all, and then the
end. -/
theorem readings_of_readable {reader : ArchiveReader} {entries : List (UInt64 × Packet)}
    (hgood : reader.input.good = true) (hunread : reader.input.unread = recordsWire entries)
    (hlimits : ∀ entry ∈ entries, ReadableLimits entry.2) :
    reader.readings (entries.length + 1) = completeReadings entries := by
  induction entries generalizing reader with
  | nil =>
      rw [List.length_nil, readings_succ, ArchiveReader.next_of_nil hgood hunread]
      rfl
  | cons entry entries ih =>
      obtain ⟨hsize, hdecode⟩ := (hlimits entry (by simp)).decode
      have hwire : reader.input.unread = recordWire entry.1 (packetFrame entry.2) ++
          recordsWire entries := hunread
      -- the record at the front is read, and the reader then stands in front of the others
      let record : ArchiveRecord :=
        ⟨UInt64.ofNat reader.input.position, entry.1, entry.2⟩
      let behind := reader.advance (16 + (packetFrame entry.2).length)
      have hnext : start ArchiveReader.next reader = (.ok (some record), behind) :=
        (ArchiveReader.next_some_iff hgood).mpr
          ⟨packetFrame entry.2, ⟨_, hwire⟩, hsize, hdecode, rfl, rfl⟩
      have hbehind : behind.input.unread = recordsWire entries := by
        have hlength := length_record_wire entry.1 (packetFrame entry.2)
        exact ((InputFile.unread_eq_append_iff hlength).mp hwire).2
      have hrest := @ih behind hgood hbehind fun e he => hlimits e (by simp [he])
      rw [List.length_cons, readings_succ, hnext, hrest]
      rfl

/-- Whatever a good reader reads back are readable packets. -/
theorem readable_of_readings {reader : ArchiveReader} {entries : List (UInt64 × Packet)}
    (hgood : reader.input.good = true)
    (hreadings : reader.readings (entries.length + 1) = completeReadings entries) :
    ∀ entry ∈ entries, ReadableLimits entry.2 := by
  induction entries generalizing reader with
  | nil => simp
  | cons entry entries ih =>
      rw [List.length_cons, readings_succ, completeReadings_cons] at hreadings
      obtain ⟨hfirst, hrest⟩ := List.cons.inj hreadings
      rcases hnext : start ArchiveReader.next reader with ⟨outcome, behind⟩
      rw [hnext] at hfirst hrest
      -- neither an exception nor the end is the reading of an entry
      rcases outcome with failure | _ | record
      · cases hfirst
      · cases hfirst
      · obtain rfl : record.entry = entry := Option.some.inj (Except.ok.inj hfirst)
        obtain ⟨frame, -, hsize, hdecode, -, rfl⟩ := (ArchiveReader.next_some_iff hgood).mp hnext
        intro e he
        rcases List.mem_cons.mp he with rfl | he
        · exact readable_of_decode hsize hdecode
        · exact @ih (reader.advance (16 + frame.length)) hgood hrest e he

/-! ## The header -/

/-- The summary of at least one record counts on: the count grows by the number of entries, and
the times are the least and the greatest. -/
theorem summarize_eq {summary : ArchiveSummary} {entries : List (UInt64 × Packet)}
    (hpos : 0 < summary.recordCount.toNat)
    (hcount : summary.recordCount.toNat + entries.length < 2 ^ 64) :
    (summarize summary entries).recordCount.toNat =
        summary.recordCount.toNat + entries.length ∧
      (summarize summary entries).firstTimeNs =
        (entries.map Prod.fst).foldl min summary.firstTimeNs ∧
      (summarize summary entries).lastTimeNs =
        (entries.map Prod.fst).foldl max summary.lastTimeNs := by
  induction entries generalizing summary with
  | nil => exact ⟨rfl, rfl, rfl⟩
  | cons entry entries ih =>
      rw [List.length_cons] at hcount
      have hnonzero : summary.recordCount ≠ 0 := by
        intro hzero
        rw [hzero] at hpos
        exact Nat.lt_irrefl 0 hpos
      -- behind the first record the times are kept by minimum and maximum
      let next := ArchiveWriter.record summary entry.1
      have hnext : next = { summary with
          recordCount := summary.recordCount + 1
          firstTimeNs := min summary.firstTimeNs entry.1
          lastTimeNs := max summary.lastTimeNs entry.1 } := by
        simp [next, ArchiveWriter.record, hnonzero]
      have hnextCount : next.recordCount.toNat = summary.recordCount.toNat + 1 := by
        rw [hnext, UInt64.toNat_add]
        exact Nat.mod_eq_of_lt (by simp; omega)
      obtain ⟨hlength, hfirst, hlast⟩ := @ih next (by omega) (by omega)
      refine ⟨?_, ?_, ?_⟩
      · show (summarize next entries).recordCount.toNat = _
        rw [hlength, hnextCount, List.length_cons]
        omega
      · show (summarize next entries).firstTimeNs = _
        rw [hfirst, hnext]
        rfl
      · show (summarize next entries).lastTimeNs = _
        rw [hlast, hnext]
        rfl

/-- The header describes the entries: their number, and the least and greatest capture time. An
archive without entries has the times zero. -/
def Describes (summary : ArchiveSummary) (entries : List (UInt64 × Packet)) : Prop :=
  summary.recordCount.toNat = entries.length ∧
    summary.firstTimeNs = (entries.map Prod.fst).min?.getD 0 ∧
    summary.lastTimeNs = (entries.map Prod.fst).max?.getD 0

/-- The summary of entries describes them, as long as they can be counted. -/
theorem summarize_describes {entries : List (UInt64 × Packet)} (hcount : entries.length < 2 ^ 64) :
    Describes (summarize {} entries) entries := by
  rcases entries with _ | ⟨entry, entries⟩
  · exact ⟨rfl, rfl, rfl⟩
  · rw [List.length_cons] at hcount
    let single : ArchiveSummary := ⟨1, 1, entry.1, entry.1⟩
    obtain ⟨hlength, hfirst, hlast⟩ := @summarize_eq single entries Nat.one_pos
      (by show 1 + entries.length < 2 ^ 64; omega)
    refine ⟨?_, ?_, ?_⟩
    · rw [List.length_cons, Nat.add_comm]
      exact hlength
    · rw [List.map_cons, List.min?_cons', Option.getD_some]
      exact hfirst
    · rw [List.map_cons, List.max?_cons', Option.getD_some]
      exact hlast

/-- Every record takes bytes. -/
theorem length_le_records_wire (entries : List (UInt64 × Packet)) :
    entries.length ≤ (recordsWire entries).length := by
  induction entries with
  | nil => exact Nat.le_refl 0
  | cons entry entries ih =>
      rw [recordsWire_cons, List.length_append, length_record_wire, List.length_cons]
      omega

/-- A medium holds fewer records than a 64-bit count reaches. -/
theorem length_entries_lt {medium : Medium} {entries : List (UInt64 × Packet)}
    (hfits : (archiveWire entries).length ≤ medium.capacity) : entries.length < 2 ^ 64 := by
  have hrecords := length_le_records_wire entries
  have hcapacity := medium.addressable
  simp only [archiveWire, List.length_append] at hfits
  omega

/-! ## The round trip -/

/-- A file reads back as the entries: the reader opens it, its header describes the entries, and
reading yields them in order and then the end. -/
def ReadsBack (file : Bytes) (entries : List (UInt64 × Packet)) : Prop :=
  ∃ reader, ArchiveReader.ofFile (some file) = .ok reader ∧ Describes reader.summary entries ∧
    reader.readings (entries.length + 1) = completeReadings entries

/-- An archive that was written and closed reads back as its entries exactly when every packet is
within the limits that only the reader checks. -/
theorem reads_back_iff {medium : Medium} {entries : List (UInt64 × Packet)}
    {writer : ArchiveWriter} (h : writeArchive medium entries = .ok writer) :
    ReadsBack writer.out.content entries ↔ ∀ entry ∈ entries, ReadableLimits entry.2 := by
  obtain ⟨⟨-, hfits⟩, rfl⟩ := write_archive_ok_iff.mp h
  -- whatever the packets are, the reader opens the file and stands behind its header
  let reader : ArchiveReader :=
    { input := { content := archiveWire entries, position := 36 }, summary := summarize {} entries }
  have hopen : ArchiveReader.ofFile (some (archiveWire entries)) = .ok reader :=
    ArchiveReader.of_file_ok_iff.mpr ⟨⟨recordsWire entries, rfl⟩, rfl⟩
  have hunread : reader.input.unread = recordsWire entries := by
    exact List.drop_left' (by rw [List.length_append, length_summary_wire]; rfl)
  constructor
  · intro hback
    obtain ⟨reader', hopen', -, hreadings⟩ := hback
    obtain rfl : reader = reader' := Except.ok.inj (hopen.symm.trans hopen')
    exact readable_of_readings rfl hreadings
  · intro hlimits
    exact ⟨reader, hopen, summarize_describes (length_entries_lt hfits),
      readings_of_readable rfl hunread hlimits⟩

/-- Readable packets that fit on the medium are written. -/
theorem write_archive_of_readable {medium : Medium} {entries : List (UInt64 × Packet)}
    (hlimits : ∀ entry ∈ entries, ReadableLimits entry.2)
    (hfits : (archiveWire entries).length ≤ medium.capacity) :
    ∃ writer, writeArchive medium entries = .ok writer ∧
      writer.out.content = archiveWire entries :=
  ⟨_, write_archive_ok_iff.mpr ⟨⟨fun entry hentry => (hlimits entry hentry).encoder, hfits⟩, rfl⟩,
    rfl⟩

/-- Two observations whose capture times are out of order. -/
theorem out_of_order_reads_back :
    let entries : List (UInt64 × Packet) := [(3000, { payload := [3] }), (1000, { payload := [1] })]
    ∃ writer, writeArchive ⟨1000, by decide⟩ entries = .ok writer ∧
      ReadsBack writer.out.content entries := by
  intro entries
  have hlimits : ∀ entry ∈ entries, ReadableLimits entry.2 := by
    intro entry hentry
    simp only [entries, List.mem_cons, List.not_mem_nil, or_false] at hentry
    rcases hentry with rfl | rfl
    all_goals
      exact { version := by decide, kind := by decide, fragment := by simp, relayPath := by simp,
              bandCount := by simp, bandLength := by simp, extensions := by simp,
              size := by decide }
  have hlength : (archiveWire entries).length ≤ 1000 := by
    simp [entries, archiveWire, recordsWire, length_packet_frame, Packet.sectionsWire]
  have hwrite : writeArchive ⟨1000, by decide⟩ entries = .ok _ :=
    write_archive_ok_iff.mpr
      ⟨⟨fun entry hentry => (hlimits entry hentry).encoder, hlength⟩, rfl⟩
  exact ⟨_, hwrite, (reads_back_iff hwrite).mpr hlimits⟩

/-- A sensor band of 65 bytes is appended without an error, but its record is not read back. -/
theorem long_band_not_read_back :
    let caps : DeviceCapabilities := { sensorBands := [List.replicate 65 0x6c] }
    let entries : List (UInt64 × Packet) := [(1000, { capabilities := some caps })]
    ∃ writer, writeArchive ⟨1000, by decide⟩ entries = .ok writer ∧
      ¬ ReadsBack writer.out.content entries := by
  intro caps entries
  have hencoder : ∀ entry ∈ entries, EncoderLimits entry.2 := by
    intro entry hentry
    obtain rfl : entry = (1000, { capabilities := some caps }) := List.mem_singleton.mp hentry
    exact ⟨by simp, by simp [caps], by simp [caps],
      by simp [caps, DeviceCapabilities.wire, DeviceCapabilities.wireWith], by simp⟩
  have hlength : (archiveWire entries).length ≤ 1000 := by
    simp [entries, caps, archiveWire, recordsWire, length_packet_frame, Packet.sectionsWire,
      DeviceCapabilities.wire, DeviceCapabilities.wireWith]
  have hwrite : writeArchive ⟨1000, by decide⟩ entries = .ok _ :=
    write_archive_ok_iff.mpr ⟨⟨hencoder, hlength⟩, rfl⟩
  refine ⟨_, hwrite, ?_⟩
  intro hback
  obtain ⟨reader, hopen, -, hreadings⟩ := hback
  obtain ⟨-, hinput⟩ := ArchiveReader.of_file_ok_iff.mp hopen
  have hlimits := readable_of_readings (by rw [hinput]; rfl) hreadings _ (List.mem_singleton_self _)
  have hband : 65 ≤ 64 := by
    simpa [caps] using hlimits.bandLength caps rfl
  omega

end Aethon.Storage
