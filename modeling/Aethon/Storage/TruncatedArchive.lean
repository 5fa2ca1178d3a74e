import Aethon.Protocol.PacketRoundTrip
import Aethon.Storage.RecordLoop

/-!
# Archives that are cut short

A prefix of a written archive holds some records whole and perhaps a part of the next one. What is
left of that part is no record, wherever it was cut: `no_record_of_partial`.
-/

namespace Aethon.Storage

open Actions FileStream Codec Protocol Parsing LittleEndian

/-- The packets that the codec gives back as they are. -/
def RoundTrips (packet : Packet) : Prop :=
  ∃ frame, encodePacket packet = .ok frame ∧ decodePacket frame = .ok packet

/-- These are the packets that an archive gives back. -/
theorem round_trips_iff_readable {packet : Packet} : RoundTrips packet ↔ ReadableLimits packet := by
  constructor
  · intro h
    obtain ⟨frame, hencode, hdecode⟩ := h
    have hwire := decode_packet_limits hdecode
    obtain rfl := Except.ok.inj ((encode_packet_of_limits hwire).symm.trans hencode)
    obtain ⟨-, -, hsize, -⟩ := decode_packet_ok_iff.mp hdecode
    exact { hwire with size := by rw [← length_packet_frame]; exact hsize }
  · intro h
    exact ⟨_, encode_packet_of_limits h.toWireLimits, h.decode.2⟩

/-- The first part of a record is no record: the length field it begins with asks for more. -/
theorem no_record_of_partial {captureTimeNs : UInt64} {frame part more : Bytes}
    (hframe : frame.length ≤ ({} : DecodeOptions).maxPacketSize)
    (hcut : recordWire captureTimeNs frame = part ++ more) (hmore : more ≠ []) : NoRecord part := by
  intro captureTimeNs' frame' packet rest hwire hframes
  have hwidth : ({} : DecodeOptions).maxPacketSize < 256 ^ 4 := by decide
  -- both records begin with the same length field
  have hleading : prefixWire captureTimeNs frame.length =
      prefixWire captureTimeNs' frame'.length := by
    rw [hwire] at hcut
    have htake := congrArg (List.take 12) hcut
    simpa [recordWire, coveredWire, List.append_assoc, List.take_append] using htake
  have hlengthField : digits 4 frame.length = digits 4 frame'.length :=
    (List.append_inj' hleading (by simp)).2
  have hlength : frame.length = frame'.length := by
    rw [← value_digits (hframe.trans_lt hwidth), hlengthField,
      value_digits (hframes.1.trans_lt hwidth)]
  -- so the cut record is at least as long as the whole one
  have htotal := congrArg List.length hcut
  rw [hwire, List.length_append, List.length_append, length_record_wire, length_record_wire,
    hlength] at htotal
  exact hmore (List.length_eq_zero_iff.mp (by omega))

/-- The entries whose records lie within the first `room` bytes. -/
def wholeEntries (room : Nat) : List (UInt64 × Packet) → List (UInt64 × Packet)
  | [] => []
  | entry :: entries =>
      let size := 16 + (packetFrame entry.2).length
      if size ≤ room then entry :: wholeEntries (room - size) entries else []

/-- The entries that have room are the first ones. -/
theorem whole_entries_front (room : Nat) (entries : List (UInt64 × Packet)) :
    wholeEntries room entries <+: entries := by
  induction entries generalizing room with
  | nil => exact List.nil_prefix
  | cons entry entries ih =>
      unfold wholeEntries
      by_cases hfits : 16 + (packetFrame entry.2).length ≤ room
      · rw [if_pos hfits]
        exact List.prefix_cons_inj entry |>.mpr (ih _)
      · rw [if_neg hfits]
        exact List.nil_prefix

/-- The first bytes of the records are the whole ones and a part of the next record, if any. -/
theorem take_records_wire (room : Nat) (entries : List (UInt64 × Packet)) :
    ∃ part, (recordsWire entries).take room = recordsWire (wholeEntries room entries) ++ part ∧
      (part = [] ∨ ∃ entry ∈ entries, ∃ more, more ≠ [] ∧
        recordWire entry.1 (packetFrame entry.2) = part ++ more) := by
  induction entries generalizing room with
  | nil => exact ⟨[], by simp [recordsWire, wholeEntries], Or.inl rfl⟩
  | cons entry entries ih =>
      have hwire := length_record_wire entry.1 (packetFrame entry.2)
      unfold wholeEntries
      by_cases hfits : 16 + (packetFrame entry.2).length ≤ room
      · rw [if_pos hfits]
        obtain ⟨part, htake, hpart⟩ := ih (room - (16 + (packetFrame entry.2).length))
        refine ⟨part, ?_, ?_⟩
        · rw [recordsWire_cons, recordsWire_cons, List.take_append, hwire, htake,
            List.take_of_length_le (by omega), List.append_assoc]
        · rcases hpart with hnone | ⟨other, hother, hcut⟩
          · exact Or.inl hnone
          · exact Or.inr ⟨other, List.mem_cons_of_mem _ hother, hcut⟩
      · rw [if_neg hfits]
        have hmore : (recordWire entry.1 (packetFrame entry.2)).drop room ≠ [] := by
          rw [ne_eq, List.drop_eq_nil_iff]
          omega
        refine ⟨_, ?_, Or.inr ⟨entry, List.mem_cons_self, _, hmore,
          (List.take_append_drop room _).symm⟩⟩
        rw [recordsWire_cons, List.take_append_of_le_length (by omega)]
        rfl

/-- Reading a prefix of an archive, of at least its header, yields exactly the records that lie in
the prefix, as they were laid out, and then the end if the prefix ends behind one of them, and an
exception if it does not. -/
theorem truncated_archive_reads {medium : Medium} {entries : List (UInt64 × Packet)}
    {writer : ArchiveWriter} (h : writeArchive medium entries = .ok writer)
    (hpackets : ∀ entry ∈ entries, RoundTrips entry.2) {n : Nat} (hheader : 36 ≤ n)
    (hn : n ≤ writer.out.content.length) :
    ∃ reader, ArchiveReader.ofFile (some (writer.out.content.take n)) = .ok reader ∧
      reader.drain.1 = recordsAt 36 (wholeEntries (n - 36) entries) ∧
      (reader.drain.2 = none ↔ 36 + (recordsWire (wholeEntries (n - 36) entries)).length = n) := by
  obtain ⟨-, rfl⟩ := write_archive_ok_iff.mp h
  let head := archiveMagic ++ (summarize {} entries).wire
  have hhead : head.length = 36 := by simp [head]
  have hcontent : (archiveWire entries).take n = head ++ (recordsWire entries).take (n - 36) := by
    show (head ++ recordsWire entries).take n = _
    rw [List.take_append, List.take_of_length_le (by omega), hhead]
  obtain ⟨part, htake, hpart⟩ := take_records_wire (n - 36) entries
  have hlimits : ∀ entry ∈ entries, ReadableLimits entry.2 := fun entry hentry =>
    round_trips_iff_readable.mp (hpackets entry hentry)
  -- the bytes behind the whole records are no record
  have hnone : NoRecord part := by
    rcases hpart with rfl | ⟨entry, hentry, more, hmore, hcut⟩
    · exact no_record_nil
    · exact no_record_of_partial (hlimits entry hentry).decode.1 hcut hmore
  have hstands := stands_of_entries 36 part fun entry hentry =>
    hlimits entry ((whole_entries_front (n - 36) entries).subset hentry)
  let reader : ArchiveReader :=
    { input := { content := (archiveWire entries).take n, position := 36 }
      summary := summarize {} entries }
  have hopen : ArchiveReader.ofFile (some ((archiveWire entries).take n)) = .ok reader :=
    ArchiveReader.of_file_ok_iff.mpr ⟨⟨_, hcontent⟩, rfl⟩
  obtain ⟨hgood, hposition, hunread⟩ := of_file_spec hopen
  have hbody : reader.input.unread = recordsWire (wholeEntries (n - 36) entries) ++ part :=
    (List.append_cancel_left (hunread.symm.trans hcontent)).trans htake
  obtain ⟨hrecords, hend⟩ :=
    ArchiveReader.drain_of_stands_no_record hstands hnone hgood hposition hbody
  refine ⟨reader, hopen, hrecords, hend.trans ?_⟩
  -- the part is empty exactly when the whole records fill the prefix
  have hlength := congrArg List.length htake
  have htotal : (archiveWire entries).length = 36 + (recordsWire entries).length := by
    rw [archiveWire, List.length_append]
    exact congrArg (· + _) hhead
  simp only [htotal] at hn
  rw [List.length_take_of_le (by omega), List.length_append] at hlength
  rw [← List.length_eq_zero_iff]
  omega

/-- Two observations, cut ten bytes into the second record. -/
theorem truncated_archive_cut_record :
    let first : UInt64 × Packet := (3000, { payload := [3] })
    let second : UInt64 × Packet := (1000, { payload := [1] })
    ∃ writer, writeArchive ⟨1000, by decide⟩ [first, second] = .ok writer ∧
      ∃ reader, ArchiveReader.ofFile (some (writer.out.content.take 108)) = .ok reader ∧
        reader.drain.1.map ArchiveRecord.entry = [first] ∧ reader.drain.2 ≠ none := by
  intro first second
  have hlimits : ∀ entry ∈ [first, second], ReadableLimits entry.2 := by
    intro entry hentry
    simp only [List.mem_cons, List.not_mem_nil, or_false] at hentry
    rcases hentry with rfl | rfl
    · exact readable_observation 0 0 (by decide)
    · exact readable_observation 0 0 (by decide)
  have hlength : (archiveWire [first, second]).length = 160 := by
    simp [first, second, archiveWire, recordsWire, length_packet_frame, Packet.sectionsWire]
  have hwrite : writeArchive ⟨1000, by decide⟩ [first, second] = .ok _ := write_archive_ok_iff.mpr
    ⟨⟨fun entry hentry => (hlimits entry hentry).encoder, by rw [hlength]; decide⟩, rfl⟩
  have hwhole : wholeEntries (108 - 36) [first, second] = [first] := by
    simp [first, second, wholeEntries, length_packet_frame, Packet.sectionsWire]
  obtain ⟨reader, hopen, hrecords, hend⟩ := truncated_archive_reads hwrite
    (fun entry hentry => round_trips_iff_readable.mpr (hlimits entry hentry))
    (show 36 ≤ 108 by decide) (show 108 ≤ (archiveWire [first, second]).length by omega)
  rw [hwhole] at hrecords hend
  refine ⟨_, hwrite, reader, hopen, by rw [hrecords, entries_recordsAt], ?_⟩
  rw [ne_eq, hend]
  simp [first, recordsWire, length_packet_frame, Packet.sectionsWire]

end Aethon.Storage
