import Aethon.Storage.ArchiveFiles
import Aethon.Storage.TruncatedArchive

/-!
# Writers that ran out of room

What an archive writer leaves when some of its appends have thrown, because the encoder refused
the packet or the medium was full. `Holds` is kept by every append, whatever it yields, and
`Holds.reads` says what is read from the file after the writer is destroyed: the entries whose
appends returned, in order.
-/

namespace Aethon.Storage

open Actions FileStream Codec Protocol Parsing LittleEndian

/-- A first part of a record that is not all of it, or nothing. -/
def CutShort (part : Bytes) : Prop :=
  part = [] ∨ ∃ captureTimeNs frame more, frame.length ≤ ({} : DecodeOptions).maxPacketSize ∧
    more ≠ [] ∧ recordWire captureTimeNs frame = part ++ more

theorem CutShort.no_record {part : Bytes} (h : CutShort part) : NoRecord part := by
  rcases h with rfl | ⟨captureTimeNs, frame, more, hframe, hmore, hcut⟩
  · exact no_record_nil
  · exact no_record_of_partial hframe hcut hmore

/-- A write to a stream throws when the stream is left failed. -/
theorem start_write_all (bytes : Bytes) (out : OutputFile) :
    start (writeAll bytes) out =
      (if (out.write bytes).failed then .error (archiveError "failed to write archive data")
        else .ok (), out.write bytes) := by
  rw [writeAll, start_modify_bind, start_get_bind, rejectIf]
  split_ifs <;> rfl

namespace ArchiveWriter

/-- The writer has appended the entries and nothing else that is whole. -/
structure Holds (writer : ArchiveWriter) (entries : List (UInt64 × Packet)) : Prop where
  isOpen : writer.closed = false
  summary : writer.summary = summarize {} entries
  appending : writer.Appending
  content : ∃ part, writer.out.content =
      archiveMagic ++ ({} : ArchiveSummary).wire ++ recordsWire entries ++ part ∧
    CutShort part ∧ (writer.out.failed = false → part = [])

/-- An append that throws changes the file only, by a write of its record that does not fit. -/
theorem append_error {writer writer' : ArchiveWriter} {captureTimeNs : UInt64} {packet : Packet}
    {failure : Error}
    (h : start (append captureTimeNs packet) writer = (.error failure, writer')) :
    writer' = writer ∨ (EncoderLimits packet ∧ writer' = { writer with
      out := writer.out.write (recordWire captureTimeNs (packetFrame packet)) } ∧
      (writer.out.write (recordWire captureTimeNs (packetFrame packet))).failed = true) := by
  have hrecord : ∀ frame : Bytes,
      let prefixed := (((BinaryWriter.mk []).u64 captureTimeNs).u32
        (UInt32.ofNat frame.length)).bytes frame
      recordWire captureTimeNs frame = (prefixed.u32 (crc32c prefixed.buffer)).buffer := by
    intro frame prefixed
    have hcovered : prefixed.buffer = coveredWire captureTimeNs frame := by
      simp [prefixed, coveredWire, prefixWire]
    rw [BinaryWriter.buffer_u32, hcovered, recordWire]
  rw [append, start_bind] at h
  cases hencode : encodePacket packet with
  | error refused =>
      rw [hencode] at h
      exact Or.inl (Prod.mk.inj h).2.symm
  | ok frame =>
      obtain ⟨hlimits, rfl⟩ := encode_packet_ok_iff.mp hencode
      rw [hencode] at h
      have hthrows : start (onOut (writeAll (recordWire captureTimeNs (packetFrame packet))) >>=
          fun _ => modify fun writer =>
            { writer with summary := record writer.summary captureTimeNs }) writer =
          (.error failure, writer') := by
        rw [hrecord]
        exact h
      rw [start_bind, onOut, start_zoom, start_write_all] at hthrows
      by_cases hfailed : (writer.out.write (recordWire captureTimeNs (packetFrame packet))).failed
      · rw [if_pos hfailed] at hthrows
        exact Or.inr ⟨hlimits, (Prod.mk.inj hthrows).2.symm, hfailed⟩
      · rw [if_neg hfailed] at hthrows
        cases (Prod.mk.inj hthrows).1

/-- A writer that was just created holds no entries. -/
theorem holds_create {medium : Medium} {writer : ArchiveWriter}
    (h : create (some medium) = .ok writer) : writer.Holds [] := by
  obtain ⟨hroom, rfl⟩ := create_ok_iff.mp h
  refine ⟨rfl, rfl, fun _ => ⟨rfl, rfl, hroom⟩, [], ?_, Or.inl rfl, fun _ => rfl⟩
  rw [recordsWire, List.flatMap_nil, List.append_nil, List.append_nil]

/-- A write that does not fit leaves a part of its bytes that is not all of them. -/
theorem write_of_full {out : OutputFile} {bytes : Bytes} (hgood : out.failed = false)
    (hend : out.position = out.content.length) (hfull : (out.write bytes).failed = true) :
    ∃ more, more ≠ [] ∧
      bytes = bytes.take (out.medium.capacity - out.content.length) ++ more ∧
      (out.write bytes).content =
        out.content ++ bytes.take (out.medium.capacity - out.content.length) := by
  have hover : out.medium.capacity - out.content.length < bytes.length := by
    by_contra hfits
    have hnot := OutputFile.failed_write.mpr ⟨hgood, by rw [hend]; exact Nat.not_lt.mp hfits⟩
    rw [hnot] at hfull
    cases hfull
  refine ⟨bytes.drop (out.medium.capacity - out.content.length), ?_,
    (List.take_append_drop _ _).symm, ?_⟩
  · rw [ne_eq, List.drop_eq_nil_iff]
    omega
  · rw [OutputFile.write, if_neg (by rw [hgood]; exact Bool.false_ne_true)]
    dsimp only
    rw [hend, List.take_length, List.drop_of_length_le (Nat.le_add_right _ _), List.append_nil]

/-- A stream that has failed stays as it is. -/
theorem write_of_failed {out : OutputFile} (hfailed : out.failed = true) (bytes : Bytes) :
    out.write bytes = out :=
  if_pos hfailed

/-- An append that returns adds its entry, and one that throws keeps the entries, provided its
frame is one that the reader could take. -/
theorem Holds.append {writer : ArchiveWriter} {entries : List (UInt64 × Packet)}
    (h : writer.Holds entries) (captureTimeNs : UInt64) {packet : Packet}
    (hsize : EncoderLimits packet →
      (packetFrame packet).length ≤ ({} : DecodeOptions).maxPacketSize) :
    match start (ArchiveWriter.append captureTimeNs packet) writer with
    | (.ok _, writer') => writer'.Holds (entries ++ [(captureTimeNs, packet)])
    | (.error _, writer') => writer'.Holds entries := by
  have happending := h.appending.append captureTimeNs packet
  obtain ⟨part, hcontent, hcut, hgoodPart⟩ := h.content
  rcases hrun : start (ArchiveWriter.append captureTimeNs packet) writer with
    ⟨failure | u, writer'⟩
  · rw [hrun] at happending
    rcases append_error hrun with rfl | ⟨hlimits, rfl, hfull⟩
    · exact h
    · refine ⟨h.isOpen, h.summary, happending, ?_⟩
      by_cases hfailed : writer.out.failed = true
      · rw [write_of_failed hfailed]
        exact ⟨part, hcontent, hcut, hgoodPart⟩
      · -- the record that does not fit is cut short
        have hgood : writer.out.failed = false := by simpa using hfailed
        obtain ⟨more, hmore, hsplit, hwritten⟩ :=
          write_of_full hgood (h.appending hgood).position hfull
        refine ⟨_, ?_, Or.inr ⟨captureTimeNs, packetFrame packet, more, hsize hlimits, hmore,
          hsplit⟩, fun hstill => ?_⟩
        · rw [hwritten, hcontent, hgoodPart hgood, List.append_nil]
        · rw [hfull] at hstill
          cases hstill
  · rw [hrun] at happending
    obtain ⟨⟨-, hgood, -⟩, rfl⟩ := (append_ok_iff_of_appending h.appending).mp hrun
    refine ⟨h.isOpen, ?_, happending, [], ?_, Or.inl rfl, fun _ => rfl⟩
    · show ArchiveWriter.record writer.summary captureTimeNs = _
      rw [h.summary, summarize, summarize, List.foldl_append]
      rfl
    · show writer.out.content ++ _ = _
      rw [hcontent, hgoodPart hgood, List.append_nil, List.append_nil, recordsWire, recordsWire,
        List.flatMap_append, List.flatMap_singleton, List.append_assoc]

/-- What the file holds after the destructor, which closes the writer and drops what that
throws. -/
def destroyed (writer : ArchiveWriter) : Bytes :=
  (start close writer).2.out.content

/-- Closing a writer whose stream has failed changes nothing in the file. -/
theorem destroyed_of_failed {writer : ArchiveWriter} (hopen : writer.closed = false)
    (hfailed : writer.out.failed = true) : writer.destroyed = writer.out.content := by
  have hseek : writer.out.seek archiveMagic.length = writer.out := if_pos hfailed
  rw [destroyed, close, start_get_bind, if_neg (by rw [hopen]; exact Bool.false_ne_true),
    start_modify_bind, hseek, start_bind, onOut, start_zoom, start_write_all,
    write_of_failed hfailed, if_pos hfailed]

/-- The destroyed writer has left a header, the entries and what was cut short. The header
describes the entries unless the stream had failed. -/
theorem Holds.destroyed {writer : ArchiveWriter} {entries : List (UInt64 × Packet)}
    (h : writer.Holds entries) :
    ∃ header part, writer.destroyed = archiveMagic ++ header.wire ++ (recordsWire entries ++ part) ∧
      CutShort part ∧ (writer.out.failed = false → header = summarize {} entries ∧ part = []) := by
  obtain ⟨part, hcontent, hcut, hgoodPart⟩ := h.content
  by_cases hfailed : writer.out.failed = true
  · refine ⟨{}, part, ?_, hcut, fun hgood => ?_⟩
    · rw [destroyed_of_failed h.isOpen hfailed, hcontent, List.append_assoc]
    · rw [hgood] at hfailed
      cases hfailed
  · have hgood : writer.out.failed = false := by simpa using hfailed
    rw [List.append_assoc] at hcontent
    have hclose := (@close_ok_iff _ _ _ _ () h.isOpen hgood hcontent (length_summary_wire {})
      (h.appending hgood).held).mpr rfl
    refine ⟨summarize {} entries, part, ?_, hcut, fun _ => ⟨rfl, hgoodPart hgood⟩⟩
    rw [ArchiveWriter.destroyed, hclose, h.summary]

/-- A medium that has held all entries holds fewer than a 64-bit count reaches. -/
theorem Holds.length_lt {writer : ArchiveWriter} {entries : List (UInt64 × Packet)}
    (h : writer.Holds entries) (hgood : writer.out.failed = false) : entries.length < 2 ^ 64 := by
  obtain ⟨part, hcontent, -, -⟩ := h.content
  have hheld := (h.appending hgood).held
  have hrecords := length_le_records_wire entries
  have hcapacity := writer.out.medium.addressable
  simp only [hcontent, List.length_append] at hheld
  omega

/-- **Reading what a destroyed writer has left.** Whatever made appends throw, the entries whose
appends returned are read in order. If the stream never failed, the reading ends well and the header
describes the entries. -/
theorem Holds.reads {writer : ArchiveWriter} {entries : List (UInt64 × Packet)}
    (h : writer.Holds entries) (hlimits : ∀ entry ∈ entries, ReadableLimits entry.2) :
    ∃ reader, ArchiveReader.ofFile (some writer.destroyed) = .ok reader ∧
      reader.drain.1 = recordsAt 36 entries ∧
      (writer.out.failed = false →
        reader.drain.2 = none ∧ Describes reader.summary entries) := by
  obtain ⟨header, part, hfile, hcut, hwell⟩ := h.destroyed
  let reader : ArchiveReader :=
    { input := { content := writer.destroyed, position := 36 }, summary := header }
  have hopen : ArchiveReader.ofFile (some writer.destroyed) = .ok reader :=
    ArchiveReader.of_file_ok_iff.mpr ⟨⟨_, hfile⟩, rfl⟩
  obtain ⟨hgood, hposition, hunread⟩ := of_file_spec hopen
  have hbody : reader.input.unread = recordsWire entries ++ part :=
    List.append_cancel_left (hunread.symm.trans hfile)
  obtain ⟨hrecords, hend⟩ := ArchiveReader.drain_of_stands_no_record
    (stands_of_entries 36 part hlimits) hcut.no_record hgood hposition hbody
  refine ⟨reader, hopen, hrecords, fun hgoodStream => ?_⟩
  obtain ⟨hheader, hpart⟩ := hwell hgoodStream
  refine ⟨hend.mpr hpart, ?_⟩
  show Describes header entries
  rw [hheader]
  exact summarize_describes (h.length_lt hgoodStream)

end ArchiveWriter

end Aethon.Storage
