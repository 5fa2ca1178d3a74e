import Aethon.Storage.ArchiveFormat

/-!
# What the archive reader reads

`of_file_ok_iff` says which files the reader opens. `next_some_iff` says when a good reader returns
a record and which bytes it read for it, and `next_of_nil` that it reports the end behind the last
one.
-/

namespace Aethon.Storage

open Actions FileStream Codec Protocol Parsing LittleEndian

/-- On a good stream a read returns exactly when enough bytes are left, and returns them. -/
theorem read_exact_ok_iff {file file' : InputFile} (hgood : file.good = true) {n : Nat}
    {bytes : Bytes} :
    start (readExact n) file = (.ok bytes, file') ↔
      (n < 2 ^ 63 ∧ bytes.length = n ∧ ∃ rest, file.unread = bytes ++ rest) ∧
        file' = file.advance n := by
  simp only [readExact, start_rejectIf_bind_ok_iff, start_modifyGet_bind, start_pure,
    Prod.mk.injEq, Except.ok.injEq, ne_eq, not_not, Nat.not_lt]
  constructor
  · intro h
    obtain ⟨hsize, hlength, hbytes, hfile⟩ := h
    rw [hbytes] at hlength
    obtain ⟨hbegins, hfile⟩ := (InputFile.read_eq_iff hgood hlength).mp (Prod.ext hbytes hfile)
    exact ⟨⟨by omega, hlength, hbegins⟩, hfile⟩
  · intro h
    obtain ⟨⟨hsize, hlength, hbegins⟩, rfl⟩ := h
    have hread := (InputFile.read_eq_iff hgood hlength).mpr ⟨hbegins, rfl⟩
    rw [hread]
    exact ⟨by omega, hlength, rfl, rfl⟩

/-- On a good stream the check of a record's extent returns exactly when the frame is within the
packet limit and the frame and its checksum are there, and it does not move the stream. -/
theorem validate_record_extent_ok_iff {file file' : InputFile} (hgood : file.good = true)
    {frameLen : UInt32} {u : Unit} :
    start (validateRecordExtent frameLen) file = (.ok u, file') ↔
      (frameLen.toNat ≤ ({} : DecodeOptions).maxPacketSize ∧
        frameLen.toNat + 4 ≤ file.unread.length) ∧ file' = file := by
  let ended : InputFile := { file with position := file.content.length }
  have hended : file.seekEnd = ended := InputFile.seek_of_good hgood _
  have hback : ended.seek (some file.position) = file :=
    @InputFile.seek_of_good ended hgood _
  have htell : ended.tell = (some file.content.length, ended) := InputFile.tell_of_good hgood
  have hunread : file.unread.length = file.content.length - file.position := by
    simp [InputFile.unread]
  simp only [validateRecordExtent, start_rejectIf_bind_ok_iff, start_rejectIf_ok_iff,
    start_modifyGet_bind, start_modify_bind, InputFile.tell_of_good hgood, hended, htell, hback,
    reduceCtorEq, false_or, Option.getD_some, archiveRecordCrcBytes, hunread]
  constructor
  · intro h
    obtain ⟨hsize, horder, hextent, rfl⟩ := h
    exact ⟨⟨by omega, by omega⟩, rfl⟩
  · intro h
    obtain ⟨⟨hsize, hextent⟩, rfl⟩ := h
    exact ⟨by omega, by omega, by omega, rfl⟩

namespace ArchiveReader

/-- The reader after `n` bytes of its file were read. -/
def advance (reader : ArchiveReader) (n : Nat) : ArchiveReader :=
  { reader with input := reader.input.advance n }

@[simp] theorem input_advance (reader : ArchiveReader) (n : Nat) :
    (reader.advance n).input = reader.input.advance n := rfl

@[simp] theorem advance_advance (reader : ArchiveReader) (m n : Nat) :
    (reader.advance m).advance n = reader.advance (m + n) := by
  simp [advance]

/-- A read of a good reader followed by more takes its bytes off the unread ones. -/
theorem read_exact_bind_ok_iff {reader reader' : ArchiveReader}
    (hgood : reader.input.good = true) {n : Nat} {β : Type}
    {f : Bytes → Action ArchiveReader Error β} {b : β} :
    start (onInput (readExact n) >>= f) reader = (.ok b, reader') ↔
      n < 2 ^ 63 ∧ ∃ bytes, bytes.length = n ∧
        reader.input.unread = bytes ++ (reader.advance n).input.unread ∧
        start (f bytes) (reader.advance n) = (.ok b, reader') := by
  simp only [onInput, start_zoom_bind_ok_iff, read_exact_ok_iff hgood]
  constructor
  · intro h
    obtain ⟨bytes, _, ⟨⟨hsize, rfl, rest, hbegins⟩, rfl⟩, hrest⟩ := h
    exact ⟨hsize, bytes, rfl, by simp [hbegins], hrest⟩
  · intro h
    obtain ⟨hsize, bytes, rfl, hbegins, hrest⟩ := h
    exact ⟨bytes, _, ⟨⟨hsize, rfl, _, hbegins⟩, rfl⟩, hrest⟩

/-- The check of an extent passes when the file reaches as far as the record. -/
theorem validate_record_extent_bind_ok_iff {reader reader' : ArchiveReader}
    (hgood : reader.input.good = true) {frameLen : UInt32} {β : Type}
    {f : Unit → Action ArchiveReader Error β} {b : β} :
    start (onInput (validateRecordExtent frameLen) >>= f) reader = (.ok b, reader') ↔
      (frameLen.toNat ≤ ({} : DecodeOptions).maxPacketSize ∧
        frameLen.toNat + 4 ≤ reader.input.unread.length) ∧
        start (f ()) reader = (.ok b, reader') := by
  simp only [onInput, start_zoom_bind_ok_iff, validate_record_extent_ok_iff hgood]
  constructor
  · intro h
    obtain ⟨_, _, ⟨hextent, rfl⟩, hrest⟩ := h
    exact ⟨hextent, hrest⟩
  · intro h
    obtain ⟨hextent, hrest⟩ := h
    exact ⟨(), _, ⟨hextent, rfl⟩, hrest⟩

/-- A buffer of an encoding's size parses exactly when it is the encoding. -/
theorem parse_ok_iff {α : Type} {p : BinaryReader α} {encode : α → Bytes}
    (h : Exact p encode fun _ => True) {bytes : Bytes} {a : α}
    (hlength : bytes.length = (encode a).length) : parse bytes p = .ok a ↔ bytes = encode a := by
  have hparse : parse bytes p = .ok a ↔ ∃ rest, p bytes = .ok (a, rest) := by
    show (p bytes).map Prod.fst = _ ↔ _
    rcases p bytes with failure | ⟨b, rest⟩
    · simp [Except.map]
    · simp [Except.map]
  rw [hparse]
  constructor
  · intro hread
    obtain ⟨rest, hread⟩ := hread
    obtain ⟨hbytes, -⟩ := (h.ok_iff _ _ _).mp hread
    have hrest : rest = [] := by
      rw [hbytes, List.length_append] at hlength
      exact List.length_eq_zero_iff.mp (by omega)
    rw [hbytes, hrest, List.append_nil]
  · intro hbytes
    exact ⟨[], (h.ok_iff _ _ _).mpr ⟨by rw [hbytes, List.append_nil], trivial⟩⟩

/-- A prefix is read from exactly its bytes. -/
theorem read_prefix_exact : Exact readPrefix
    (fun fields => prefixWire fields.1 fields.2.toNat) fun _ => True := by
  refine ⟨fun input rest fields => ?_⟩
  simp only [readPrefix, bind_ok_iff, BinaryReader.u64_exact.ok_iff,
    BinaryReader.u32_exact.ok_iff, pure_ok_iff, and_true]
  constructor
  · intro h
    obtain ⟨_, _, rfl, _, _, rfl, rfl, rfl⟩ := h
    simp [prefixWire]
  · rintro rfl
    exact ⟨fields.1, _, by rw [prefixWire, List.append_assoc], fields.2, rest, rfl, rfl, rfl⟩

/-- A header is read from exactly its bytes. -/
theorem read_header_exact : Exact readHeader ArchiveSummary.wire fun _ => True := by
  refine ⟨fun input rest summary => ?_⟩
  simp only [readHeader, bind_ok_iff, BinaryReader.u64_exact.ok_iff,
    BinaryReader.u32_exact.ok_iff, pure_ok_iff, and_true]
  constructor
  · intro h
    obtain ⟨_, _, rfl, _, _, rfl, _, _, rfl, _, _, rfl, rfl, rfl⟩ := h
    simp [ArchiveSummary.wire]
  · rintro rfl
    exact ⟨summary.formatVersion, _, by simp only [ArchiveSummary.wire, List.append_assoc],
      summary.recordCount, _, rfl, summary.firstTimeNs, _, rfl, summary.lastTimeNs, rest, rfl, rfl,
      rfl⟩

theorem start_onInput_modifyGet_bind {α β : Type} (g : InputFile → α × InputFile)
    (f : α → Action ArchiveReader Error β) (reader : ArchiveReader) :
    start (onInput (modifyGet g) >>= f) reader =
      start (f (g reader.input).1) { reader with input := (g reader.input).2 } := rfl

/-- A good reader with nothing left to read reports the end. -/
theorem next_of_nil {reader : ArchiveReader} (hgood : reader.input.good = true)
    (hunread : reader.input.unread = []) :
    start next reader =
      (.ok none, { reader with input := { reader.input with eof := true } }) := by
  rw [next, start_onInput_modifyGet_bind, InputFile.peek_of_nil hgood hunread]
  rfl

/-- A record stands at the position of a file exactly when its three parts follow one another. -/
theorem unread_record_iff {file : InputFile} {captureTimeNs : UInt64} {frame : Bytes} :
    (∃ rest, file.unread = recordWire captureTimeNs frame ++ rest) ↔
      file.unread = prefixWire captureTimeNs frame.length ++ (file.advance 12).unread ∧
        (file.advance 12).unread = frame ++ (file.advance (12 + frame.length)).unread ∧
        (file.advance (12 + frame.length)).unread =
          digits 4 (crc32c (coveredWire captureTimeNs frame)).toNat ++
            (file.advance (12 + frame.length + 4)).unread := by
  have hparts (rest : Bytes) : recordWire captureTimeNs frame ++ rest =
      prefixWire captureTimeNs frame.length ++
        (frame ++ (digits 4 (crc32c (coveredWire captureTimeNs frame)).toNat ++ rest)) := by
    simp [recordWire, coveredWire]
  constructor
  · intro h
    obtain ⟨rest, h⟩ := h
    rw [hparts] at h
    obtain ⟨hfront, h⟩ := (InputFile.unread_eq_append_iff (length_prefix_wire _ _)).mp h
    obtain ⟨hmiddle, h⟩ := (InputFile.unread_eq_append_iff rfl).mp h
    obtain ⟨hback, -⟩ := (InputFile.unread_eq_append_iff (length_digits 4 _)).mp h
    simp only [InputFile.advance_advance] at hmiddle hback
    exact ⟨hfront, hmiddle, hback⟩
  · intro h
    obtain ⟨hfront, hmiddle, hback⟩ := h
    exact ⟨_, by rw [hparts, hfront, hmiddle, hback]⟩

/-- A good reader returns a record exactly when one stands at its position whose frame is within
the packet limit and decodes. -/
theorem next_some_iff {reader reader' : ArchiveReader} (hgood : reader.input.good = true)
    {record : ArchiveRecord} :
    start next reader = (.ok (some record), reader') ↔
      ∃ frame, (∃ rest, reader.input.unread = recordWire record.captureTimeNs frame ++ rest) ∧
        frame.length ≤ ({} : DecodeOptions).maxPacketSize ∧
        decodePacket frame = .ok record.packet ∧
        record.offset = UInt64.ofNat reader.input.position ∧
        reader' = reader.advance (16 + frame.length) := by
  rcases hunread : reader.input.unread with _ | ⟨byte, tail⟩
  · rw [next_of_nil hgood hunread]
    constructor
    · intro h
      cases h
    · intro hrecord
      obtain ⟨frame, ⟨rest, hwire⟩, -⟩ := hrecord
      have := congrArg List.length hwire
      rw [List.length_append, length_record_wire, List.length_nil] at this
      omega
  · -- the look ahead finds a byte, so the reader goes on from the same position
    rw [next, start_onInput_modifyGet_bind, InputFile.peek_of_cons hgood hunread]
    simp only [start_onInput_modifyGet_bind, InputFile.tell_of_good hgood]
    simp only [read_exact_bind_ok_iff, start_lift_bind_ok_iff, validate_record_extent_bind_ok_iff,
      start_rejectIf_bind_ok_iff, start_pure, hgood, input_advance, InputFile.good_advance,
      InputFile.advance_advance, ne_eq, not_not, Prod.mk.injEq, Except.ok.injEq,
      Option.some.injEq, ← hunread, unread_record_iff]
    constructor
    · intro hrun
      obtain ⟨-, fields, hfields, hfront, ⟨captureTimeNs, frameLen⟩, hparse, ⟨hmax, -⟩, -, frame,
        hframe, hmiddle, -, crcBytes, hcrcBytes, hback, crc, hparseCrc, hcrc, packet, hdecode, rfl,
        rfl⟩ := hrun
      -- the sizes of the buffers fix what was parsed from them
      change frame.length = frameLen.toNat at hframe
      rw [parse_ok_iff read_prefix_exact (by simp [hfields])] at hparse
      rw [parse_ok_iff BinaryReader.u32_exact (by simp [hcrcBytes])] at hparseCrc
      simp only [← hframe] at hparse hmiddle hback hmax ⊢
      rw [hparse] at hfront hcrc
      rw [hparseCrc, ← hcrc] at hback
      refine ⟨frame, ⟨hfront, hmiddle, hback⟩, hmax, hdecode, rfl, ?_⟩
      simp only [advance_advance]
      congr 1
      omega
    · intro hrecord
      obtain ⟨frame, ⟨hfront, hmiddle, hback⟩, hmax, hdecode, hoffset, rfl⟩ := hrecord
      have hframeLen : (UInt32.ofNat frame.length).toNat = frame.length :=
        Nat.mod_eq_of_lt (hmax.trans_lt (by decide))
      have hfields : parse (prefixWire record.captureTimeNs frame.length) readPrefix =
          .ok (record.captureTimeNs, UInt32.ofNat frame.length) := by
        rw [parse_ok_iff read_prefix_exact (by simp), hframeLen]
      have hcrc : parse (digits 4 (crc32c (coveredWire record.captureTimeNs frame)).toNat)
          BinaryReader.u32 = .ok (crc32c (coveredWire record.captureTimeNs frame)) := by
        rw [parse_ok_iff BinaryReader.u32_exact (by simp)]
      refine ⟨by decide, _, length_prefix_wire _ _, hfront, _, hfields, ?_⟩
      simp only [hframeLen]
      refine ⟨⟨hmax, ?_⟩, by omega, frame, rfl, hmiddle, by decide, _, length_digits 4 _, hback, _,
        hcrc, rfl, record.packet, hdecode, ?_, ?_⟩
      · rw [hmiddle, hback]
        simp
      · rw [streamOffset, ← hoffset]
      · simp only [advance_advance]
        congr 1
        omega

/-- The reader opens exactly the files that begin with the magic string and a header. -/
theorem of_file_ok_iff {content : Bytes} {reader : ArchiveReader} :
    ofFile (some content) = .ok reader ↔
      (∃ rest, content = archiveMagic ++ reader.summary.wire ++ rest) ∧
        reader.input = { content, position := 36 } := by
  have hgood : ({ content } : InputFile).good = true := rfl
  have hunread : ({ content } : InputFile).unread = content := List.drop_zero
  simp only [ofFile, execute_ok_iff, read_exact_bind_ok_iff, start_rejectIf_bind_ok_iff,
    start_lift_bind_ok_iff, start_modify, hgood, input_advance, InputFile.good_advance,
    InputFile.advance_advance, hunread, ne_eq, not_not, length_archive_magic, Nat.reduceAdd]
  constructor
  · intro h
    obtain ⟨_, -, _, -, hmagic, rfl, -, header, hlength, hheader, summary, hparse, hreader⟩ := h
    cases hreader
    rw [parse_ok_iff read_header_exact (by simp [hlength])] at hparse
    refine ⟨⟨(({ content } : InputFile).advance 36).unread, ?_⟩, rfl⟩
    rw [List.append_assoc, ← hparse, ← hheader]
    exact hmagic
  · intro h
    obtain ⟨⟨rest, hcontent⟩, hinput⟩ := h
    obtain ⟨input, summary⟩ := reader
    obtain rfl : input = { content, position := 36 } := hinput
    have hparse : parse summary.wire readHeader = .ok summary := by
      rw [parse_ok_iff read_header_exact rfl]
    rw [← hunread, List.append_assoc] at hcontent
    obtain ⟨hmagic, hbehind⟩ := (InputFile.unread_eq_append_iff length_archive_magic).mp hcontent
    obtain ⟨hheader, -⟩ :=
      (InputFile.unread_eq_append_iff (length_summary_wire summary)).mp hbehind
    rw [hunread] at hmagic
    exact ⟨(), by decide, _, length_archive_magic, hmagic, rfl, by decide, _,
      length_summary_wire summary, hheader, summary, hparse, rfl⟩

end ArchiveReader

end Aethon.Storage
