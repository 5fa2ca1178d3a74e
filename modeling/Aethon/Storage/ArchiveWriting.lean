import Aethon.Protocol.PacketEncode
import Aethon.Storage.ArchiveFormat

/-!
# What the archive writer writes

Each method of the writer returns under a condition on the packet and on the room that is left,
and then appends or patches known bytes. `write_archive_ok_iff` puts them together: when an
archive is written, and which bytes it then holds.
-/

namespace Aethon.Storage

open Actions FileStream Codec Protocol Parsing LittleEndian

/-- A write to the file of a stream succeeds exactly when the stream is good and the bytes fit. -/
theorem write_all_ok_iff {bytes : Bytes} {u : Unit} {out out' : OutputFile} :
    start (writeAll bytes) out = (.ok u, out') ↔
      (out.failed = false ∧ bytes.length ≤ out.medium.capacity - out.position) ∧
        out.write bytes = out' := by
  simp only [writeAll, start_modify_bind, start_get_bind, start_rejectIf_ok_iff,
    Bool.not_eq_true, OutputFile.failed_write]

/-- The state of a writer between two appends: its stream is good and stands at the end of a file
that the medium holds. -/
structure ArchiveWriter.AtEnd (writer : ArchiveWriter) : Prop where
  good : writer.out.failed = false
  position : writer.out.position = writer.out.content.length
  held : writer.out.content.length ≤ writer.out.medium.capacity

/-- The writer with more bytes at the end of its file, and a summary that counts them. -/
def ArchiveWriter.extend (writer : ArchiveWriter) (bytes : Bytes) (summary : ArchiveSummary) :
    ArchiveWriter :=
  { writer with
    out := { writer.out with
      content := writer.out.content ++ bytes
      position := (writer.out.content ++ bytes).length }
    summary }

theorem ArchiveWriter.extend_extend (writer : ArchiveWriter) (first second : Bytes)
    (middle last : ArchiveSummary) :
    (writer.extend first middle).extend second last = writer.extend (first ++ second) last := by
  simp [extend]

theorem ArchiveWriter.AtEnd.extend {writer : ArchiveWriter} (h : writer.AtEnd) {bytes : Bytes}
    {summary : ArchiveSummary}
    (hfits : writer.out.content.length + bytes.length ≤ writer.out.medium.capacity) :
    (writer.extend bytes summary).AtEnd :=
  ⟨h.good, rfl, by simpa [ArchiveWriter.extend] using hfits⟩

/-- At the end of the file a write succeeds exactly when the bytes fit, and appends them. -/
theorem ArchiveWriter.AtEnd.write_ok_iff {writer writer' : ArchiveWriter} (h : writer.AtEnd)
    {bytes : Bytes} {u : Unit} :
    start (ArchiveWriter.onOut (writeAll bytes)) writer = (.ok u, writer') ↔
      writer.out.content.length + bytes.length ≤ writer.out.medium.capacity ∧
        writer' = writer.extend bytes writer.summary := by
  have hheld := h.held
  have hposition := h.position
  simp only [ArchiveWriter.onOut, start_zoom_ok_iff, write_all_ok_iff]
  constructor
  · intro hrun
    obtain ⟨_, ⟨⟨-, hfits⟩, rfl⟩, rfl⟩ := hrun
    refine ⟨by omega, ?_⟩
    rw [OutputFile.write_end h.good h.position hfits]
    rfl
  · intro hgiven
    obtain ⟨hfits, rfl⟩ := hgiven
    have hroom : bytes.length ≤ writer.out.medium.capacity - writer.out.position := by omega
    refine ⟨_, ⟨⟨h.good, hroom⟩, rfl⟩, ?_⟩
    rw [OutputFile.write_end h.good h.position hroom]
    rfl

/-- An append succeeds exactly when the encoder accepts the packet and its record fits. -/
theorem append_ok_iff {writer writer' : ArchiveWriter} (h : writer.AtEnd) {captureTimeNs : UInt64}
    {packet : Packet} {u : Unit} :
    start (ArchiveWriter.append captureTimeNs packet) writer = (.ok u, writer') ↔
      (EncoderLimits packet ∧ writer.out.content.length +
          (recordWire captureTimeNs (packetFrame packet)).length ≤ writer.out.medium.capacity) ∧
        writer' = writer.extend (recordWire captureTimeNs (packetFrame packet))
          (ArchiveWriter.record writer.summary captureTimeNs) := by
  have hrecord (frame : Bytes) : ((((BinaryWriter.mk []).u64 captureTimeNs).u32
      (UInt32.ofNat frame.length)).bytes frame).buffer = coveredWire captureTimeNs frame := by
    -- a truncated frame length has the same low bytes as the length
    simp [coveredWire, prefixWire]
  simp only [ArchiveWriter.append, start_lift_bind_ok_iff, encode_packet_ok_iff,
    BinaryWriter.buffer_u32, hrecord]
  simp only [start_bind_ok_iff, h.write_ok_iff, start_modify, Prod.mk.injEq, true_and]
  constructor
  · intro hrun
    obtain ⟨_, ⟨hlimits, rfl⟩, _, _, ⟨hfits, rfl⟩, rfl⟩ := hrun
    exact ⟨⟨hlimits, hfits⟩, rfl⟩
  · intro hgiven
    obtain ⟨⟨hlimits, hfits⟩, rfl⟩ := hgiven
    exact ⟨_, ⟨hlimits, rfl⟩, (), _, ⟨hfits, rfl⟩, rfl⟩

/-- An append writes its record, or nothing when the encoder refuses the packet. -/
theorem append_out (captureTimeNs : UInt64) (packet : Packet) (writer : ArchiveWriter) :
    (start (ArchiveWriter.append captureTimeNs packet) writer).2.out = writer.out ∨
      ∃ bytes, (start (ArchiveWriter.append captureTimeNs packet) writer).2.out =
        writer.out.write bytes := by
  have hwrite (bytes : Bytes) : (start (writeAll bytes) writer.out).2 = writer.out.write bytes := by
    simp only [writeAll, start_modify_bind, start_get_bind, rejectIf]
    split
    · rfl
    · rfl
  have hrecord (bytes : Bytes) (summarize : ArchiveWriter → ArchiveWriter)
      (hsame : ∀ writer : ArchiveWriter, (summarize writer).out = writer.out) :
      (start (ArchiveWriter.onOut (writeAll bytes) >>= fun _ => modify summarize) writer).2.out =
        writer.out.write bytes := by
    rw [start_bind, ArchiveWriter.onOut, start_zoom, ← hwrite bytes]
    rcases start (writeAll bytes) writer.out with ⟨failure | _, out⟩
    · rfl
    · exact hsame _
  rw [ArchiveWriter.append, start_bind]
  cases encodePacket packet with
  | error failure => exact Or.inl rfl
  | ok frame => exact Or.inr ⟨_, hrecord _ _ fun _ => rfl⟩

/-- The state of a writer that is only appended to: at the end of its file, unless its stream has
failed. -/
def ArchiveWriter.Appending (writer : ArchiveWriter) : Prop :=
  writer.out.failed = false → writer.AtEnd

/-- Appending a packet keeps the writer appending. -/
theorem ArchiveWriter.Appending.append {writer : ArchiveWriter} (h : writer.Appending)
    (captureTimeNs : UInt64) (packet : Packet) :
    (start (ArchiveWriter.append captureTimeNs packet) writer).2.Appending := by
  intro hgood
  obtain hsame | ⟨bytes, hwritten⟩ := append_out captureTimeNs packet writer
  · rw [hsame] at hgood
    have hend := h hgood
    exact ⟨hsame ▸ hgood, hsame ▸ hend.position, hsame ▸ hend.held⟩
  · rw [hwritten] at hgood
    obtain ⟨hbefore, hfits⟩ := OutputFile.failed_write.mp hgood
    have hend := h hbefore
    have hheld := hend.held
    have hposition := hend.position
    have hroom : (writer.out.content ++ bytes).length ≤ writer.out.medium.capacity := by
      rw [List.length_append]
      omega
    rw [OutputFile.write_end hbefore hend.position hfits] at hwritten
    exact ⟨hwritten ▸ hbefore, by rw [hwritten], by rw [hwritten]; exact hroom⟩

/-- No append succeeds on a stream that has failed. -/
theorem append_good {writer writer' : ArchiveWriter} {captureTimeNs : UInt64} {packet : Packet}
    {u : Unit}
    (h : start (ArchiveWriter.append captureTimeNs packet) writer = (.ok u, writer')) :
    writer.out.failed = false := by
  simp only [ArchiveWriter.append, ArchiveWriter.onOut, start_lift_bind_ok_iff,
    start_zoom_bind_ok_iff, write_all_ok_iff] at h
  obtain ⟨_, -, _, _, ⟨⟨hgood, -⟩, -⟩, -⟩ := h
  exact hgood

/-- On a stream that may have failed an append also needs a good one. -/
theorem append_ok_iff_of_appending {writer writer' : ArchiveWriter} (h : writer.Appending)
    {captureTimeNs : UInt64} {packet : Packet} {u : Unit} :
    start (ArchiveWriter.append captureTimeNs packet) writer = (.ok u, writer') ↔
      (EncoderLimits packet ∧ writer.out.failed = false ∧ writer.out.content.length +
          (recordWire captureTimeNs (packetFrame packet)).length ≤ writer.out.medium.capacity) ∧
        writer' = writer.extend (recordWire captureTimeNs (packetFrame packet))
          (ArchiveWriter.record writer.summary captureTimeNs) := by
  by_cases hgood : writer.out.failed = false
  · rw [append_ok_iff (h hgood)]
    simp only [hgood, true_and]
  · have hnever : start (ArchiveWriter.append captureTimeNs packet) writer ≠ (.ok u, writer') :=
      fun hrun => hgood (append_good hrun)
    simp [hnever, hgood]

/-- Appending entries succeeds exactly when the encoder accepts them all and their records fit. -/
theorem append_all_ok_iff {writer writer' : ArchiveWriter} (h : writer.AtEnd)
    {entries : List (UInt64 × Packet)} {u : PUnit} :
    start (forM entries fun entry => ArchiveWriter.append entry.1 entry.2) writer =
        (.ok u, writer') ↔
      ((∀ entry ∈ entries, EncoderLimits entry.2) ∧ writer.out.content.length +
          (recordsWire entries).length ≤ writer.out.medium.capacity) ∧
        writer' = writer.extend (recordsWire entries) (summarize writer.summary entries) := by
  induction entries generalizing writer with
  | nil =>
      have hheld := h.held
      have hsame : writer.extend (recordsWire []) (summarize writer.summary []) = writer := by
        simp [ArchiveWriter.extend, recordsWire, summarize, ← h.position]
      rw [hsame, List.forM_nil, start_pure]
      simp [recordsWire, hheld, eq_comm]
  | cons entry entries ih =>
      let wire := recordWire entry.1 (packetFrame entry.2)
      let appended := writer.extend wire (ArchiveWriter.record writer.summary entry.1)
      have hsame : appended.extend (recordsWire entries) (summarize appended.summary entries) =
          writer.extend (recordsWire (entry :: entries))
            (summarize writer.summary (entry :: entries)) :=
        writer.extend_extend wire (recordsWire entries) _ _
      have hlength : appended.out.content.length = writer.out.content.length + wire.length :=
        List.length_append
      simp only [List.forM_cons, start_bind_ok_iff, append_ok_iff h]
      rw [recordsWire_cons, List.length_append, ← Nat.add_assoc]
      constructor
      · intro hrun
        obtain ⟨_, _, ⟨⟨hlimits, hfits⟩, rfl⟩, hrest⟩ := hrun
        obtain ⟨⟨hall, hroom⟩, rfl⟩ := (ih (h.extend hfits)).mp hrest
        exact ⟨⟨List.forall_mem_cons.mpr ⟨hlimits, hall⟩, hlength ▸ hroom⟩, hsame⟩
      · intro hgiven
        obtain ⟨⟨hall, hroom⟩, rfl⟩ := hgiven
        obtain ⟨hlimits, hrest⟩ := List.forall_mem_cons.mp hall
        -- a record fits where it and the records behind it do
        have hfits : writer.out.content.length + wire.length ≤ writer.out.medium.capacity :=
          (Nat.le_add_right _ _).trans hroom
        exact ⟨(), appended, ⟨⟨hlimits, hfits⟩, rfl⟩,
          (ih (h.extend hfits)).mpr ⟨⟨hrest, hlength.symm ▸ hroom⟩, hsame.symm⟩⟩

/-- Closing an open writer succeeds: the header that it patches has the size of the one before. -/
theorem close_ok_iff {writer writer' : ArchiveWriter} {old rest : Bytes} {u : Unit}
    (hopen : writer.closed = false) (hgood : writer.out.failed = false)
    (hcontent : writer.out.content = archiveMagic ++ old ++ rest) (hold : old.length = 28)
    (hheld : writer.out.content.length ≤ writer.out.medium.capacity) :
    start ArchiveWriter.close writer = (.ok u, writer') ↔
      writer' = { writer with
        out := { writer.out with
          content := archiveMagic ++ writer.summary.wire ++ rest, position := 36 }
        closed := true } := by
  let sought : OutputFile := { writer.out with position := 8 }
  have hseek : writer.out.seek archiveMagic.length = sought := by
    simp [OutputFile.seek, hgood, sought]
  have hheader : ((((BinaryWriter.mk []).u32 writer.summary.formatVersion).u64
      writer.summary.recordCount).u64 writer.summary.firstTimeNs).u64 writer.summary.lastTimeNs =
      ⟨writer.summary.wire⟩ := by
    ext1
    simp [ArchiveSummary.wire]
  -- the new header covers exactly the bytes of the old one
  have hpatch : sought.write writer.summary.wire = { writer.out with
      content := archiveMagic ++ writer.summary.wire ++ rest, position := 36 } := by
    rw [@OutputFile.write_within sought archiveMagic old writer.summary.wire rest hgood hcontent rfl
      (by simp [hold]) hheld]
    simp [sought]
  have hfits : writer.summary.wire.length ≤ sought.medium.capacity - sought.position := by
    rw [hcontent, List.length_append, List.length_append, hold] at hheld
    simp only [length_summary_wire, length_archive_magic, sought] at hheld ⊢
    omega
  simp only [ArchiveWriter.close, start_get_bind, hopen, Bool.false_eq_true, if_false,
    start_modify_bind, hheader, hseek, start_bind_ok_iff, ArchiveWriter.onOut, start_zoom_ok_iff,
    write_all_ok_iff, start_modify, Prod.mk.injEq, hpatch, true_and]
  constructor
  · intro h
    obtain ⟨_, _, ⟨_, ⟨-, rfl⟩, rfl⟩, rfl⟩ := h
    rfl
  · rintro rfl
    exact ⟨(), _, ⟨_, ⟨⟨hgood, hfits⟩, rfl⟩, rfl⟩, rfl⟩

/-- The constructor succeeds exactly when the magic string and an empty header fit. -/
theorem create_ok_iff {medium : Medium} {writer : ArchiveWriter} :
    ArchiveWriter.create (some medium) = .ok writer ↔
      36 ≤ medium.capacity ∧ writer = { out := {
        medium, content := archiveMagic ++ ({} : ArchiveSummary).wire, position := 36 } } := by
  let opened : ArchiveWriter := { out := { medium } }
  have hopened : opened.AtEnd := ⟨rfl, rfl, Nat.zero_le _⟩
  simp only [ArchiveWriter.create, execute_ok_iff, start_bind_ok_iff, start_get_bind,
    BinaryWriter.buffer_u32, BinaryWriter.buffer_u64, List.nil_append]
  constructor
  · intro h
    obtain ⟨_, _, _, hmagic, hheader⟩ := h
    obtain ⟨hfits, rfl⟩ := hopened.write_ok_iff.mp hmagic
    obtain ⟨hroom, rfl⟩ := (hopened.extend hfits).write_ok_iff.mp hheader
    refine ⟨?_, ?_⟩
    · simpa [ArchiveWriter.extend, opened] using hroom
    · simp [ArchiveWriter.extend, opened, ArchiveSummary.wire]
  · intro h
    obtain ⟨hroom, rfl⟩ := h
    have hfits : opened.out.content.length + archiveMagic.length ≤ opened.out.medium.capacity := by
      simp only [opened, List.length_nil, length_archive_magic]
      omega
    refine ⟨(), (), _, hopened.write_ok_iff.mpr ⟨hfits, rfl⟩,
      (hopened.extend hfits).write_ok_iff.mpr ⟨?_, ?_⟩⟩
    · simpa [ArchiveWriter.extend, opened] using hroom
    · simp [ArchiveWriter.extend, opened, ArchiveSummary.wire]

/-- An archive is written exactly when the encoder accepts all packets and the medium holds it,
and then holds these bytes. -/
theorem write_archive_ok_iff {medium : Medium} {entries : List (UInt64 × Packet)}
    {writer : ArchiveWriter} :
    writeArchive medium entries = .ok writer ↔
      ((∀ entry ∈ entries, EncoderLimits entry.2) ∧
          (archiveWire entries).length ≤ medium.capacity) ∧
        writer = {
          out := { medium, content := archiveWire entries, position := 36 }
          summary := summarize {} entries
          closed := true } := by
  let created : ArchiveWriter :=
    { out := { medium, content := archiveMagic ++ ({} : ArchiveSummary).wire, position := 36 } }
  let appended := created.extend (recordsWire entries) (summarize {} entries)
  have hlength : (archiveWire entries).length = 36 + (recordsWire entries).length := by
    simp [archiveWire]
    omega
  have hend (hroom : 36 ≤ medium.capacity) : created.AtEnd := ⟨rfl, rfl, hroom⟩
  have happended (hroom : 36 ≤ medium.capacity) (u : PUnit) (writer' : ArchiveWriter) :
      start (forM entries fun entry => ArchiveWriter.append entry.1 entry.2) created =
          (.ok u, writer') ↔
        ((∀ entry ∈ entries, EncoderLimits entry.2) ∧
            36 + (recordsWire entries).length ≤ medium.capacity) ∧ writer' = appended :=
    append_all_ok_iff (hend hroom)
  have hclosed (hfits : 36 + (recordsWire entries).length ≤ medium.capacity) (u : Unit) :
      start ArchiveWriter.close appended = (.ok u, writer) ↔ writer = {
          out := { medium, content := archiveWire entries, position := 36 }
          summary := summarize {} entries
          closed := true } :=
    close_ok_iff rfl rfl rfl (length_summary_wire {})
      (by simp [appended, created, ArchiveWriter.extend]; omega)
  simp only [writeArchive, except_bind_ok_iff, create_ok_iff, execute_ok_iff, start_bind_ok_iff]
  constructor
  · intro h
    obtain ⟨_, ⟨hroom, rfl⟩, _, _, _, hall, hclose⟩ := h
    obtain ⟨⟨hlimits, hfits⟩, rfl⟩ := (happended hroom _ _).mp hall
    exact ⟨⟨hlimits, hlength ▸ hfits⟩, (hclosed hfits _).mp hclose⟩
  · intro h
    obtain ⟨⟨hlimits, hfits⟩, hwriter⟩ := h
    rw [hlength] at hfits
    have hroom : 36 ≤ medium.capacity := by omega
    exact ⟨created, ⟨hroom, rfl⟩, (), (), appended,
      (happended hroom _ _).mpr ⟨⟨hlimits, hfits⟩, rfl⟩, (hclosed hfits _).mpr hwriter⟩

end Aethon.Storage
