import Aethon.Protocol.PacketDecode
import Aethon.Storage.Repair

/-!
# What the salvage scan finds

`scan_sound_and_complete`: the reported slices are disjoint and each decodes to the reported packet,
every frame of the bytes is reported or begins inside a reported one, and every candidate is counted
as reported or rejected.
-/

namespace Aethon.Storage

open Codec Protocol Parsing LittleEndian

/-- A word is read where its bytes stand. -/
theorem read_u32_le_of_drop {bytes rest : Bytes} {offset : Nat} {word : UInt32}
    (h : bytes.drop offset = digits 4 word.toNat ++ rest) : readU32Le bytes offset = word := by
  have hbyte (i : Nat) : bytes.getD (offset + i) 0 = (digits 4 word.toNat ++ rest).getD i 0 := by
    rw [← h]
    simp [List.getD_eq_getElem?_getD]
  have hdigits := value_digits (show word.toNat < 256 ^ 4 from word.toNat_lt)
  rw [← UInt32.toNat_inj, readU32Le, BinaryReader.word32_toNat, hbyte 1, hbyte 2, hbyte 3,
    show bytes.getD offset 0 = _ from hbyte 0]
  simpa [digits_succ] using hdigits

/-- A frame that the decoder accepts begins at the offset. -/
def FrameAt (options : DecodeOptions) (bytes : Bytes) (offset : Nat) (packet : Packet) : Prop :=
  ∃ frame rest, bytes.drop offset = frame ++ rest ∧ decodePacket frame options = .ok packet

/-- What the scanner looks at where a frame begins. -/
theorem FrameAt.seen {options : DecodeOptions} {bytes : Bytes} {offset : Nat} {packet : Packet}
    (h : FrameAt options bytes offset packet) :
    offset + 12 ≤ bytes.length ∧ readU32Le bytes offset = packetMagic ∧
      frameLen bytes offset ≤ options.maxPacketSize ∧
      offset + frameLen bytes offset ≤ bytes.length ∧
      decodePacket (subspan bytes offset (frameLen bytes offset)) options = .ok packet := by
  obtain ⟨frame, rest, hdrop, hdecode⟩ := h
  obtain ⟨sections, hframe, hmax, hwidth, -, -⟩ := decode_packet_ok_iff.mp hdecode
  generalize packet.bodyWire sections = body at hframe
  have hlength : frame.length = body.length + 12 := by
    rw [hframe]
    simp [frameWire, envelopeWire]
    omega
  have hbody : body.length < 2 ^ 32 := by omega
  let word := UInt32.ofNat body.length
  have hword : word.toNat = body.length := Nat.mod_eq_of_lt (show body.length < 2 ^ 32 by omega)
  let more := digits 4 word.toNat ++
    (body ++ digits 4 (crc32c (envelopeWire body)).toNat ++ rest)
  have hmagic : bytes.drop offset = digits 4 packetMagic.toNat ++ more := by
    rw [hdrop, hframe]
    simp [frameWire, envelopeWire, more, hword]
  have hlengthField : bytes.drop (offset + 4) = more := by
    rw [← List.drop_drop, hmagic]
    exact List.drop_left' (length_digits 4 _)
  have hframeLen : frameLen bytes offset = frame.length := by
    rw [frameLen, read_u32_le_of_drop hlengthField, hword, hlength]
  have hend : offset + frame.length ≤ bytes.length := by
    have := congrArg List.length hdrop
    rw [List.length_drop, List.length_append] at this
    omega
  have hslice : subspan bytes offset frame.length = frame := by
    rw [subspan, hdrop, List.take_left]
  rw [hframeLen, hslice]
  exact ⟨by omega, read_u32_le_of_drop hmagic, hmax, hend, hdecode⟩

/-- Inferring a capture time never throws where a frame header fits. -/
theorem infer_capture_time_ok {bytes : Bytes} {offset : Nat} (h : offset + 12 ≤ bytes.length) :
    ∃ captureTimeNs, inferCaptureTime bytes offset = .ok captureTimeNs := by
  unfold inferCaptureTime
  by_cases hfront : offset < 12
  · exact ⟨0, if_pos hfront⟩
  rw [if_neg hfront]
  by_cases hlen : readU32Le bytes (offset - 12 + 8) ≠ readU32Le bytes (offset + 4) + 12
  · exact ⟨0, if_pos hlen⟩
  simp only [if_neg hlen]
  have hlength : (subspan bytes (offset - 12) 8).length = 8 := by
    rw [subspan, List.length_take, List.length_drop]
    omega
  generalize subspan bytes (offset - 12) 8 = span at hlength
  match span, hlength with
  | [b0, b1, b2, b3, b4, b5, b6, b7], _ => exact ⟨_, rfl⟩

/-- The `try` block succeeds exactly when the decoder accepts the slice. -/
theorem salvage_ok_iff {options : DecodeOptions} {bytes : Bytes} {offset : Nat}
    (h : offset + 12 ≤ bytes.length) {packet : Packet} :
    (∃ item, salvage options bytes offset = .ok item ∧ item.packet = packet) ↔
      decodePacket (subspan bytes offset (frameLen bytes offset)) options = .ok packet := by
  obtain ⟨captureTimeNs, htime⟩ := infer_capture_time_ok h
  simp only [salvage, htime, except_bind_ok_iff, except_pure_ok_iff]
  constructor
  · intro hrun
    obtain ⟨_, ⟨decoded, hdecode, _, -, rfl⟩, rfl⟩ := hrun
    exact hdecode
  · intro hdecode
    exact ⟨_, ⟨packet, hdecode, captureTimeNs, rfl, rfl⟩, rfl⟩

/-! ## The loop -/

/-- The slice of a reported packet lies in the bytes and decodes to the packet. -/
def Slice (options : DecodeOptions) (bytes : Bytes) (item : SalvagedPacket) : Prop :=
  item.fileOffset + frameLen bytes item.fileOffset ≤ bytes.length ∧
    decodePacket (subspan bytes item.fileOffset (frameLen bytes item.fileOffset)) options =
      .ok item.packet

/-- An offset lies in the slice of a reported packet. -/
def Covered (bytes : Bytes) (report : RepairReport) (offset : Nat) : Prop :=
  ∃ item ∈ report.packets, item.fileOffset ≤ offset ∧
    offset < item.fileOffset + frameLen bytes item.fileOffset

/-- The report when the loop stands at an offset. -/
structure Scanned (options : DecodeOptions) (bytes : Bytes) (offset : Nat)
    (report : RepairReport) : Prop where
  slices : ∀ item ∈ report.packets, Slice options bytes item
  behind : ∀ item ∈ report.packets, item.fileOffset + frameLen bytes item.fileOffset ≤ offset
  disjoint : report.packets.Pairwise fun earlier later =>
    earlier.fileOffset + frameLen bytes earlier.fileOffset ≤ later.fileOffset
  complete : ∀ start < offset, ∀ packet, FrameAt options bytes start packet →
    Covered bytes report start
  counted : report.candidateFrames = report.packets.length + report.rejectedFrames

section Loop

variable {options : DecodeOptions} {bytes : Bytes} {offset : Nat} {report : RepairReport}

/-- An offset where no frame begins is left behind, and may be counted as rejected. -/
theorem Scanned.skip (h : Scanned options bytes offset report)
    (hnone : ∀ packet, ¬ FrameAt options bytes offset packet) {skipped : RepairReport}
    (hpackets : skipped.packets = report.packets)
    (hcounted : skipped.candidateFrames = skipped.packets.length + skipped.rejectedFrames) :
    Scanned options bytes (offset + 1) skipped := by
  refine ⟨hpackets ▸ h.slices, fun item hitem => ?_, hpackets ▸ h.disjoint, ?_, hcounted⟩
  · rw [hpackets] at hitem
    exact (h.behind item hitem).trans (Nat.le_succ offset)
  · intro start hstart packet hframe
    rw [Covered, hpackets]
    rcases Nat.lt_succ_iff_lt_or_eq.mp hstart with hstart | rfl
    · exact h.complete start hstart packet hframe
    · exact absurd hframe (hnone packet)

/-- A salvaged packet covers the offsets that the loop jumps over. -/
theorem Scanned.jump (h : Scanned options bytes offset report) {item : SalvagedPacket}
    (hoffset : item.fileOffset = offset) (hslice : Slice options bytes item) :
    Scanned options bytes (offset + (frameLen bytes offset - 1) + 1)
      { report with
        candidateFrames := report.candidateFrames + 1, packets := report.packets ++ [item] } := by
  subst hoffset
  have hpositive : 12 ≤ frameLen bytes item.fileOffset := Nat.le_add_left 12 _
  refine ⟨?_, ?_, ?_, ?_, ?_⟩
  · intro other hother
    rcases List.mem_append.mp hother with hother | hother
    · exact h.slices other hother
    · rwa [List.mem_singleton.mp hother]
  · intro other hother
    rcases List.mem_append.mp hother with hother | hother
    · have := h.behind other hother
      omega
    · rw [List.mem_singleton.mp hother]
      omega
  · refine List.pairwise_append.mpr ⟨h.disjoint, List.pairwise_singleton _ _, ?_⟩
    intro earlier hearlier later hlater
    rw [List.mem_singleton.mp hlater]
    exact h.behind earlier hearlier
  · intro start hstart packet hframe
    rcases Nat.lt_or_ge start item.fileOffset with hbefore | hinside
    · obtain ⟨other, hother, hcovers⟩ := h.complete start hbefore packet hframe
      exact ⟨other, List.mem_append_left _ hother, hcovers⟩
    · exact ⟨item, List.mem_append_right _ (List.mem_singleton_self item), hinside, by omega⟩
  · show report.candidateFrames + 1 = (report.packets ++ [item]).length + report.rejectedFrames
    rw [List.length_append, List.length_singleton, h.counted]
    omega

/-- The loop ends where no frame fits any more. -/
theorem scan_loop_scanned (h : Scanned options bytes offset report) :
    ∃ last, bytes.length < last + 12 ∧
      Scanned options bytes last (scanLoop options bytes offset report) := by
  fun_induction scanLoop options bytes offset report with
  | case1 offset report hfits hmagic ih =>
      refine ih (h.skip ?_ rfl h.counted)
      intro packet hframe
      exact hmagic hframe.seen.2.1
  | case2 offset report hfits hmagic candidate hsize ih =>
      refine ih (h.skip ?_ rfl ?_)
      · intro packet hframe
        obtain ⟨-, -, hmax, hend, -⟩ := hframe.seen
        omega
      · show report.candidateFrames + 1 = report.packets.length + (report.rejectedFrames + 1)
        rw [h.counted, Nat.add_assoc]
  | case3 offset report hfits hmagic candidate hsize item hitem ih =>
      rw [not_or, Nat.not_lt, Nat.not_lt] at hsize
      have hdecode := (salvage_ok_iff hfits).mp ⟨item, hitem, rfl⟩
      have hoffset : item.fileOffset = offset := by
        simp only [salvage, except_bind_ok_iff, except_pure_ok_iff] at hitem
        obtain ⟨_, -, _, -, rfl⟩ := hitem
        rfl
      subst hoffset
      exact ih (h.jump rfl ⟨hsize.2, hdecode⟩)
  | case4 offset report hfits hmagic candidate hsize failure hfailure ih =>
      refine ih (h.skip ?_ rfl ?_)
      · intro packet hframe
        obtain ⟨-, -, -, -, hdecode⟩ := hframe.seen
        obtain ⟨item, hitem, -⟩ := (salvage_ok_iff hfits).mpr hdecode
        rw [hitem] at hfailure
        cases hfailure
      · show report.candidateFrames + 1 = report.packets.length + (report.rejectedFrames + 1)
        rw [h.counted, Nat.add_assoc]
  | case5 offset report hfits => exact ⟨offset, by omega, h⟩

end Loop

/-- The scan ends with the report of all its bytes. -/
theorem scan_bytes_scanned (options : DecodeOptions) (bytes : Bytes) :
    ∃ last, bytes.length < last + 12 ∧ Scanned options bytes last (scanBytes options bytes) := by
  have hstart : Scanned options bytes 0 { bytesScanned := bytes.length } :=
    ⟨by simp, by simp, List.Pairwise.nil, fun _ h => absurd h (Nat.not_lt_zero _), rfl⟩
  unfold scanBytes
  by_cases hshort : bytes.length < 12
  · rw [if_pos hshort]
    exact ⟨0, by omega, hstart⟩
  · rw [if_neg hshort]
    exact scan_loop_scanned hstart

/-- Whatever the bytes are, the reported slices lie one behind the other and decode to the reported
packets, every frame that the decoder accepts is reported unless it begins inside an earlier
reported slice, and every candidate is reported or counted as rejected. -/
theorem scan_sound_and_complete (options : DecodeOptions) (bytes : Bytes) :
    let report := scanBytes options bytes
    (∀ item ∈ report.packets, Slice options bytes item) ∧
      (report.packets.Pairwise fun earlier later =>
        earlier.fileOffset + frameLen bytes earlier.fileOffset ≤ later.fileOffset) ∧
      (∀ offset packet, FrameAt options bytes offset packet →
        (∃ item ∈ report.packets, item.fileOffset = offset ∧ item.packet = packet) ∨
          ∃ item ∈ report.packets, item.fileOffset < offset ∧
            offset < item.fileOffset + frameLen bytes item.fileOffset) ∧
      report.candidateFrames = report.packets.length + report.rejectedFrames := by
  intro report
  obtain ⟨last, hend, hscanned⟩ := scan_bytes_scanned options bytes
  refine ⟨hscanned.slices, hscanned.disjoint, ?_, hscanned.counted⟩
  intro offset packet hframe
  obtain ⟨hfits, -, -, -, hdecode⟩ := hframe.seen
  obtain ⟨item, hitem, hfrom, hto⟩ := hscanned.complete offset (by omega) packet hframe
  rcases Nat.eq_or_lt_of_le hfrom with rfl | hbefore
  · -- the slice that begins there has been decoded to the reported packet
    have hreported := (hscanned.slices item hitem).2
    exact Or.inl ⟨item, hitem, rfl, Except.ok.inj (hreported.symm.trans hdecode)⟩
  · exact Or.inr ⟨item, hitem, hbefore, hto⟩

end Aethon.Storage
