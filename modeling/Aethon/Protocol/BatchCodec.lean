import Mathlib.Data.List.Forall2
import Aethon.Protocol.PacketRoundTrip

/-!
# Batches of packets

A batch on the wire is a 16-bit count and that many frames, each behind its 32-bit length, after
`protocol/batch_codec.cpp`. `decode_packet_batch_ok_iff` says what the decoder accepts, and
`packet_batch_codec` that packets which survive the packet codec survive in a batch.
-/

namespace Aethon.Protocol

open Codec Parsing LittleEndian

/-- Packets that travel in one buffer. -/
structure PacketBatch where
  packets : List Packet := []
  deriving DecidableEq, Repr

/-! ## Encoding -/

/-- One round of the loop of `encode_packet_batch`. -/
def writePacketFrame (writer : BinaryWriter) (packet : Packet) : Except Error BinaryWriter := do
  let frame ← encodePacket packet
  pure ((writer.u32 (UInt32.ofNat frame.length)).bytes frame)

/-- The count of a batch in two bytes, and the frame of each packet with its length in front. -/
def encodePacketBatch (batch : PacketBatch) : Except Error Bytes := do
  rejectIf (batch.packets.length > 65535)
    (Error.mk .invalidArgument "packet batch is too large")
  let writer : BinaryWriter := {}
  let writer := writer.u16 (UInt16.ofNat batch.packets.length)
  let writer ← batch.packets.foldlM writePacketFrame writer
  pure writer.buffer

/-! ## Decoding -/

/-- One round of the loop of `decode_packet_batch`. -/
def readPacketFrame : BinaryReader Packet := do
  let frameSize ← BinaryReader.u32
  let frame ← BinaryReader.bytes frameSize.toNat
  decodePacket frame

/-- Decode as many packets as the count says, and refuse bytes behind them. -/
def decodePacketBatch (bytes : Bytes) : Except Error PacketBatch := do
  let (count, unread) ← BinaryReader.u16 bytes
  let (packets, tail) ← repeatM readPacketFrame count.toNat unread
  rejectIf (tail ≠ []) (Error.mk .malformedPacket "trailing packet batch bytes")
  pure { packets }

/-! ## What a batch is on the wire -/

/-- A frame behind its length. -/
def prefixedFrame (frame : Bytes) : Bytes :=
  digits 4 frame.length ++ frame

/-- A round reads a frame that the packet decoder accepts. -/
theorem read_packet_frame_reads :
    Reads readPacketFrame prefixedFrame fun frame packet => decodePacket frame = .ok packet := by
  intro input rest packet
  simp only [readPacketFrame, bind_ok_iff, BinaryReader.u32_exact.ok_iff,
    (BinaryReader.bytes_exact _).ok_iff, lift_ok_iff, and_true, id_eq]
  constructor
  · intro h
    obtain ⟨size, _, rfl, frame, _, ⟨rfl, hlength⟩, hdecode, rfl⟩ := h
    exact ⟨frame, by simp [prefixedFrame, hlength], hdecode⟩
  · intro h
    obtain ⟨frame, rfl, hdecode⟩ := h
    -- an accepted frame has a length of 32 bits
    obtain ⟨-, -, -, hwidth, -, -⟩ := decode_packet_ok_iff.mp hdecode
    have hsize : (UInt32.ofNat frame.length).toNat = frame.length := Nat.mod_eq_of_lt hwidth
    exact ⟨UInt32.ofNat frame.length, frame ++ rest, by simp [prefixedFrame], frame, rest,
      ⟨rfl, hsize.symm⟩, hdecode, rfl⟩

/-- The decoder accepts a count and that many frames that the packet decoder accepts, with nothing
behind them. -/
theorem decode_packet_batch_ok_iff {bytes : Bytes} {batch : PacketBatch} :
    decodePacketBatch bytes = .ok batch ↔
      ∃ frames, bytes = digits 2 frames.length ++ frames.flatMap prefixedFrame ∧
        frames.length < 2 ^ 16 ∧
        List.Forall₂ (fun frame packet => decodePacket frame = .ok packet) frames
          batch.packets := by
  have hframes := fun n => read_packet_frame_reads.repeatM n
  unfold Reads at hframes
  simp only [decodePacketBatch, except_bind_ok_iff, except_rejectIf_ok_iff, except_pure_ok_iff,
    Prod.exists, BinaryReader.u16_exact.ok_iff, hframes, ne_eq, not_not, and_true]
  constructor
  · intro h
    obtain ⟨count, _, rfl, packets, _, ⟨frames, rfl, hcount, hdecode⟩, _, rfl, rfl⟩ := h
    exact ⟨frames, by simp [hcount], hcount ▸ count.toNat_lt, hdecode⟩
  · intro h
    obtain ⟨frames, rfl, hwidth, hdecode⟩ := h
    have hcount : (UInt16.ofNat frames.length).toNat = frames.length := Nat.mod_eq_of_lt hwidth
    exact ⟨UInt16.ofNat frames.length, frames.flatMap prefixedFrame, by rw [hcount], batch.packets,
      [], ⟨frames, (List.append_nil _).symm, hcount.symm, hdecode⟩, (), rfl, rfl⟩

/-! ## The round trip -/

/-- The packet codec with its default options gives the packet back. -/
def Packet.RoundTrips (packet : Packet) : Prop :=
  ∃ frame, encodePacket packet = .ok frame ∧ decodePacket frame = .ok packet

/-- A packet that can be encoded goes behind the buffer, with its length. -/
theorem write_packet_frame_of_encode {packet : Packet} {frame : Bytes}
    (h : encodePacket packet = .ok frame) (writer : BinaryWriter) :
    writePacketFrame writer packet = .ok ⟨writer.buffer ++ prefixedFrame frame⟩ := by
  rw [writePacketFrame, h]
  refine congrArg Except.ok (BinaryWriter.ext ?_)
  simp [prefixedFrame]

/-- Packets that survive the packet codec are written as frames that are read as these packets. -/
theorem write_round_tripping {packets : List Packet}
    (h : ∀ packet ∈ packets, packet.RoundTrips) (writer : BinaryWriter) :
    ∃ frames, packets.foldlM writePacketFrame writer =
        .ok ⟨writer.buffer ++ frames.flatMap prefixedFrame⟩ ∧
      List.Forall₂ (fun frame packet => decodePacket frame = .ok packet) frames packets := by
  induction packets generalizing writer with
  | nil => exact ⟨[], by rw [List.flatMap_nil, List.append_nil]; rfl, .nil⟩
  | cons packet packets ih =>
    obtain ⟨⟨frame, hencode, hdecode⟩, hpackets⟩ := List.forall_mem_cons.mp h
    obtain ⟨frames, hframes, hall⟩ := ih hpackets ⟨writer.buffer ++ prefixedFrame frame⟩
    refine ⟨frame :: frames, ?_, .cons hdecode hall⟩
    rw [List.foldlM_cons, write_packet_frame_of_encode hencode, List.flatMap_cons,
      ← List.append_assoc]
    exact hframes

/-- A batch of at most 65535 packets that survive the packet codec survives its own codec. -/
theorem decode_encode_batch {batch : PacketBatch} (hcount : batch.packets.length ≤ 65535)
    (hpackets : ∀ packet ∈ batch.packets, packet.RoundTrips) :
    ∃ bytes, encodePacketBatch batch = .ok bytes ∧ decodePacketBatch bytes = .ok batch := by
  let writer := ({} : BinaryWriter).u16 (UInt16.ofNat batch.packets.length)
  obtain ⟨frames, hwrite, hdecode⟩ := write_round_tripping hpackets writer
  have hlength : frames.length = batch.packets.length := hdecode.length_eq
  have hwriter : writer.buffer = digits 2 frames.length := by
    rw [hlength, BinaryWriter.buffer_u16, UInt16.toNat_ofNat_of_lt' (Nat.lt_succ_of_le hcount)]
    rfl
  refine ⟨writer.buffer ++ frames.flatMap prefixedFrame, ?_, ?_⟩
  · simp only [encodePacketBatch, except_bind_ok_iff, except_rejectIf_ok_iff, except_pure_ok_iff]
    exact ⟨(), by omega, _, hwrite, rfl⟩
  · rw [hwriter]
    exact decode_packet_batch_ok_iff.mpr ⟨frames, rfl, by omega, hdecode⟩

/-- A batch of at most 65535 packets that survive the packet codec survives its own codec, and what
the decoder accepts is the count and that many frames that the packet decoder accepts, each behind
its length, and nothing else. -/
theorem packet_batch_codec :
    (∀ batch : PacketBatch, batch.packets.length ≤ 65535 →
      (∀ packet ∈ batch.packets, packet.RoundTrips) →
        ∃ bytes, encodePacketBatch batch = .ok bytes ∧ decodePacketBatch bytes = .ok batch) ∧
    ∀ bytes batch, decodePacketBatch bytes = .ok batch ↔
      ∃ frames, bytes = digits 2 frames.length ++ frames.flatMap prefixedFrame ∧
        frames.length < 2 ^ 16 ∧
        List.Forall₂ (fun frame packet => decodePacket frame = .ok packet) frames
          batch.packets :=
  ⟨fun _ => decode_encode_batch, fun _ _ => decode_packet_batch_ok_iff⟩

end Aethon.Protocol
