import Aethon.Compression.Compressor
import Aethon.Crypto.EnvelopeCipher
import Aethon.Protocol.PacketDecode

/-!
# Round trips of the packet codec

Two directions. `encode_decode_iff` says for which packets the codec is lossless, and
`decode_encode_normalises` says that decoding and encoding again turns any accepted frame into
a canonical one that is no longer. `recode_exact` is about the way of a packet through all codecs
and back that `fuzz/packet_fuzzer.cpp` tries.
-/

namespace Aethon.Protocol

open Codec Compression Crypto Parsing LittleEndian

/-- A packet survives the codec with the default options exactly when it meets the limits of
the wire format and its frame is at most the default size limit. Nothing is asked of the
compression and encryption bytes. -/
theorem encode_decode_iff (packet : Packet) :
    (∃ frame, encodePacket packet = .ok frame ∧ decodePacket frame = .ok packet) ↔
      WireLimits packet ∧ ∀ frame, encodePacket packet = .ok frame →
        frame.length ≤ ({} : DecodeOptions).maxPacketSize := by
  constructor
  · intro h
    obtain ⟨frame, hencode, hdecode⟩ := h
    refine ⟨decode_packet_limits hdecode, fun frame' hencode' => ?_⟩
    obtain rfl : frame = frame' := Except.ok.inj (hencode.symm.trans hencode')
    obtain ⟨-, -, hmax, -⟩ := decode_packet_ok_iff.mp hdecode
    exact hmax
  · intro h
    obtain ⟨hlimits, hsize⟩ := h
    have hencode := encode_packet_of_limits hlimits
    have hmax := hsize _ hencode
    have hwidth : ({} : DecodeOptions).maxPacketSize < 2 ^ 32 := by decide
    exact ⟨_, hencode, decode_encode_packet hlimits hencode hmax (hmax.trans_lt hwidth)⟩

/-- Every accepted frame has a canonical frame: encoding the decoded packet succeeds, needs no
more bytes, and decodes to the same packet, so encoding after decoding changes nothing from
then on. -/
theorem decode_encode_normalises {options : DecodeOptions} {frame : Bytes} {packet : Packet}
    (h : decodePacket frame options = .ok packet) :
    ∃ frame', encodePacket packet = .ok frame' ∧ frame'.length ≤ frame.length ∧
      decodePacket frame' options = .ok packet ∧
      (decodePacket frame' options >>= encodePacket) = .ok frame' := by
  have hlimits := decode_packet_limits h
  have hencode := encode_packet_of_limits hlimits
  have hshorter := length_frame_le h
  obtain ⟨-, -, hmax, hwidth, -, -⟩ := decode_packet_ok_iff.mp h
  have hdecode : decodePacket (frameWire (packet.bodyWire (packet.sectionsWire ++ [0]))) options =
      .ok packet :=
    decode_encode_packet hlimits hencode (hshorter.trans hmax) (hshorter.trans_lt hwidth)
  exact ⟨_, hencode, hshorter, hdecode, by rw [hdecode]; exact hencode⟩

/-- A device that sets the undefined capability bits as well: the encoder never writes its flag
byte, and the canonical frame is the one with the flag byte 7. -/
theorem decode_encode_normalises_flags :
    let caps : DeviceCapabilities := ⟨true, true, true, 4096, [[0x6c]]⟩
    let packet : Packet := { capabilities := some caps }
    let sections := sectionWire capabilitiesSection (caps.wireWith 0xff) ++ [0]
    ∃ frame', encodePacket packet = .ok frame' ∧
      frame'.length ≤ (frameWire (packet.bodyWire sections)).length ∧
      decodePacket frame' = .ok packet ∧
      (decodePacket frame' >>= encodePacket) = .ok frame' := by
  intro caps packet sections
  have hlength : (frameWire (packet.bodyWire sections)).length = 55 := by
    simp [sections, Packet.bodyWire, Packet.headerWire, DeviceCapabilities.wireWith, caps, packet]
  have hread : SectionsRead {} packet.header sections { packet with payload := [] } :=
    .step (by decide) (by decide)
      (.capabilities 0xff caps rfl rfl rfl (by decide) (by decide)) (.terminator _)
  exact decode_encode_normalises (decode_packet_ok_iff.mpr
    ⟨sections, rfl, by rw [hlength]; decide, by rw [hlength]; decide, ⟨by decide, by decide⟩,
      hread⟩)

/-! ## Through all codecs -/

/-- The key that is used for a packet. -/
def recodeKey (packet : Packet) : KeyMaterial := ⟨[0x41, 0x45, 0x54, 0x48], packet.sequence⟩

/-- The body of `LLVMFuzzerTestOneInput`, with what its last call returns. -/
def recode (data : Bytes) : Except Error Packet := do
  let packet ← decodePacket data { maxPacketSize := 128 * 1024 }
  let compressor ← makeCompressor packet.compression
  let payload ← compressor.decompress packet.payload (256 * 1024)
  let cipher ← makeCipher packet.encryption
  let message ← cipher.sealMessage payload (recodeKey packet)
  let opened ← cipher.openMessage message (recodeKey packet)
  let encoded ← encodePacket { packet with payload := opened }
  decodePacket encoded { maxPacketSize := 128 * 1024, requireKnownExtensions := true }

/-- The payload of a packet, expanded: as it is, or its runs within the limit. -/
inductive Expands (packet : Packet) : Bytes → Prop
  | plain (hmode : packet.compression = .none) : Expands packet packet.payload
  | runs (hmode : packet.compression = .rle) {pairs : List (UInt8 × UInt8)}
      (hpayload : packet.payload = pairsWire pairs)
      (hlimit : (expand pairs).length ≤ 256 * 1024) : Expands packet (expand pairs)

/-- A payload can be expanded exactly where a decompressor returns it. -/
theorem decompress_iff_expands {packet : Packet} {payload : Bytes} :
    (∃ compressor, makeCompressor packet.compression = .ok compressor ∧
      compressor.decompress packet.payload (256 * 1024) = .ok payload) ↔
      Expands packet payload := by
  constructor
  · rintro ⟨compressor, hmake, hdecompress⟩
    unfold makeCompressor at hmake
    split_ifs at hmake with hnone hrle
    · cases hmake
      cases hdecompress
      exact .plain hnone
    · cases hmake
      obtain ⟨pairs, hpayload, rfl, hlimit⟩ := decompress_ok_iff.mp hdecompress
      exact .runs hrle hpayload hlimit
  · intro h
    cases h with
    | plain hmode => exact ⟨.null, by rw [hmode]; rfl, rfl⟩
    | runs hmode hpayload hlimit =>
        exact ⟨.rle, by rw [hmode]; rfl, decompress_ok_iff.mpr ⟨_, hpayload, rfl, hlimit⟩⟩

/-- No limit of the wire format is on the payload. -/
theorem WireLimits.with_payload {packet : Packet} (h : WireLimits packet) (payload : Bytes) :
    WireLimits { packet with payload := payload } :=
  ⟨⟨h.version, h.kind⟩, ⟨h.fragment, h.relayPath, h.bandCount, h.bandLength, h.extensions⟩⟩

/-- A recoded packet was decoded, expanded, encoded and decoded again. -/
theorem recode_ok_iff {data : Bytes} {result : Packet} :
    recode data = .ok result ↔
      ∃ packet payload, decodePacket data { maxPacketSize := 128 * 1024 } = .ok packet ∧
        Expands packet payload ∧ (packet.encryption = .none ∨ packet.encryption = .envelope) ∧
        result = { packet with payload := payload } ∧
        (frameWire (result.bodyWire (result.sectionsWire ++ [0]))).length ≤ 128 * 1024 := by
  simp only [recode, except_bind_ok_iff]
  constructor
  · rintro ⟨packet, hdecode, compressor, hcompressor, payload, hpayload, cipher, hcipher, message,
      hmessage, opened, hopened, encoded, hencoded, hresult⟩
    obtain ⟨message', hmessage', hopened'⟩ :=
      @Cipher.open_seal cipher (recodeKey packet) (List.cons_ne_nil _ _) payload
    obtain rfl : message = message' := Except.ok.inj (hmessage.symm.trans hmessage')
    obtain rfl : opened = payload := Except.ok.inj (hopened.symm.trans hopened')
    have hlimits := (decode_packet_limits hdecode).with_payload opened
    have hframe := encode_packet_of_limits hlimits
    obtain rfl := Except.ok.inj (hencoded.symm.trans hframe)
    obtain ⟨-, -, hmax, hwidth, -, -⟩ := decode_packet_ok_iff.mp hresult
    have hsame : result = { packet with payload := opened } :=
      Except.ok.inj (hresult.symm.trans (decode_encode_packet hlimits hframe hmax hwidth))
    exact ⟨packet, opened, hdecode, decompress_iff_expands.mp ⟨compressor, hcompressor, hpayload⟩,
      make_cipher_ok_iff.mp ⟨cipher, hcipher⟩, hsame, hsame ▸ hmax⟩
  · rintro ⟨packet, payload, hdecode, hexpands, hencryption, rfl, hmax⟩
    obtain ⟨compressor, hcompressor, hpayload⟩ := decompress_iff_expands.mpr hexpands
    obtain ⟨cipher, hcipher⟩ := make_cipher_ok_iff.mpr hencryption
    obtain ⟨message, hmessage, hopened⟩ :=
      @Cipher.open_seal cipher (recodeKey packet) (List.cons_ne_nil _ _) payload
    have hlimits := (decode_packet_limits hdecode).with_payload payload
    have hframe := encode_packet_of_limits hlimits
    exact ⟨packet, hdecode, compressor, hcompressor, payload, hpayload, cipher, hcipher, message,
      hmessage, payload, hopened, _, hframe,
      decode_encode_packet hlimits hframe hmax (hmax.trans_lt (by decide))⟩

/-- **Through all codecs.** Whatever the bytes, the way through the codecs ends with a packet
exactly when they decode, the modes are known, the payload expands within its limit and the new
frame is within the limit of a packet; and then it ends with the decoded packet with its payload
expanded. Sealing, opening and the check for known extensions never fail on the way. What was not
compressed is from then on stable. -/
theorem recode_exact (data : Bytes) (result : Packet) :
    (recode data = .ok result ↔
      ∃ packet payload, decodePacket data { maxPacketSize := 128 * 1024 } = .ok packet ∧
        Expands packet payload ∧ (packet.encryption = .none ∨ packet.encryption = .envelope) ∧
        result = { packet with payload := payload } ∧
        (frameWire (result.bodyWire (result.sectionsWire ++ [0]))).length ≤ 128 * 1024) ∧
    (recode data = .ok result → result.compression = .none →
      recode (frameWire (result.bodyWire (result.sectionsWire ++ [0]))) = .ok result) := by
  refine ⟨recode_ok_iff, fun h hnone => ?_⟩
  obtain ⟨packet, payload, hdecode, -, hencryption, rfl, hmax⟩ := recode_ok_iff.mp h
  have hlimits := (decode_packet_limits hdecode).with_payload payload
  have hframe := encode_packet_of_limits hlimits
  have hagain : decodePacket _ { maxPacketSize := 128 * 1024 } = _ :=
    decode_encode_packet hlimits hframe hmax (hmax.trans_lt (by decide))
  exact recode_ok_iff.mpr ⟨_, payload, hagain, .plain hnone, hencryption, rfl, hmax⟩

end Aethon.Protocol
