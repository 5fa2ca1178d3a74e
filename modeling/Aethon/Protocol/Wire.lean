import Aethon.Protocol.Packet

/-!
# The wire format

The byte strings of the packet format, written without the codec: `wire` is what one value
occupies on the wire. The readers of the codec are exact for these byte strings
(`read_fragment_exact` to `read_extension_exact`), and `WireLimits` collects the limits a
packet must meet to be represented.
-/

namespace Aethon.Protocol

open Codec Parsing LittleEndian

/-! ## Byte strings -/

/-- The wire form of a fragment. -/
def FragmentInfo.wire (f : FragmentInfo) : Bytes :=
  digits 4 f.streamId.toNat ++ digits 2 f.sequence.toNat ++ digits 2 f.count.toNat

/-- The wire form of a route. -/
def RoutingInfo.wire (route : RoutingInfo) : Bytes :=
  digits 2 route.region.toNat ++ digits 2 route.collector.toNat ++
    [route.priority] ++ [UInt8.ofNat route.relayPath.length] ++
    route.relayPath.flatMap fun hop => digits 2 hop.toNat

/-- A string with its 16-bit length in front. -/
def stringWire (s : Bytes) : Bytes :=
  digits 2 s.length ++ s

/-- A capability section body with an arbitrary flag byte. -/
def DeviceCapabilities.wireWith (flags : UInt8) (caps : DeviceCapabilities) : Bytes :=
  [flags] ++ digits 2 caps.maxPayload.toNat ++ [UInt8.ofNat caps.sensorBands.length] ++
    caps.sensorBands.flatMap stringWire

/-- The wire form of capabilities. -/
def DeviceCapabilities.wire (caps : DeviceCapabilities) : Bytes :=
  caps.wireWith (capabilityFlags caps)

/-- The wire form of an extension. -/
def ExtensionHeader.wire (ext : ExtensionHeader) : Bytes :=
  digits 2 ext.type.toNat ++ stringWire ext.value

/-- A section: its identifier, its 16-bit length and its body. -/
def sectionWire (id : UInt8) (body : Bytes) : Bytes :=
  id :: stringWire body

/-- The sections of a packet in the encoder's order, without the terminator. -/
def Packet.sectionsWire (packet : Packet) : Bytes :=
  (packet.fragment.elim [] fun f => sectionWire fragmentSection f.wire) ++
    (packet.route.elim [] fun route => sectionWire routeSection route.wire) ++
    (packet.capabilities.elim [] fun caps => sectionWire capabilitiesSection caps.wire) ++
    packet.extensions.flatMap fun ext => sectionWire extensionSection ext.wire

/-- The fixed header of a body. -/
def Packet.headerWire (packet : Packet) : Bytes :=
  [packet.version.raw, packet.kind.raw] ++ digits 8 packet.device.toNat ++
    digits 8 packet.timestampNs.toNat ++ digits 4 packet.sequence.toNat ++
    [packet.compression.raw, packet.encryption.raw]

/-- A body with the given section area. -/
def Packet.bodyWire (packet : Packet) (sections : Bytes) : Bytes :=
  packet.headerWire ++ digits 4 sections.length ++ sections ++
    digits 4 packet.payload.length ++ packet.payload

/-- The part of a frame that its checksum covers. -/
def envelopeWire (body : Bytes) : Bytes :=
  digits 4 packetMagic.toNat ++ digits 4 body.length ++ body

/-- A frame around a body. -/
def frameWire (body : Bytes) : Bytes :=
  envelopeWire body ++ digits 4 (crc32c (envelopeWire body)).toNat

/-! ## Limits -/

/-- The coordinates the decoder accepts. -/
def FragmentInfo.Valid (f : FragmentInfo) : Prop :=
  0 < f.count ∧ f.sequence < f.count

/-- The limits on the optional sections that either side of the codec checks. -/
structure SectionLimits (packet : Packet) : Prop where
  fragment : ∀ f ∈ packet.fragment, f.Valid
  relayPath : ∀ route ∈ packet.route, route.relayPath.length ≤ 32
  bandCount : ∀ caps ∈ packet.capabilities, caps.sensorBands.length ≤ 16
  bandLength : ∀ caps ∈ packet.capabilities, ∀ band ∈ caps.sensorBands, band.length ≤ 64
  extensions : ∀ ext ∈ packet.extensions, ext.value.length ≤ 65531

/-- The version and kind bytes the decoder accepts. -/
structure HeaderLimits (packet : Packet) : Prop where
  version : 1 ≤ packet.version.raw ∧ packet.version.raw ≤ 3
  kind : 1 ≤ packet.kind.raw ∧ packet.kind.raw ≤ 5

/-- Every limit on the fields of a packet that either side of the codec checks. -/
structure WireLimits (packet : Packet) : Prop extends HeaderLimits packet, SectionLimits packet

/-! ## What the readers accept -/

/-- The byte that holds a small count is determined by the count. -/
private theorem ofNat_of_toNat_eq {n : Nat} {b : UInt8} (h : n = b.toNat) :
    UInt8.ofNat n = b := by
  rw [h, UInt8.ofNat_toNat]

/-- A fragment is read from exactly its bytes. -/
theorem read_fragment_exact : Exact readFragment FragmentInfo.wire FragmentInfo.Valid := by
  refine ⟨fun input rest f => ?_⟩
  simp only [readFragment, bind_ok_iff, BinaryReader.u32_exact.ok_iff,
    BinaryReader.u16_exact.ok_iff, rejectIf_ok_iff, pure_ok_iff, and_true, not_or]
  constructor
  · intro h
    obtain ⟨streamId, _, rfl, sequence, _, rfl, count, _, rfl, _, _, ⟨⟨hzero, hrange⟩, rfl⟩,
      rfl, rfl⟩ := h
    refine ⟨by simp [FragmentInfo.wire], ?_, by simpa using hrange⟩
    exact UInt16.pos_iff_ne_zero.mpr hzero
  · intro h
    obtain ⟨rfl, hpos, hrange⟩ := h
    refine ⟨f.streamId, _, by simp only [FragmentInfo.wire, List.append_assoc], f.sequence, _,
      rfl, f.count, rest, rfl, (), rest, ⟨⟨?_, by simpa using hrange⟩, rfl⟩, rfl, rfl⟩
    exact UInt16.pos_iff_ne_zero.mp hpos

/-- A route is read from exactly its bytes. -/
theorem read_route_exact :
    Exact readRoute RoutingInfo.wire (fun route => route.relayPath.length ≤ 32) := by
  refine ⟨fun input rest route => ?_⟩
  simp only [readRoute, bind_ok_iff, BinaryReader.u16_exact.ok_iff, BinaryReader.u8_exact.ok_iff,
    (BinaryReader.u16_exact.repeatM _).ok_iff, rejectIf_ok_iff, pure_ok_iff, and_true,
    implies_true]
  constructor
  · intro h
    obtain ⟨region, _, rfl, collector, _, rfl, priority, _, rfl, hops, _, rfl, _, _,
      ⟨hlimit, rfl⟩, relayPath, _, ⟨rfl, hlength⟩, rfl, rfl⟩ := h
    refine ⟨by simp [RoutingInfo.wire, hlength], ?_⟩
    have : hops.toNat ≤ 32 := by simpa [UInt8.lt_iff_toNat_lt] using hlimit
    simpa [hlength] using this
  · intro h
    obtain ⟨rfl, hlimit⟩ := h
    have hops : (UInt8.ofNat route.relayPath.length).toNat = route.relayPath.length :=
      Nat.mod_eq_of_lt (by omega)
    refine ⟨route.region, _, by simp only [RoutingInfo.wire, List.append_assoc],
      route.collector, _, rfl, route.priority, _, rfl, UInt8.ofNat route.relayPath.length, _,
      rfl, (), _, ⟨?_, rfl⟩, route.relayPath, rest, ⟨rfl, hops.symm⟩, rfl, rfl⟩
    simpa [UInt8.lt_iff_toNat_lt, hops] using hlimit

/-- A capability section determines its fields up to the undefined bits of the flag byte. -/
theorem read_capabilities_ok_iff {input rest : Bytes} {caps : DeviceCapabilities} :
    readCapabilities input = .ok (caps, rest) ↔
      ∃ flags : UInt8, input = caps.wireWith flags ++ rest ∧
        (caps.supportsCompression = (flags &&& 1 != 0)) ∧
        (caps.supportsEncryption = (flags &&& 2 != 0)) ∧
        (caps.hasGpsTime = (flags &&& 4 != 0)) ∧
        caps.sensorBands.length ≤ 16 ∧ ∀ band ∈ caps.sensorBands, band.length ≤ 64 := by
  simp only [readCapabilities, bind_ok_iff, BinaryReader.u16_exact.ok_iff,
    BinaryReader.u8_exact.ok_iff, ((BinaryReader.string_exact 64).repeatM _).ok_iff,
    rejectIf_ok_iff, pure_ok_iff, and_true]
  constructor
  · intro h
    obtain ⟨flags, _, rfl, maxPayload, _, rfl, count, _, rfl, _, _, ⟨hlimit, rfl⟩, bands, _,
      ⟨rfl, hlength, hbands⟩, rfl, rfl⟩ := h
    have hcount : count.toNat ≤ 16 := by simpa [UInt8.lt_iff_toNat_lt] using hlimit
    refine ⟨flags, ?_, rfl, rfl, rfl, by simpa [hlength] using hcount,
      fun band hband => (hbands band hband).1⟩
    simp only [DeviceCapabilities.wireWith, List.append_assoc, ofNat_of_toNat_eq hlength]
    rfl
  · intro h
    obtain ⟨flags, rfl, hcompression, hencryption, hgps, hlimit, hbands⟩ := h
    have hcount : (UInt8.ofNat caps.sensorBands.length).toNat = caps.sensorBands.length :=
      Nat.mod_eq_of_lt (by omega)
    refine ⟨flags, _, by simp only [DeviceCapabilities.wireWith, List.append_assoc]; rfl,
      caps.maxPayload, _, rfl, UInt8.ofNat caps.sensorBands.length, _, rfl, (), _, ⟨?_, rfl⟩,
      caps.sensorBands, rest, ⟨rfl, hcount.symm, fun band hband => ?_⟩, ?_, rfl⟩
    · simpa [UInt8.lt_iff_toNat_lt, hcount] using hlimit
    · have := hbands band hband
      exact ⟨this, by omega⟩
    · rw [← hcompression, ← hencryption, ← hgps]

/-- The encoder's flag byte carries the three capability bits. -/
theorem capability_flags_bits (caps : DeviceCapabilities) :
    caps.supportsCompression = (capabilityFlags caps &&& 1 != 0) ∧
      caps.supportsEncryption = (capabilityFlags caps &&& 2 != 0) ∧
      caps.hasGpsTime = (capabilityFlags caps &&& 4 != 0) := by
  unfold capabilityFlags
  cases caps.supportsCompression <;> cases caps.supportsEncryption <;> cases caps.hasGpsTime <;>
    decide

/-- An extension is read from exactly its bytes. -/
theorem read_extension_exact :
    Exact readExtension ExtensionHeader.wire (fun ext => ext.value.length < 2 ^ 16) := by
  refine ⟨fun input rest ext => ?_⟩
  simp only [readExtension, bind_ok_iff, BinaryReader.u16_exact.ok_iff,
    (BinaryReader.bytes_exact _).ok_iff, pure_ok_iff, and_true, id_eq]
  constructor
  · intro h
    obtain ⟨type, _, rfl, size, _, rfl, value, _, ⟨rfl, hlength⟩, rfl, rfl⟩ := h
    refine ⟨by simp [ExtensionHeader.wire, stringWire, hlength], ?_⟩
    simpa [hlength] using size.toNat_lt
  · intro h
    obtain ⟨rfl, hlimit⟩ := h
    have hsize : (UInt16.ofNat ext.value.length).toNat = ext.value.length :=
      Nat.mod_eq_of_lt hlimit
    exact ⟨ext.type, stringWire ext.value ++ rest, by simp [ExtensionHeader.wire],
      UInt16.ofNat ext.value.length, ext.value ++ rest, by simp [stringWire, hsize], ext.value,
      rest, ⟨rfl, hsize.symm⟩, rfl, rfl⟩

end Aethon.Protocol
