import Aethon.Protocol.Wire

/-!
# What the encoder writes

`encode_packet_ok_iff` characterizes the encoder completely: it succeeds exactly under
`EncoderLimits`, and then writes the wire format. A truncated length field never shows in
these statements, because the low bytes of a number and of its truncation are the same.
-/

namespace Aethon.Protocol

open Codec Parsing LittleEndian

/-- The limits the encoder itself checks. -/
structure EncoderLimits (packet : Packet) : Prop where
  relayPath : ∀ route ∈ packet.route, route.relayPath.length ≤ 32
  bandCount : ∀ caps ∈ packet.capabilities, caps.sensorBands.length ≤ 16
  bandLength : ∀ caps ∈ packet.capabilities, ∀ band ∈ caps.sensorBands, band.length < 2 ^ 16
  capabilities : ∀ caps ∈ packet.capabilities, caps.wire.length ≤ 65535
  extensions : ∀ ext ∈ packet.extensions, ext.value.length ≤ 65531

/-! ## Lengths on the wire -/

@[simp] theorem length_fragment_wire (f : FragmentInfo) : f.wire.length = 8 := by
  simp [FragmentInfo.wire]

@[simp] theorem length_route_wire (route : RoutingInfo) :
    route.wire.length = 6 + 2 * route.relayPath.length := by
  simp [RoutingInfo.wire, List.length_flatMap, List.map_const']
  omega

@[simp] theorem length_string_wire (s : Bytes) : (stringWire s).length = 2 + s.length := by
  simp [stringWire]

@[simp] theorem length_extension_wire (ext : ExtensionHeader) :
    ext.wire.length = 4 + ext.value.length := by
  simp [ExtensionHeader.wire]
  omega

@[simp] theorem length_section_wire (id : UInt8) (body : Bytes) :
    (sectionWire id body).length = 3 + body.length := by
  simp [sectionWire]
  omega

/-- The flag byte does not change the length of a capability section. -/
theorem length_capabilities_wireWith (flags : UInt8) (caps : DeviceCapabilities) :
    (caps.wireWith flags).length = caps.wire.length := by
  simp [DeviceCapabilities.wire, DeviceCapabilities.wireWith]

/-! ## The writers -/

theorem write_fragment_eq (w : BinaryWriter) (f : FragmentInfo) :
    writeFragment w f = ⟨w.buffer ++ f.wire⟩ := by
  ext1
  simp [writeFragment, FragmentInfo.wire]

/-- A route is written as its bytes, up to 32 relays. -/
theorem write_route_ok_iff {w w' : BinaryWriter} {route : RoutingInfo} :
    writeRoute w route = .ok w' ↔
      route.relayPath.length ≤ 32 ∧ w' = ⟨w.buffer ++ route.wire⟩ := by
  simp only [writeRoute, except_bind_ok_iff, except_rejectIf_ok_iff, except_pure_ok_iff, not_lt,
    exists_and_left, exists_const, BinaryWriter.ext_iff, BinaryWriter.buffer_foldl_u16,
    BinaryWriter.buffer_u8, BinaryWriter.buffer_u16, RoutingInfo.wire, List.append_assoc]
  exact and_congr_right fun _ => eq_comm

/-- Capabilities are written as their bytes, up to 16 bands. -/
theorem write_capabilities_ok_iff {w w' : BinaryWriter} {caps : DeviceCapabilities} :
    writeCapabilities w caps = .ok w' ↔
      (caps.sensorBands.length ≤ 16 ∧ ∀ band ∈ caps.sensorBands, band.length < 2 ^ 16) ∧
        w' = ⟨w.buffer ++ caps.wire⟩ := by
  have hstring : ∀ w s w', BinaryWriter.string w s = .ok w' ↔
      s.length < 2 ^ 16 ∧ w' = ⟨w.buffer ++ stringWire s⟩ := by
    intro w s w'
    rw [BinaryWriter.string_ok_iff, stringWire, List.append_assoc]
  simp only [writeCapabilities, except_bind_ok_iff, except_rejectIf_ok_iff, not_lt,
    exists_and_left, exists_const, BinaryWriter.foldlM_ok_iff hstring, BinaryWriter.buffer_u8,
    BinaryWriter.buffer_u16, DeviceCapabilities.wire, DeviceCapabilities.wireWith,
    List.append_assoc, and_assoc]

/-- A section is written as its bytes, up to the largest length. -/
theorem write_section_ok_iff {w w' : BinaryWriter} {id : UInt8} {body : Bytes} :
    writeSection w id body = .ok w' ↔
      body.length ≤ 65535 ∧ w' = ⟨w.buffer ++ sectionWire id body⟩ := by
  simp only [writeSection, except_bind_ok_iff, except_rejectIf_ok_iff, except_pure_ok_iff, not_lt,
    exists_and_left, exists_const, BinaryWriter.ext_iff, BinaryWriter.buffer_bytes,
    BinaryWriter.buffer_u8, BinaryWriter.buffer_u16, UInt16.toNat_ofNat', Nat.reducePow,
    digits_two_mod, sectionWire, stringWire, List.append_assoc, List.cons_append,
    List.nil_append]
  exact and_congr_right fun _ => eq_comm

/-- An extension is written as a section. -/
theorem write_extension_ok_iff {w w' : BinaryWriter} {ext : ExtensionHeader} :
    writeExtension w ext = .ok w' ↔
      ext.value.length ≤ 65531 ∧ w' = ⟨w.buffer ++ sectionWire extensionSection ext.wire⟩ := by
  have hbody : (((BinaryWriter.mk []).u16 ext.type).u16
      (UInt16.ofNat ext.value.length)).bytes ext.value = ⟨ext.wire⟩ := by
    ext1
    simp [ExtensionHeader.wire, stringWire]
  rw [writeExtension, hbody, write_section_ok_iff, length_extension_wire]
  exact and_congr_left fun _ => by omega

/-- An optional field is skipped, or written to its section when both writers accept it. -/
theorem write_optional_section_ok_iff {α : Type}
    {write : BinaryWriter → α → Except Error BinaryWriter} {encode : α → Bytes} {good : α → Prop}
    (hwrite : ∀ w a w', write w a = .ok w' ↔ good a ∧ w' = ⟨w.buffer ++ encode a⟩)
    (out out' : BinaryWriter) (id : UInt8) (field : Option α) :
    writeOptionalSection out id field write = .ok out' ↔
      (∀ a ∈ field, good a ∧ (encode a).length ≤ 65535) ∧
        out' = ⟨out.buffer ++ field.elim [] fun a => sectionWire id (encode a)⟩ := by
  cases field with
  | none =>
      rw [writeOptionalSection, except_pure_ok_iff, eq_comm]
      simp
  | some a =>
      simp only [writeOptionalSection, except_bind_ok_iff, hwrite, write_section_ok_iff,
        Option.mem_def, Option.some.injEq, forall_eq', Option.elim_some, List.nil_append]
      constructor
      · intro h
        obtain ⟨_, ⟨hgood, rfl⟩, hlength, rfl⟩ := h
        exact ⟨⟨hgood, hlength⟩, rfl⟩
      · intro h
        obtain ⟨⟨hgood, hlength⟩, rfl⟩ := h
        exact ⟨_, ⟨hgood, rfl⟩, hlength, rfl⟩

/-! ## The encoder -/

/-- The encoder writes the sections in order and the terminator, or refuses a limit. -/
theorem encode_payload_sections_ok_iff {packet : Packet} {sections : Bytes} :
    encodePayloadSections packet = .ok sections ↔
      EncoderLimits packet ∧ sections = packet.sectionsWire ++ [0] := by
  have hfragment : ∀ w (f : FragmentInfo) w',
      (pure (writeFragment w f) : Except Error BinaryWriter) = .ok w' ↔
        True ∧ w' = ⟨w.buffer ++ f.wire⟩ := by
    intro w f w'
    rw [except_pure_ok_iff, write_fragment_eq, eq_comm, true_and]
  have hroute := @write_optional_section_ok_iff _ writeRoute _ _ fun _ _ _ => write_route_ok_iff
  have hcaps := @write_optional_section_ok_iff _ writeCapabilities _ _ fun _ _ _ =>
    write_capabilities_ok_iff
  have hexts := @BinaryWriter.foldlM_ok_iff _ writeExtension _ _ fun _ _ _ =>
    write_extension_ok_iff
  simp only [encodePayloadSections, except_bind_ok_iff, except_pure_ok_iff,
    write_optional_section_ok_iff hfragment, hroute, hcaps, hexts]
  constructor
  · intro hrun
    obtain ⟨_, ⟨-, rfl⟩, _, ⟨hroute, rfl⟩, _, ⟨hcaps, rfl⟩, _, ⟨hexts, rfl⟩, rfl⟩ := hrun
    refine ⟨⟨fun route h => (hroute route h).1, fun caps h => (hcaps caps h).1.1,
      fun caps h => (hcaps caps h).1.2, fun caps h => (hcaps caps h).2, hexts⟩, ?_⟩
    simp [Packet.sectionsWire]
  · intro hencoded
    obtain ⟨hlimits, rfl⟩ := hencoded
    refine ⟨_, ⟨fun f _ => ⟨trivial, by simp⟩, rfl⟩, _, ⟨fun route h => ?_, rfl⟩, _,
      ⟨fun caps h => ⟨⟨hlimits.bandCount caps h, hlimits.bandLength caps h⟩,
        hlimits.capabilities caps h⟩, rfl⟩, _, ⟨hlimits.extensions, rfl⟩, ?_⟩
    · have := hlimits.relayPath route h
      exact ⟨this, by simp; omega⟩
    · simp [Packet.sectionsWire]

/-- The encoder succeeds exactly under its own limits and writes the wire format. -/
theorem encode_packet_ok_iff {packet : Packet} {frame : Bytes} :
    encodePacket packet = .ok frame ↔
      EncoderLimits packet ∧ frame = frameWire (packet.bodyWire (packet.sectionsWire ++ [0])) := by
  simp only [encodePacket, except_bind_ok_iff, encode_payload_sections_ok_iff,
    except_pure_ok_iff]
  constructor
  · intro h
    obtain ⟨_, ⟨hlimits, rfl⟩, rfl⟩ := h
    refine ⟨hlimits, ?_⟩
    simp [frameWire, envelopeWire, Packet.bodyWire, Packet.headerWire]
  · intro h
    obtain ⟨hlimits, rfl⟩ := h
    refine ⟨_, ⟨hlimits, rfl⟩, ?_⟩
    simp [frameWire, envelopeWire, Packet.bodyWire, Packet.headerWire]

end Aethon.Protocol
