import Aethon.Protocol.PacketEncode

/-!
# What the decoder accepts

`SectionsRead` is the grammar of a section area: any sections in any order up to the
terminator, each with its effect on the packet. `decode_packet_ok_iff` says that the decoder
accepts exactly the frames around a body of that grammar. What the decoder guarantees about a
packet is then proved by induction on the grammar.
-/

namespace Aethon.Protocol

open Codec Parsing LittleEndian

/-- `SectionRead options packet id body packet'` says that a section `id` with the given body
takes the packet to `packet'`. -/
inductive SectionRead (options : DecodeOptions) (packet : Packet) : UInt8 → Bytes → Packet → Prop
  | fragment (f : FragmentInfo) : f.Valid →
      SectionRead options packet fragmentSection f.wire { packet with fragment := some f }
  | route (route : RoutingInfo) : route.relayPath.length ≤ 32 →
      SectionRead options packet routeSection route.wire { packet with route := some route }
  | capabilities (flags : UInt8) (caps : DeviceCapabilities) :
      caps.supportsCompression = (flags &&& 1 != 0) →
      caps.supportsEncryption = (flags &&& 2 != 0) →
      caps.hasGpsTime = (flags &&& 4 != 0) →
      caps.sensorBands.length ≤ 16 → (∀ band ∈ caps.sensorBands, band.length ≤ 64) →
      SectionRead options packet capabilitiesSection (caps.wireWith flags)
        { packet with capabilities := some caps }
  | extension (ext : ExtensionHeader) : ext.value.length < 2 ^ 16 →
      SectionRead options packet extensionSection ext.wire
        { packet with extensions := packet.extensions ++ [ext] }
  | unknown (id : UInt8) : id ≠ fragmentSection → id ≠ routeSection →
      id ≠ capabilitiesSection → id ≠ extensionSection →
      options.requireKnownExtensions = false → SectionRead options packet id [] packet

/-- `SectionsRead options packet sections packet'` says that the section area, ended by its
terminator, takes the packet to `packet'`. -/
inductive SectionsRead (options : DecodeOptions) : Packet → Bytes → Packet → Prop
  | terminator (packet : Packet) : SectionsRead options packet [0] packet
  | step {packet middle last : Packet} {id : UInt8} {body rest : Bytes} :
      id ≠ 0 → body.length < 2 ^ 16 → SectionRead options packet id body middle →
      SectionsRead options middle rest last →
      SectionsRead options packet (sectionWire id body ++ rest) last

/-! ## The section loop follows the grammar -/

/-- The section switch consumes the whole body exactly in the cases of `SectionRead`. -/
theorem read_section_ok_iff {packet packet' : Packet} {id : UInt8} {options : DecodeOptions}
    {body : Bytes} :
    readSection packet id options body = .ok (packet', []) ↔
      SectionRead options packet id body packet' := by
  constructor
  · intro h
    unfold readSection at h
    split_ifs at h with hfragment hroute hcaps hext
    · simp only [bind_ok_iff, pure_ok_iff, read_fragment_exact.ok_iff] at h
      obtain ⟨f, _, ⟨rfl, hvalid⟩, rfl, rfl⟩ := h
      simpa [hfragment] using SectionRead.fragment f hvalid
    · simp only [bind_ok_iff, pure_ok_iff, read_route_exact.ok_iff] at h
      obtain ⟨route, _, ⟨rfl, hlimit⟩, rfl, rfl⟩ := h
      simpa [hroute] using SectionRead.route route hlimit
    · simp only [bind_ok_iff, pure_ok_iff, read_capabilities_ok_iff] at h
      obtain ⟨caps, _, ⟨flags, rfl, h1, h2, h3, hcount, hbands⟩, rfl, rfl⟩ := h
      simpa [hcaps] using SectionRead.capabilities flags caps h1 h2 h3 hcount hbands
    · simp only [bind_ok_iff, pure_ok_iff, read_extension_exact.ok_iff] at h
      obtain ⟨ext, _, ⟨rfl, hlimit⟩, rfl, rfl⟩ := h
      simpa [hext] using SectionRead.extension ext hlimit
    · simp only [bind_ok_iff, pure_ok_iff, rejectIf_ok_iff, Bool.not_eq_true] at h
      obtain ⟨_, _, ⟨hstrict, rfl⟩, rfl, rfl⟩ := h
      exact .unknown id hfragment hroute hcaps hext hstrict
  · intro h
    cases h with
    | fragment f hvalid =>
        simp only [readSection, if_true, bind_ok_iff, pure_ok_iff, read_fragment_exact.ok_iff]
        exact ⟨f, [], ⟨by simp, hvalid⟩, rfl, rfl⟩
    | route route hlimit =>
        simp only [readSection, show routeSection ≠ fragmentSection by decide, if_false, if_true,
          bind_ok_iff, pure_ok_iff, read_route_exact.ok_iff]
        exact ⟨route, [], ⟨by simp, hlimit⟩, rfl, rfl⟩
    | capabilities flags caps h1 h2 h3 hcount hbands =>
        simp only [readSection, show capabilitiesSection ≠ fragmentSection by decide,
          show capabilitiesSection ≠ routeSection by decide, if_false, if_true, bind_ok_iff,
          pure_ok_iff, read_capabilities_ok_iff]
        exact ⟨caps, [], ⟨flags, by simp, h1, h2, h3, hcount, hbands⟩, rfl, rfl⟩
    | extension ext hlimit =>
        simp only [readSection, show extensionSection ≠ fragmentSection by decide,
          show extensionSection ≠ routeSection by decide,
          show extensionSection ≠ capabilitiesSection by decide, if_false, if_true, bind_ok_iff,
          pure_ok_iff, read_extension_exact.ok_iff]
        exact ⟨ext, [], ⟨by simp, hlimit⟩, rfl, rfl⟩
    | unknown id h1 h2 h3 h4 hstrict =>
        simp only [readSection, h1, h2, h3, h4, if_false, bind_ok_iff, pure_ok_iff,
          rejectIf_ok_iff, hstrict]
        exact ⟨(), [], ⟨by simp, rfl⟩, trivial, rfl⟩

/-- A pass of the loop reads one length-prefixed body. -/
theorem decode_section_ok_iff {packet packet' : Packet} {id : UInt8} {options : DecodeOptions}
    {unread unread' : Bytes} :
    decodeSection packet id options unread = .ok (packet', unread') ↔
      ∃ body, body.length < 2 ^ 16 ∧ unread = stringWire body ++ unread' ∧
        SectionRead options packet id body packet' := by
  simp only [decodeSection, except_bind_ok_iff, Prod.exists, BinaryReader.u16_exact.ok_iff,
    (BinaryReader.bytes_exact _).ok_iff, except_rejectIf_ok_iff, except_pure_ok_iff, ne_eq,
    not_not, and_true, Prod.mk.injEq, id_eq, ← read_section_ok_iff]
  constructor
  · intro h
    obtain ⟨len, _, rfl, body, _, ⟨rfl, hlength⟩, _, _, hread, _, rfl, rfl, rfl⟩ := h
    exact ⟨body, hlength ▸ len.toNat_lt, by simp [stringWire, hlength], hread⟩
  · intro h
    obtain ⟨body, hlength, rfl, hread⟩ := h
    have hlen : (UInt16.ofNat body.length).toNat = body.length := Nat.mod_eq_of_lt hlength
    exact ⟨UInt16.ofNat body.length, body ++ unread', by simp [stringWire], body, unread',
      ⟨rfl, hlen.symm⟩, packet', [], hread, (), rfl, rfl, rfl⟩

/-- The section loop returns a packet exactly when the area follows the grammar. -/
theorem decode_payload_sections_ok_iff {packet packet' : Packet} {sections : Bytes}
    {options : DecodeOptions} :
    decodePayloadSections packet sections options = .ok packet' ↔
      SectionsRead options packet sections packet' := by
  constructor
  · intro h
    fun_induction decodePayloadSections packet sections options with
    | case1 => cases h
    | case2 => cases h
    | case3 packet unread hunread =>
        cases h
        simp only [ne_eq, not_not] at hunread
        subst hunread
        exact .terminator _
    | case4 => cases h
    | case5 packet id unread hid middle rest hsection ih =>
        obtain ⟨body, hlength, rfl, hread⟩ := decode_section_ok_iff.mp hsection
        exact .step hid hlength hread (ih h)
  · intro h
    induction h with
    | terminator packet => simp [decodePayloadSections]
    | @step packet middle last id body rest hid hlength hread _ ih =>
        have hsection : decodeSection packet id options (stringWire body ++ rest) =
            .ok (middle, rest) := decode_section_ok_iff.mpr ⟨body, hlength, rfl, hread⟩
        rw [sectionWire, List.cons_append, decodePayloadSections, if_neg hid]
        split
        · rename_i hfailure
          rw [hsection] at hfailure
          cases hfailure
        · rename_i hok
          rw [hsection] at hok
          cases hok
          exact ih

/-! ## The frame -/

/-- The packet that the decoder starts its sections from: the header fields alone. -/
def Packet.header (packet : Packet) : Packet where
  version := packet.version
  kind := packet.kind
  device := packet.device
  timestampNs := packet.timestampNs
  sequence := packet.sequence
  compression := packet.compression
  encryption := packet.encryption

/-- Reading sections leaves the header and the payload of the packet alone. -/
theorem SectionsRead.frame {options : DecodeOptions} {packet last : Packet} {sections : Bytes}
    (h : SectionsRead options packet sections last) :
    last.header = packet.header ∧ last.payload = packet.payload := by
  induction h with
  | terminator packet => exact ⟨rfl, rfl⟩
  | step _ _ hread _ ih => cases hread <;> exact ih

/-- Three versions are known. -/
theorem version_from_ok_iff {raw : UInt8} {version : ProtocolVersion} :
    versionFrom raw = .ok version ↔ version = ⟨raw⟩ ∧ 1 ≤ raw ∧ raw ≤ 3 := by
  unfold versionFrom
  simp only [gt_iff_lt, UInt8.lt_iff_toNat_lt, UInt8.le_iff_toNat_le, UInt8.reduceToNat]
  split
  · simp only [reduceCtorEq, false_iff, not_and]
    omega
  · rw [Except.ok.injEq, eq_comm]
    exact (and_iff_left (by omega)).symm

/-- Five kinds are known. -/
theorem kind_from_ok_iff {raw : UInt8} {kind : PacketKind} :
    kindFrom raw = .ok kind ↔ kind = ⟨raw⟩ ∧ 1 ≤ raw ∧ raw ≤ 5 := by
  unfold kindFrom
  simp only [gt_iff_lt, UInt8.lt_iff_toNat_lt, UInt8.le_iff_toNat_le, UInt8.reduceToNat]
  split
  · simp only [reduceCtorEq, false_iff, not_and]
    omega
  · rw [Except.ok.injEq, eq_comm]
    exact (and_iff_left (by omega)).symm

/-- The body reader accepts a header in range, a section area of the grammar and a payload. -/
theorem decode_body_ok_iff {options : DecodeOptions} {body : Bytes} {packet : Packet} :
    decodeBody options body = .ok (packet, []) ↔
      ∃ sections, body = packet.bodyWire sections ∧ sections.length < 2 ^ 32 ∧
        packet.payload.length < 2 ^ 32 ∧ HeaderLimits packet ∧
        SectionsRead options packet.header sections { packet with payload := [] } := by
  simp only [decodeBody, bind_ok_iff, BinaryReader.u8_exact.ok_iff, BinaryReader.u32_exact.ok_iff,
    BinaryReader.u64_exact.ok_iff, (BinaryReader.bytes_exact _).ok_iff, pure_ok_iff, lift_ok_iff,
    decode_payload_sections_ok_iff, version_from_ok_iff, kind_from_ok_iff, and_true]
  constructor
  · intro h
    obtain ⟨version, _, hinput, _, _, ⟨⟨rfl, hversion⟩, rfl⟩, h⟩ := h
    obtain ⟨kind, _, rfl, _, _, ⟨⟨rfl, hkind⟩, rfl⟩, h⟩ := h
    obtain ⟨device, _, rfl, timestampNs, _, rfl, sequence, _, rfl, h⟩ := h
    obtain ⟨compression, _, rfl, encryption, _, rfl, h⟩ := h
    obtain ⟨sectionLen, _, rfl, sections, _, ⟨rfl, hsections⟩, last, _, ⟨hread, rfl⟩, h⟩ := h
    obtain ⟨payloadLen, _, rfl, payload, _, ⟨rfl, hpayload⟩, rfl, rfl⟩ := h
    -- reading sections leaves the header fields and the empty payload as they are
    obtain ⟨hheader, hempty⟩ := hread.frame
    obtain ⟨_, _, _, _, _, _, _, fragment, route, capabilities, extensions, _⟩ := last
    simp only [Packet.header, Packet.mk.injEq, and_true] at hheader hempty
    obtain ⟨rfl, rfl, rfl, rfl, rfl, rfl, rfl⟩ := hheader
    subst hempty
    refine ⟨sections, ?_, hsections ▸ sectionLen.toNat_lt, hpayload ▸ payloadLen.toNat_lt,
      ⟨hversion, hkind⟩, hread⟩
    rw [hinput]
    simp [Packet.bodyWire, Packet.headerWire, hsections, hpayload]
  · intro h
    obtain ⟨sections, rfl, hsections, hpayload, hlimits, hread⟩ := h
    have hsectionLen : (UInt32.ofNat sections.length).toNat = sections.length :=
      Nat.mod_eq_of_lt hsections
    have hpayloadLen : (UInt32.ofNat packet.payload.length).toNat = packet.payload.length :=
      Nat.mod_eq_of_lt hpayload
    let behind := sections ++ (digits 4 packet.payload.length ++ packet.payload)
    exact ⟨packet.version.raw, _, by simp only [Packet.bodyWire, Packet.headerWire,
        List.append_assoc, List.cons_append, List.nil_append]; rfl, packet.version, _,
      ⟨⟨rfl, hlimits.version⟩, rfl⟩, packet.kind.raw, _, rfl, packet.kind, _,
      ⟨⟨rfl, hlimits.kind⟩, rfl⟩, packet.device, _, rfl, packet.timestampNs, _, rfl,
      packet.sequence, _, rfl, packet.compression.raw, _, rfl, packet.encryption.raw,
      digits 4 sections.length ++ behind, rfl, UInt32.ofNat sections.length, behind,
      by rw [hsectionLen], sections, _, ⟨rfl, hsectionLen.symm⟩, _, _, ⟨hread, rfl⟩,
      UInt32.ofNat packet.payload.length, packet.payload, by rw [hpayloadLen], packet.payload, [],
      ⟨by simp, hpayloadLen.symm⟩, rfl, rfl⟩

@[simp] theorem length_envelope_wire (body : Bytes) :
    (envelopeWire body).length = 8 + body.length := by
  simp [envelopeWire]
  omega

@[simp] theorem length_frame_wire (body : Bytes) :
    (frameWire body).length = 12 + body.length := by
  simp [frameWire]
  omega

/-- The decoder accepts exactly the frames within the size limit around a body of the grammar.
The 32-bit length check cannot be met by wrapping around, so an accepted frame also has a
32-bit length. -/
theorem decode_packet_ok_iff {options : DecodeOptions} {frame : Bytes} {packet : Packet} :
    decodePacket frame options = .ok packet ↔
      ∃ sections, frame = frameWire (packet.bodyWire sections) ∧
        frame.length ≤ options.maxPacketSize ∧ frame.length < 2 ^ 32 ∧ HeaderLimits packet ∧
        SectionsRead options packet.header sections { packet with payload := [] } := by
  simp only [decodePacket, except_bind_ok_iff, except_rejectIf_ok_iff, except_pure_ok_iff,
    Prod.exists, BinaryReader.u32_exact.ok_iff, (BinaryReader.bytes_exact _).ok_iff, ne_eq,
    not_not, not_or, not_lt, and_true]
  constructor
  · intro h
    obtain ⟨_, ⟨-, hmax⟩, magic, _, rfl, _, rfl, bodyLen, _, rfl, _, hlen, body, tail,
      ⟨rfl, hbody⟩, crc, trailing, rfl, _, hcrc, _, _, hdecode, _, rfl, rfl⟩ := h
    -- a length that wraps around is smaller than the body that was read
    have hwrap : (bodyLen + 12).toNat = (bodyLen.toNat + 12) % 2 ^ 32 := UInt32.toNat_add ..
    simp only [id_eq, List.length_append, length_digits, hbody] at hlen
    obtain rfl : trailing = [] := List.length_eq_zero_iff.mp (by omega)
    have hframe : digits 4 packetMagic.toNat ++ (digits 4 bodyLen.toNat ++
        (id body ++ (digits 4 crc.toNat ++ []))) = envelopeWire body ++ digits 4 crc.toNat := by
      simp [envelopeWire, hbody]
    rw [hframe] at hmax hcrc ⊢
    have htake : (envelopeWire body ++ digits 4 crc.toNat).take
        ((envelopeWire body ++ digits 4 crc.toNat).length - 4) = envelopeWire body := by
      simp
    rw [htake] at hcrc
    obtain ⟨sections, rfl, -, -, hlimits, hread⟩ := decode_body_ok_iff.mp hdecode
    refine ⟨sections, by rw [hcrc, frameWire], hmax, ?_, hlimits, hread⟩
    simp only [List.length_append, length_envelope_wire, length_digits]
    omega
  · intro h
    obtain ⟨sections, rfl, hmax, hwidth, hlimits, hread⟩ := h
    generalize hbody : packet.bodyWire sections = body at hmax hwidth ⊢
    rw [length_frame_wire] at hmax hwidth
    have hbodyLen : (UInt32.ofNat body.length).toNat = body.length :=
      Nat.mod_eq_of_lt (by omega)
    have hwrap : (UInt32.ofNat body.length + 12).toNat = 12 + body.length := by
      rw [UInt32.toNat_add, hbodyLen, show (12 : UInt32).toNat = 12 from rfl]
      omega
    have htake : (frameWire body).take ((frameWire body).length - 4) = envelopeWire body := by
      simp [frameWire]
    have hsplit : frameWire body = digits 4 packetMagic.toNat ++ (digits 4 body.length ++
        (body ++ digits 4 (crc32c (envelopeWire body)).toNat)) := by
      simp [frameWire, envelopeWire]
    have hlength : (packet.bodyWire sections).length = body.length := by rw [hbody]
    simp only [Packet.bodyWire, List.length_append, length_digits] at hlength
    refine ⟨(), ⟨by simp, by simpa using hmax⟩, packetMagic, _, hsplit, (), rfl,
      UInt32.ofNat body.length, body ++ digits 4 (crc32c (envelopeWire body)).toNat,
      by rw [hbodyLen], (), by simp [hwrap], body, digits 4 (crc32c (envelopeWire body)).toNat,
      ⟨rfl, hbodyLen.symm⟩, crc32c (envelopeWire body), [], by simp, (), by rw [htake], packet, [],
      decode_body_ok_iff.mpr ⟨sections, hbody.symm, by omega, by omega, hlimits, hread⟩, (), rfl,
      rfl⟩

/-! ## What an accepted packet satisfies -/

/-- One section keeps the limits of the sections read so far. -/
theorem SectionRead.limits {options : DecodeOptions} {packet packet' : Packet} {id : UInt8}
    {body : Bytes} (h : SectionRead options packet id body packet') (hbody : body.length < 2 ^ 16)
    (hlimits : SectionLimits packet) : SectionLimits packet' := by
  cases h with
  | fragment f hvalid => exact { hlimits with fragment := by simpa using hvalid }
  | route route hlimit => exact { hlimits with relayPath := by simpa using hlimit }
  | capabilities flags caps h1 h2 h3 hcount hbands =>
      exact { hlimits with
        bandCount := by simpa using hcount
        bandLength := by simpa using hbands }
  | extension ext hlimit =>
      -- the body holds the value behind four bytes of its own
      rw [length_extension_wire] at hbody
      refine { hlimits with extensions := fun e he => ?_ }
      rcases List.mem_append.mp he with he | he
      · exact hlimits.extensions e he
      · cases List.mem_singleton.mp he
        omega
  | unknown => exact hlimits

/-- Every packet a section area produces meets the section limits. -/
theorem SectionsRead.limits {options : DecodeOptions} {packet last : Packet} {sections : Bytes}
    (h : SectionsRead options packet sections last) (hlimits : SectionLimits packet) :
    SectionLimits last := by
  induction h with
  | terminator packet => exact hlimits
  | step _ hlength hread _ ih => exact ih (hread.limits hlength hlimits)

/-- A section takes at least as many bytes as it adds to what the encoder would write. A section
that replaces an earlier one frees the earlier one's bytes. -/
theorem SectionRead.length_le {options : DecodeOptions} {packet packet' : Packet} {id : UInt8}
    {body : Bytes} (h : SectionRead options packet id body packet') :
    packet'.sectionsWire.length ≤ packet.sectionsWire.length + (sectionWire id body).length := by
  cases h with
  | fragment | route | capabilities | extension =>
      simp [Packet.sectionsWire, length_capabilities_wireWith]
      omega
  | unknown => simp

/-- The encoder needs no more bytes for the sections than were read. -/
theorem SectionsRead.length_le {options : DecodeOptions} {packet last : Packet} {sections : Bytes}
    (h : SectionsRead options packet sections last) :
    last.sectionsWire.length + 1 ≤ packet.sectionsWire.length + sections.length := by
  induction h with
  | terminator packet => simp
  | step _ _ hread _ ih =>
      have := hread.length_le
      rw [List.length_append]
      omega

/-- A packet the decoder returns meets every limit of the wire format. -/
theorem decode_packet_limits {options : DecodeOptions} {frame : Bytes} {packet : Packet}
    (h : decodePacket frame options = .ok packet) : WireLimits packet := by
  obtain ⟨sections, -, -, -, hheader, hread⟩ := decode_packet_ok_iff.mp h
  have hstart : SectionLimits packet.header :=
    ⟨by simp [Packet.header], by simp [Packet.header], by simp [Packet.header],
      by simp [Packet.header], by simp [Packet.header]⟩
  have hlimits := hread.limits hstart
  exact ⟨hheader, hlimits.fragment, hlimits.relayPath, hlimits.bandCount, hlimits.bandLength,
    hlimits.extensions⟩

/-- The frame the encoder writes for an accepted packet is no longer than the one read. -/
theorem length_frame_le {options : DecodeOptions} {frame : Bytes} {packet : Packet}
    (h : decodePacket frame options = .ok packet) :
    (frameWire (packet.bodyWire (packet.sectionsWire ++ [0]))).length ≤ frame.length := by
  obtain ⟨sections, rfl, -, -, -, hread⟩ := decode_packet_ok_iff.mp h
  have hsections : packet.sectionsWire.length + 1 ≤ 0 + sections.length := hread.length_le
  simp only [length_frame_wire, Packet.bodyWire, List.length_append, length_digits,
    List.length_singleton]
  omega

/-! ## Reading what the encoder wrote -/

/-- The extensions are read back one by one, behind those already read. -/
theorem sections_read_extensions (options : DecodeOptions) (packet : Packet)
    (extensions : List ExtensionHeader) (hlimits : ∀ ext ∈ extensions, ext.value.length ≤ 65531) :
    SectionsRead options packet
      ((extensions.flatMap fun ext => sectionWire extensionSection ext.wire) ++ [0])
      { packet with extensions := packet.extensions ++ extensions } := by
  induction extensions generalizing packet with
  | nil => simpa using SectionsRead.terminator packet
  | cons ext extensions ih =>
      have hext : ext.value.length ≤ 65531 := hlimits ext (by simp)
      have hrest := ih { packet with extensions := packet.extensions ++ [ext] }
        fun e he => hlimits e (by simp [he])
      simp only [List.append_assoc, List.singleton_append] at hrest
      rw [List.flatMap_cons, List.append_assoc]
      exact .step (by decide) (by simp; omega) (.extension ext (by omega)) hrest

/-- An optional section in front of a section area is read before it. -/
theorem SectionsRead.optional {options : DecodeOptions} {α : Type} {field : Option α} {id : UInt8}
    {encode : α → Bytes} {packet middle last : Packet} {rest : Bytes} (update : α → Packet)
    (hid : id ≠ 0) (hread : ∀ a ∈ field, (encode a).length < 2 ^ 16 ∧
      SectionRead options packet id (encode a) (update a))
    (hmiddle : field.elim packet update = middle) (hrest : SectionsRead options middle rest last) :
    SectionsRead options packet
      ((field.elim [] fun a => sectionWire id (encode a)) ++ rest) last := by
  subst hmiddle
  cases field with
  | none => exact hrest
  | some a =>
      obtain ⟨hlength, hread⟩ := hread a rfl
      exact .step hid hlength hread hrest

/-- Each band within the limit takes at most 66 bytes. -/
theorem length_bands_le {bands : List Bytes} (hbands : ∀ band ∈ bands, band.length ≤ 64) :
    (bands.flatMap stringWire).length ≤ bands.length * 66 := by
  induction bands with
  | nil => simp
  | cons band bands ih =>
      have hband := hbands band (by simp)
      have hrest := ih fun b hb => hbands b (by simp [hb])
      simp only [List.flatMap_cons, List.length_append, length_string_wire, List.length_cons]
      omega

/-- A capability section within the band limits is far below the section limit. -/
theorem length_capabilities_wire_lt {caps : DeviceCapabilities}
    (hcount : caps.sensorBands.length ≤ 16) (hbands : ∀ band ∈ caps.sensorBands, band.length ≤ 64) :
    caps.wire.length < 2 ^ 16 := by
  have := length_bands_le hbands
  simp only [DeviceCapabilities.wire, DeviceCapabilities.wireWith, List.length_append,
    List.length_singleton, length_digits]
  omega

/-- The encoder's section area is read back into the packet it was written from. -/
theorem sections_read_sectionsWire (options : DecodeOptions) {packet : Packet}
    (hlimits : SectionLimits packet) :
    SectionsRead options packet.header (packet.sectionsWire ++ [0])
      { packet with payload := [] } := by
  let withFragment := { packet.header with fragment := packet.fragment }
  let withRoute := { withFragment with route := packet.route }
  let withCapabilities := { withRoute with capabilities := packet.capabilities }
  have hexts := sections_read_extensions options withCapabilities packet.extensions
    hlimits.extensions
  have hfragment : packet.fragment.elim packet.header
      (fun f => { packet.header with fragment := some f }) = withFragment := by
    cases h : packet.fragment <;> simp [withFragment, h, Packet.header]
  have hroute : packet.route.elim withFragment
      (fun route => { withFragment with route := some route }) = withRoute := by
    cases h : packet.route <;> simp [withRoute, withFragment, h, Packet.header]
  have hcaps : packet.capabilities.elim withRoute
      (fun caps => { withRoute with capabilities := some caps }) = withCapabilities := by
    cases h : packet.capabilities <;>
      simp [withCapabilities, withRoute, withFragment, h, Packet.header]
  simp only [Packet.sectionsWire, List.append_assoc]
  refine .optional _ (by decide) (fun f hf => ⟨by simp, ?_⟩) hfragment
    (.optional _ (by decide) (fun route hr => ⟨?_, ?_⟩) hroute
      (.optional _ (by decide) (fun caps hc => ⟨?_, ?_⟩) hcaps hexts))
  · exact .fragment f (hlimits.fragment f hf)
  · have := hlimits.relayPath route hr
    rw [length_route_wire]
    omega
  · exact .route route (hlimits.relayPath route hr)
  · exact length_capabilities_wire_lt (hlimits.bandCount caps hc) (hlimits.bandLength caps hc)
  · obtain ⟨h1, h2, h3⟩ := capability_flags_bits caps
    exact .capabilities _ caps h1 h2 h3 (hlimits.bandCount caps hc) (hlimits.bandLength caps hc)

/-- Encoding a packet within the limits and decoding the frame gives the packet back, whenever
the frame is within the decoder's size limit. -/
theorem decode_encode_packet {options : DecodeOptions} {packet : Packet} {frame : Bytes}
    (hlimits : WireLimits packet) (hencode : encodePacket packet = .ok frame)
    (hmax : frame.length ≤ options.maxPacketSize) (hwidth : frame.length < 2 ^ 32) :
    decodePacket frame options = .ok packet := by
  obtain ⟨-, rfl⟩ := encode_packet_ok_iff.mp hencode
  exact decode_packet_ok_iff.mpr ⟨_, rfl, hmax, hwidth, hlimits.toHeaderLimits,
    sections_read_sectionsWire options hlimits.toSectionLimits⟩

/-- A packet within the limits of the wire format is encoded. -/
theorem encode_packet_of_limits {packet : Packet} (hlimits : WireLimits packet) :
    encodePacket packet = .ok (frameWire (packet.bodyWire (packet.sectionsWire ++ [0]))) := by
  refine encode_packet_ok_iff.mpr ⟨⟨hlimits.relayPath, hlimits.bandCount,
    fun caps hcaps band hband => ?_, fun caps hcaps => ?_, hlimits.extensions⟩, rfl⟩
  · have := hlimits.bandLength caps hcaps band hband
    omega
  · have := length_capabilities_wire_lt (hlimits.bandCount caps hcaps)
      (hlimits.bandLength caps hcaps)
    omega

end Aethon.Protocol
