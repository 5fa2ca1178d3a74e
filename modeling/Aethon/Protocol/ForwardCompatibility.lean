import Aethon.Protocol.PacketDecode

/-!
# Sections of newer firmware

In relaxed mode the decoder is meant to skip sections it does not know. The section loop checks
behind every section that its body was consumed, and nothing consumes the body of an unknown one,
so `skips_unknown_sections_iff`: the decoder skips unknown sections exactly when they are empty.
-/

namespace Aethon.Protocol

open Codec LittleEndian

/-- `SectionsExtended sections extended bodies` says that unknown sections with the given bodies,
each at any boundary between sections, turn the first section area into the second. -/
inductive SectionsExtended : Bytes → Bytes → List Bytes → Prop
  | terminator : SectionsExtended [0] [0] []
  | keep {id : UInt8} {body rest extended : Bytes} {bodies : List Bytes} :
      id ≠ 0 → body.length < 2 ^ 16 → SectionsExtended rest extended bodies →
      SectionsExtended (sectionWire id body ++ rest) (sectionWire id body ++ extended) bodies
  | insert {id : UInt8} {body sections extended : Bytes} {bodies : List Bytes} :
      id ∉ [0, fragmentSection, routeSection, capabilitiesSection, extensionSection] →
      body.length < 2 ^ 16 → SectionsExtended sections extended bodies →
      SectionsExtended sections (sectionWire id body ++ extended) (body :: bodies)

/-- The frame of a packet with unknown sections inserted, its lengths and its checksum adjusted. -/
def FrameExtended (packet : Packet) (frame extended : Bytes) (bodies : List Bytes) : Prop :=
  ∃ sections area, SectionsExtended sections area bodies ∧
    frame = frameWire (packet.bodyWire sections) ∧ extended = frameWire (packet.bodyWire area)

/-! ## A frame determines its section area -/

/-- A frame tells what is between its header and its checksum. -/
theorem frame_wire_injective : Function.Injective frameWire := by
  intro body body' h
  have hlength := congrArg List.length h
  rw [length_frame_wire, length_frame_wire] at hlength
  simp only [frameWire, envelopeWire, List.append_assoc] at h
  have hlen : body.length = body'.length := by omega
  rw [hlen] at h
  exact (List.append_inj (List.append_cancel_left (List.append_cancel_left h)) hlen).1

/-- A body tells its payload section and what follows. -/
theorem Packet.body_wire_injective (packet : Packet) : Function.Injective packet.bodyWire := by
  intro sections sections' h
  have hlength := congrArg List.length h
  simp only [Packet.bodyWire, List.length_append, length_digits, List.append_assoc] at h hlength
  have hlen : sections.length = sections'.length := by omega
  rw [hlen] at h
  exact (List.append_inj (List.append_cancel_left (List.append_cancel_left h)) hlen).1

/-- A section can be told from what follows it. -/
theorem section_wire_append_inj {id id' : UInt8} {body body' rest rest' : Bytes}
    (hbody : body.length < 2 ^ 16) (hbody' : body'.length < 2 ^ 16)
    (h : sectionWire id body ++ rest = sectionWire id' body' ++ rest') :
    id = id' ∧ body = body' ∧ rest = rest' := by
  simp only [sectionWire, stringWire, List.cons_append, List.append_assoc, List.cons.injEq] at h
  obtain ⟨hid, h⟩ := h
  obtain ⟨hlen, h⟩ := List.append_inj h (by simp)
  have hlength : body.length = body'.length := by
    have := congrArg value hlen
    rwa [value_digits hbody, value_digits hbody'] at this
  exact ⟨hid, List.append_inj h hlength⟩

/-! ## What the section loop does with an unknown section -/

/-- A section area that begins with a section reads that section first. -/
theorem SectionsRead.section_inv {options : DecodeOptions} {packet last : Packet} {id : UInt8}
    {body rest : Bytes} (hid : id ≠ 0) (hbody : body.length < 2 ^ 16)
    (h : SectionsRead options packet (sectionWire id body ++ rest) last) :
    ∃ middle, SectionRead options packet id body middle ∧
      SectionsRead options middle rest last := by
  generalize harea : sectionWire id body ++ rest = area at h
  cases h with
  | terminator =>
      rw [sectionWire, List.cons_append, List.cons.injEq] at harea
      exact absurd harea.1 hid
  | step _ hlength hread hrest =>
      obtain ⟨rfl, rfl, rfl⟩ := section_wire_append_inj hbody hlength harea
      exact ⟨_, hread, hrest⟩

/-- Without the tail check every unknown section would be skipped; with it only an empty one is. -/
theorem section_read_unknown_iff {options : DecodeOptions} {packet packet' : Packet} {id : UInt8}
    {body : Bytes} (hrelaxed : options.requireKnownExtensions = false)
    (hid : id ∉ [0, fragmentSection, routeSection, capabilitiesSection, extensionSection]) :
    SectionRead options packet id body packet' ↔ body = [] ∧ packet' = packet := by
  constructor
  · intro h
    cases h with
    | fragment | route | capabilities | extension => simp at hid
    | unknown => exact ⟨rfl, rfl⟩
  · intro h
    obtain ⟨rfl, rfl⟩ := h
    simp only [List.mem_cons, List.not_mem_nil, or_false, not_or] at hid
    obtain ⟨-, hfragment, hroute, hcapabilities, hextension⟩ := hid
    exact .unknown id hfragment hroute hcapabilities hextension hrelaxed

/-- An area with unknown sections is read like the one without them exactly when they are
empty. -/
theorem SectionsExtended.read_iff {options : DecodeOptions} {sections extended : Bytes}
    {bodies : List Bytes} (hrelaxed : options.requireKnownExtensions = false)
    (hextended : SectionsExtended sections extended bodies) {packet last : Packet}
    (hread : SectionsRead options packet sections last) :
    SectionsRead options packet extended last ↔ ∀ body ∈ bodies, body = [] := by
  induction hextended generalizing packet with
  | terminator => simpa using hread
  | keep hid hbody _ ih =>
      obtain ⟨middle, hsection, hrest⟩ := hread.section_inv hid hbody
      rw [← ih hrest]
      constructor
      · intro h
        -- the kept section has one effect only, so both areas go on from the same packet
        obtain ⟨middle', hsection', hrest'⟩ := h.section_inv hid hbody
        have hsame := (read_section_ok_iff.mpr hsection').symm.trans
          (read_section_ok_iff.mpr hsection)
        cases hsame
        exact hrest'
      · intro h
        exact .step hid hbody hsection h
  | insert hid hbody _ ih =>
      have hzero := List.ne_of_not_mem_cons hid
      rw [List.forall_mem_cons, ← ih hread]
      constructor
      · intro h
        obtain ⟨middle, hsection, hrest⟩ := h.section_inv hzero hbody
        obtain ⟨hempty, rfl⟩ := (section_read_unknown_iff hrelaxed hid).mp hsection
        exact ⟨hempty, hrest⟩
      · intro h
        obtain ⟨hempty, hrest⟩ := h
        exact .step hzero hbody ((section_read_unknown_iff hrelaxed hid).mpr ⟨hempty, rfl⟩) hrest

/-! ## The frame -/

/-- In relaxed mode, a frame with unknown sections inserted decodes to the same packet exactly
when every inserted body is empty and the frame's own length field can hold its length. -/
theorem skips_unknown_sections_iff {options : DecodeOptions} {frame extended : Bytes}
    {packet : Packet} {bodies : List Bytes} (hrelaxed : options.requireKnownExtensions = false)
    (haccepted : decodePacket frame options = .ok packet)
    (hextended : FrameExtended packet frame extended bodies)
    (hmax : extended.length ≤ options.maxPacketSize) :
    decodePacket extended options = .ok packet ↔
      (∀ body ∈ bodies, body = []) ∧ extended.length < 2 ^ 32 := by
  obtain ⟨sections, area, hsections, hframe, hextended⟩ := hextended
  obtain ⟨read, hread, -, -, hlimits, hgrammar⟩ := decode_packet_ok_iff.mp haccepted
  obtain rfl : sections = read :=
    packet.body_wire_injective (frame_wire_injective (hframe.symm.trans hread))
  rw [decode_packet_ok_iff, ← hsections.read_iff hrelaxed hgrammar]
  constructor
  · intro h
    obtain ⟨area', harea, -, hwidth, -, hgrammar'⟩ := h
    obtain rfl : area = area' :=
      packet.body_wire_injective (frame_wire_injective (hextended.symm.trans harea))
    exact ⟨hgrammar', hwidth⟩
  · intro h
    obtain ⟨hgrammar', hwidth⟩ := h
    exact ⟨area, hextended, hmax, hwidth, hlimits, hgrammar'⟩

/-- An empty section of an unknown type in front of the terminator is skipped. -/
theorem skips_empty_section :
    let packet : Packet := {}
    let extended := frameWire (packet.bodyWire (sectionWire 9 [] ++ [0]))
    decodePacket extended = .ok packet ↔
      (∀ body ∈ ([[]] : List Bytes), body = []) ∧ extended.length < 2 ^ 32 := by
  intro packet extended
  have haccepted : decodePacket (frameWire (packet.bodyWire [0])) = .ok packet := by
    decide +kernel
  exact skips_unknown_sections_iff rfl haccepted
    ⟨[0], sectionWire 9 [] ++ [0], .insert (by decide) (by decide) .terminator, rfl, rfl⟩
    (by decide +kernel)

/-- One byte of a section type that the decoder does not know costs the whole frame. -/
theorem unknown_section_rejected :
    let packet : Packet := {}
    let frame := frameWire (packet.bodyWire [0])
    let extended := frameWire (packet.bodyWire (sectionWire 9 [1] ++ [0]))
    decodePacket frame = .ok packet ∧ FrameExtended packet frame extended [[1]] ∧
      extended.length ≤ ({} : DecodeOptions).maxPacketSize ∧
      decodePacket extended = .error ⟨.malformedPacket, "section tail not consumed"⟩ := by
  intro packet frame extended
  refine ⟨by decide +kernel, ⟨[0], sectionWire 9 [1] ++ [0],
    .insert (by decide) (by decide) .terminator, rfl, rfl⟩, by decide +kernel, by decide +kernel⟩

end Aethon.Protocol
