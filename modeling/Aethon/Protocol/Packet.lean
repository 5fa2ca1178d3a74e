import Aethon.Protocol.Types
import Aethon.Codec.BinaryReader
import Aethon.Codec.BinaryWriter
import Aethon.Codec.Crc

/-!
# The packet codec

`encodePacket` and `decodePacket`, after `protocol/packet.cpp`. A frame is the magic word, the
body length, the body and a checksum over everything before it. The body is a fixed header, a
length-prefixed list of typed sections ended by a zero byte, and a length-prefixed payload.

Lengths are written by truncating casts; only the relay path, the number of bands and the
section size are checked on the way out.
-/

namespace Aethon.Protocol

open Codec Parsing

/-- `packet_magic`, the bytes `ATHN` on the wire. -/
def packetMagic : UInt32 := 0x4e485441

/-- The limits of a decoder. -/
structure DecodeOptions where
  maxPacketSize : Nat := 1024 * 1024
  requireKnownExtensions : Bool := false
  deriving DecidableEq, Repr

/-- The section identifiers of the wire format. -/
def fragmentSection : UInt8 := 1

/-- The section of the route. -/
def routeSection : UInt8 := 2

/-- The section of the capabilities. -/
def capabilitiesSection : UInt8 := 3

/-- The section of an extension. -/
def extensionSection : UInt8 := 4

/-! ## Writing -/

/-- The three numbers of a fragment. -/
def writeFragment (w : BinaryWriter) (f : FragmentInfo) : BinaryWriter :=
  ((w.u32 f.streamId).u16 f.sequence).u16 f.count

/-- A route, which throws where it is too deep. -/
def writeRoute (w : BinaryWriter) (route : RoutingInfo) : Except Error BinaryWriter := do
  let w := ((w.u16 route.region).u16 route.collector).u8 route.priority
  rejectIf (route.relayPath.length > 32) (Error.mk .invalidArgument "relay path is too deep")
  let w := w.u8 (UInt8.ofNat route.relayPath.length)
  pure (route.relayPath.foldl BinaryWriter.u16 w)

/-- The flag byte of a capability section. -/
def capabilityFlags (caps : DeviceCapabilities) : UInt8 :=
  (if caps.supportsCompression then 1 else 0) ||| (if caps.supportsEncryption then 2 else 0)
    ||| (if caps.hasGpsTime then 4 else 0)

/-- The capabilities, which throw where the bands are too many or one is too long. -/
def writeCapabilities (w : BinaryWriter) (caps : DeviceCapabilities) :
    Except Error BinaryWriter := do
  let w := (w.u8 (capabilityFlags caps)).u16 caps.maxPayload
  rejectIf (caps.sensorBands.length > 16) (Error.mk .invalidArgument "too many sensor bands")
  let w := w.u8 (UInt8.ofNat caps.sensorBands.length)
  caps.sensorBands.foldlM BinaryWriter.string w

/-- A section with its identifier and its length in front. -/
def writeSection (out : BinaryWriter) (id : UInt8) (section_ : Bytes) :
    Except Error BinaryWriter := do
  rejectIf (section_.length > 65535)
    (Error.mk .invalidArgument "packet section exceeds wire limit")
  pure (((out.u8 id).u16 (UInt16.ofNat section_.length)).bytes section_)

/-- The loop body over the extensions of a packet. -/
def writeExtension (out : BinaryWriter) (ext : ExtensionHeader) : Except Error BinaryWriter :=
  let s : BinaryWriter := ⟨[]⟩
  writeSection out extensionSection
    (((s.u16 ext.type).u16 (UInt16.ofNat ext.value.length)).bytes ext.value).buffer

/-- The `if` block over an optional field: write the field to a section of its own. -/
def writeOptionalSection {α : Type} (out : BinaryWriter) (id : UInt8) (field : Option α)
    (write : BinaryWriter → α → Except Error BinaryWriter) : Except Error BinaryWriter :=
  match field with
  | some value => do
      let s ← write ⟨[]⟩ value
      writeSection out id s.buffer
  | none => pure out

/-- The sections that a packet has, the fragment first and the extensions last. -/
def encodePayloadSections (packet : Packet) : Except Error Bytes := do
  let out : BinaryWriter := ⟨[]⟩
  let out ← writeOptionalSection out fragmentSection packet.fragment
    fun w fragment => pure (writeFragment w fragment)
  let out ← writeOptionalSection out routeSection packet.route writeRoute
  let out ← writeOptionalSection out capabilitiesSection packet.capabilities writeCapabilities
  let out ← packet.extensions.foldlM writeExtension out
  pure (out.u8 0).buffer

/-- The frame of a packet: the magic, the length, the body and the checksum. -/
def encodePacket (packet : Packet) : Except Error Bytes := do
  let body : BinaryWriter := ⟨[]⟩
  let body := (body.u8 packet.version.raw).u8 packet.kind.raw
  let body := ((body.u64 packet.device).u64 packet.timestampNs).u32 packet.sequence
  let body := (body.u8 packet.compression.raw).u8 packet.encryption.raw
  let sections ← encodePayloadSections packet
  let body := (body.u32 (UInt32.ofNat sections.length)).bytes sections
  let body := (body.u32 (UInt32.ofNat packet.payload.length)).bytes packet.payload
  let frame : BinaryWriter := ⟨[]⟩
  let frame := (frame.u32 packetMagic).u32 (UInt32.ofNat body.buffer.length)
  let frame := frame.bytes body.buffer
  pure (frame.u32 (crc32c frame.buffer)).buffer

/-! ## Reading -/

/-- The checked cast of the version byte. -/
def versionFrom (raw : UInt8) : Except Error ProtocolVersion :=
  if raw < 1 ∨ raw > 3 then .error ⟨.unsupportedVersion, "unsupported protocol version"⟩
  else .ok ⟨raw⟩

/-- The checked cast of the kind byte. -/
def kindFrom (raw : UInt8) : Except Error PacketKind :=
  if raw < 1 ∨ raw > 5 then .error ⟨.malformedPacket, "unknown packet kind"⟩
  else .ok ⟨raw⟩

/-- Read a fragment and check its coordinates. -/
def readFragment : BinaryReader FragmentInfo := do
  let streamId ← BinaryReader.u32
  let sequence ← BinaryReader.u16
  let count ← BinaryReader.u16
  rejectIf (count = 0 ∨ sequence ≥ count)
    (Error.mk .malformedPacket "invalid fragment coordinates")
  pure ⟨streamId, sequence, count⟩

/-- Read a route and check its depth. -/
def readRoute : BinaryReader RoutingInfo := do
  let region ← BinaryReader.u16
  let collector ← BinaryReader.u16
  let priority ← BinaryReader.u8
  let hops ← BinaryReader.u8
  rejectIf (hops > 32) (Error.mk .malformedPacket "relay path is too deep")
  let relayPath ← repeatM BinaryReader.u16 hops.toNat
  pure ⟨region, collector, priority, relayPath⟩

/-- Read capabilities and check the number of bands. -/
def readCapabilities : BinaryReader DeviceCapabilities := do
  let flags ← BinaryReader.u8
  let maxPayload ← BinaryReader.u16
  let count ← BinaryReader.u8
  rejectIf (count > 16) (Error.mk .malformedPacket "too many bands")
  let sensorBands ← repeatM (BinaryReader.string 64) count.toNat
  pure {
    supportsCompression := flags &&& 1 != 0
    supportsEncryption := flags &&& 2 != 0
    hasGpsTime := flags &&& 4 != 0
    maxPayload := maxPayload
    sensorBands := sensorBands }

/-- The extension case of the section switch. -/
def readExtension : BinaryReader ExtensionHeader := do
  let type ← BinaryReader.u16
  let size ← BinaryReader.u16
  let value ← BinaryReader.bytes size.toNat
  pure ⟨type, value⟩

/-- The section switch: read one section body into the packet. -/
def readSection (packet : Packet) (id : UInt8) (options : DecodeOptions) :
    BinaryReader Packet :=
  if id = fragmentSection then do
    let fragment ← readFragment
    pure { packet with fragment := some fragment }
  else if id = routeSection then do
    let route ← readRoute
    pure { packet with route := some route }
  else if id = capabilitiesSection then do
    let caps ← readCapabilities
    pure { packet with capabilities := some caps }
  else if id = extensionSection then do
    let ext ← readExtension
    pure { packet with extensions := packet.extensions ++ [ext] }
  else do
    rejectIf (options.requireKnownExtensions = true)
      (Error.mk .malformedPacket "unknown section")
    pure packet

/-- One pass of the section loop behind the terminator test: the length, the body, the switch,
and the check that the switch consumed the body. Returns the packet and the unread sections. -/
def decodeSection (packet : Packet) (id : UInt8) (options : DecodeOptions) (unread : Bytes) :
    Except Error (Packet × Bytes) := do
  let (len, unread) ← BinaryReader.u16 unread
  let (body, unread) ← BinaryReader.bytes len.toNat unread
  let (packet, tail) ← readSection packet id options body
  rejectIf (tail ≠ []) (Error.mk .malformedPacket "section tail not consumed")
  pure (packet, unread)

/-- A pass of the loop leaves fewer bytes. -/
theorem decode_section_shorter {packet packet' : Packet} {id : UInt8} {options : DecodeOptions}
    {unread unread' : Bytes}
    (h : decodeSection packet id options unread = .ok (packet', unread')) :
    unread'.length < unread.length := by
  simp only [decodeSection, except_bind_ok_iff, Prod.exists] at h
  obtain ⟨len, middle, hlen, body, last, hbody, packet, tail, -, u, -, hpure⟩ := h
  obtain ⟨rfl, -⟩ := (BinaryReader.u16_exact.ok_iff _ _ _).mp hlen
  obtain ⟨rfl, -⟩ := ((BinaryReader.bytes_exact _).ok_iff _ _ _).mp hbody
  cases hpure
  simp
  omega

/-- Read sections up to the terminator, which must be the last byte. -/
def decodePayloadSections (packet : Packet) (sections : Bytes) (options : DecodeOptions) :
    Except Error Packet :=
  match sections with
  | [] => .error ⟨.malformedPacket, "missing section terminator"⟩
  | id :: unread =>
      if id = 0 then
        if unread ≠ [] then .error ⟨.malformedPacket, "trailing section bytes"⟩
        else .ok packet
      else
        match _h : decodeSection packet id options unread with
        | .error failure => .error failure
        | .ok (packet, unread) => decodePayloadSections packet unread options
termination_by sections.length
decreasing_by
  have := decode_section_shorter _h
  simp
  omega

/-- The body of a frame, behind the envelope checks. -/
def decodeBody (options : DecodeOptions) : BinaryReader Packet := do
  let version ← versionFrom (← BinaryReader.u8)
  let kind ← kindFrom (← BinaryReader.u8)
  let device ← BinaryReader.u64
  let timestampNs ← BinaryReader.u64
  let sequence ← BinaryReader.u32
  let compression ← BinaryReader.u8
  let encryption ← BinaryReader.u8
  let sectionLen ← BinaryReader.u32
  let sections ← BinaryReader.bytes sectionLen.toNat
  let packet ← decodePayloadSections
    { version, kind, device, timestampNs, sequence,
      compression := ⟨compression⟩, encryption := ⟨encryption⟩ } sections options
  let payloadLen ← BinaryReader.u32
  let payload ← BinaryReader.bytes payloadLen.toNat
  pure { packet with payload }

/-- Check the frame around the body and decode what is inside. -/
def decodePacket (frame : Bytes) (options : DecodeOptions := {}) : Except Error Packet := do
  rejectIf (frame.length < 12 ∨ frame.length > options.maxPacketSize)
    (Error.mk .malformedPacket "packet length outside bounds")
  let expectedCrc := crc32c (frame.take (frame.length - 4))
  let (magic, envelope) ← BinaryReader.u32 frame
  rejectIf (magic ≠ packetMagic) (Error.mk .malformedPacket "packet magic mismatch")
  let (bodyLen, envelope) ← BinaryReader.u32 envelope
  rejectIf ((bodyLen + 12).toNat ≠ frame.length)
    (Error.mk .malformedPacket "packet length mismatch")
  let (body, envelope) ← BinaryReader.bytes bodyLen.toNat envelope
  let (crc, _) ← BinaryReader.u32 envelope
  rejectIf (crc ≠ expectedCrc) (Error.mk .checksumMismatch "packet crc mismatch")
  let (packet, tail) ← decodeBody options body
  rejectIf (tail ≠ []) (Error.mk .malformedPacket "trailing packet bytes")
  pure packet

end Aethon.Protocol
