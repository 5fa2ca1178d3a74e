import Aethon.Common.Error

/-!
# Packets

The data model of `protocol/types.hpp`. The enumerations have a fixed 8-bit underlying type and
are filled by unchecked casts, so each is the byte it holds together with its named values. Band
names are byte strings.
-/

namespace Aethon.Protocol

/-- Devices are known by a word. -/
abbrev DeviceId := UInt64

/-- The protocol version byte. -/
structure ProtocolVersion where
  raw : UInt8
  deriving DecidableEq, Repr

namespace ProtocolVersion

/-- The first version. -/
def v1 : ProtocolVersion := ⟨1⟩

/-- The second version. -/
def v2 : ProtocolVersion := ⟨2⟩

/-- The third version, which is written by default. -/
def v3 : ProtocolVersion := ⟨3⟩
end ProtocolVersion

/-- The packet kind byte. -/
structure PacketKind where
  raw : UInt8
  deriving DecidableEq, Repr

namespace PacketKind

/-- A packet that only says that the device is there. -/
def heartbeat : PacketKind := ⟨1⟩

/-- A packet of scalar readings. -/
def observation : PacketKind := ⟨2⟩

/-- A packet of spectrum bins. -/
def spectrum : PacketKind := ⟨3⟩

/-- A packet of a control command. -/
def control : PacketKind := ⟨4⟩

/-- A packet of what a device can do. -/
def capabilities : PacketKind := ⟨5⟩
end PacketKind

/-- The compression mode byte. -/
structure CompressionMode where
  raw : UInt8
  deriving DecidableEq, Repr

namespace CompressionMode

/-- The payload is as it was given. -/
def none : CompressionMode := ⟨0⟩

/-- The payload is made of runs. -/
def rle : CompressionMode := ⟨1⟩
end CompressionMode

/-- The encryption mode byte. -/
structure EncryptionMode where
  raw : UInt8
  deriving DecidableEq, Repr

namespace EncryptionMode

/-- The payload is open. -/
def none : EncryptionMode := ⟨0⟩

/-- The payload is sealed in an envelope. -/
def envelope : EncryptionMode := ⟨1⟩
end EncryptionMode

/-- The coordinates of one fragment of a message. -/
structure FragmentInfo where
  streamId : UInt32 := 0
  sequence : UInt16 := 0
  count : UInt16 := 1
  deriving DecidableEq, Repr

/-- Where a packet comes from and the hops that it took. -/
structure RoutingInfo where
  region : UInt16 := 0
  collector : UInt16 := 0
  priority : UInt8 := 0
  relayPath : List UInt16 := []
  deriving DecidableEq, Repr

/-- What a device can do. -/
structure DeviceCapabilities where
  supportsCompression : Bool := false
  supportsEncryption : Bool := false
  hasGpsTime : Bool := false
  maxPayload : UInt16 := 4096
  sensorBands : List Bytes := []
  deriving DecidableEq, Repr

/-- A section whose meaning the packet layer leaves to others. -/
structure ExtensionHeader where
  type : UInt16 := 0
  value : Bytes := []
  deriving DecidableEq, Repr

/-- A packet with all of its optional sections. -/
structure Packet where
  version : ProtocolVersion := .v3
  kind : PacketKind := .observation
  device : DeviceId := 0
  timestampNs : UInt64 := 0
  sequence : UInt32 := 0
  compression : CompressionMode := .none
  encryption : EncryptionMode := .none
  fragment : Option FragmentInfo := none
  route : Option RoutingInfo := none
  capabilities : Option DeviceCapabilities := none
  extensions : List ExtensionHeader := []
  payload : Bytes := []
  deriving DecidableEq, Repr

end Aethon.Protocol
