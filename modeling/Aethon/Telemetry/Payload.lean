import Aethon.Codec.BinaryReader
import Aethon.Codec.BinaryWriter
import Aethon.Protocol.Types

/-!
# Telemetry payloads

The four payload formats of `telemetry/payload.cpp`, each with its encoder and its decoder. A
payload starts with the marker byte of its format, and a decoder refuses bytes behind the value.
Readings are signed and travel as the words of the same bits. A quality is only made from a byte by
the checked `decode_quality`, so it is one of the named values. `decode_packet_payload` picks the
decoder for a packet, by the marker byte or else by the kind of the packet.
-/

namespace Aethon.Telemetry

open Codec Parsing Protocol

/-- What a payload holds. -/
inductive PayloadFormat where
  | unknown
  | scalarObservation
  | spectrumFrame
  | controlEnvelope
  | capabilityReport
  deriving DecidableEq, Repr

/-- The marker byte of a format. -/
def PayloadFormat.raw : PayloadFormat → UInt8
  | .unknown => 0
  | .scalarObservation => 1
  | .spectrumFrame => 2
  | .controlEnvelope => 3
  | .capabilityReport => 4

/-- How far a reading can be trusted. -/
inductive ReadingQuality where
  | good
  | clipped
  | interpolated
  | missingCalibration
  | receiverSaturated
  deriving DecidableEq, Repr

/-- A reading of a channel, with its decimal scale. -/
structure ScalarReading where
  channel : UInt16 := 0
  value : Int32 := 0
  scale : Int16 := 0
  quality : ReadingQuality := .good
  deriving DecidableEq

/-- Readings that were taken at one time. -/
structure ScalarObservation where
  sampleTimeNs : UInt64 := 0
  sampleRateHz : UInt32 := 0
  readings : List ScalarReading := []
  deriving DecidableEq

/-- The power and the noise in tenths of a dBm. -/
structure SpectrumBin where
  powerDbmX10 : Int16 := 0
  noiseDbmX10 : Int16 := 0
  deriving DecidableEq

/-- The bins of a spectrum from one sweep. -/
structure SpectrumFrame where
  centerFrequencyHz : UInt64 := 0
  spanHz : UInt32 := 0
  binWidthHz : UInt16 := 0
  bins : List SpectrumBin := []
  deriving DecidableEq

/-- A command with its body. -/
structure ControlEnvelope where
  command : UInt16 := 0
  flags : UInt16 := 0
  correlationId : UInt32 := 0
  body : Bytes := []
  deriving DecidableEq

/-- What a device says that it can do. -/
structure CapabilityReport where
  maxPayload : UInt16 := 0
  compression : Bool := false
  encryption : Bool := false
  gpsTime : Bool := false
  bands : List Bytes := []
  deriving DecidableEq

/-- The most readings of an observation. -/
def maxScalarReadings : Nat := 512

/-- The most bins of a frame. -/
def maxSpectrumBins : Nat := 8192

/-- The most bands of a report. -/
def maxCapabilityBands : Nat := 128

/-- The largest body of a control envelope. -/
def maxControlBody : Nat := 1024 * 1024

/-- The checked cast of a quality. -/
def decodeQuality (value : UInt8) : Except Error ReadingQuality :=
  if value = 0 then .ok .good
  else if value = 1 then .ok .clipped
  else if value = 2 then .ok .interpolated
  else if value = 3 then .ok .missingCalibration
  else if value = 4 then .ok .receiverSaturated
  else .error ⟨.malformedPacket, "unknown reading quality"⟩

/-- The byte of a quality. -/
def encodeQuality : ReadingQuality → UInt8
  | .good => 0
  | .clipped => 1
  | .interpolated => 2
  | .missingCalibration => 3
  | .receiverSaturated => 4

variable {m : Type → Type} [Monad m] [MonadExceptOf Error m]

/-- Throw for a count over its limit. -/
def requireCount (count limit : Nat) (label : String) : m Unit :=
  rejectIf (count > limit) (Error.mk .malformedPacket (label ++ " count exceeds limit"))

/-- Throw for a size that two bytes do not hold. -/
def requireU16Size (size : Nat) (label : String) : m Unit :=
  rejectIf (size > 65535) (Error.mk .invalidArgument (label ++ " is too large"))

/-! ## Reading -/

/-- The check that opens a decoder: the first byte is the marker of the format. -/
def readMarker (format : PayloadFormat) (label : String) : BinaryReader Unit := do
  let marker ← BinaryReader.u8
  rejectIf (marker ≠ format.raw) (Error.mk .malformedPacket (label ++ " marker mismatch"))

/-- The list that ends a decoder: a 16-bit count within the limit and that many items. -/
def readCounted {α : Type} (read : BinaryReader α) (limit : Nat) (label : String) :
    BinaryReader (List α) := do
  let count ← BinaryReader.u16
  requireCount count.toNat limit label
  repeatM read count.toNat

/-- Decode a payload with a reader that has to consume it. -/
def decodeWhole {α : Type} (read : BinaryReader α) (label : String) (payload : Bytes) :
    Except Error α := do
  let (value, tail) ← read payload
  rejectIf (tail ≠ []) (Error.mk .malformedPacket ("trailing " ++ label ++ " bytes"))
  pure value

/-- Read a reading. -/
def readScalarReading : BinaryReader ScalarReading := do
  let channel ← BinaryReader.u16
  let value ← BinaryReader.u32
  let scale ← BinaryReader.u16
  let quality ← decodeQuality (← BinaryReader.u8)
  pure ⟨channel, ⟨value⟩, ⟨scale⟩, quality⟩

/-- Read the marker, the times and the counted readings. -/
def readScalarObservation : BinaryReader ScalarObservation := do
  readMarker .scalarObservation "scalar observation"
  let sampleTimeNs ← BinaryReader.u64
  let sampleRateHz ← BinaryReader.u32
  let readings ← readCounted readScalarReading maxScalarReadings "scalar reading"
  pure ⟨sampleTimeNs, sampleRateHz, readings⟩

/-- Decode an observation that takes up the whole payload. -/
def decodeScalarObservation : Bytes → Except Error ScalarObservation :=
  decodeWhole readScalarObservation "scalar observation"

/-- Read a bin. -/
def readSpectrumBin : BinaryReader SpectrumBin := do
  let power ← BinaryReader.u16
  let noise ← BinaryReader.u16
  pure ⟨⟨power⟩, ⟨noise⟩⟩

/-- Read the marker, the frequencies and the counted bins. -/
def readSpectrumFrame : BinaryReader SpectrumFrame := do
  readMarker .spectrumFrame "spectrum frame"
  let centerFrequencyHz ← BinaryReader.u64
  let spanHz ← BinaryReader.u32
  let binWidthHz ← BinaryReader.u16
  let bins ← readCounted readSpectrumBin maxSpectrumBins "spectrum bin"
  pure ⟨centerFrequencyHz, spanHz, binWidthHz, bins⟩

/-- Decode a frame that takes up the whole payload. -/
def decodeSpectrumFrame : Bytes → Except Error SpectrumFrame :=
  decodeWhole readSpectrumFrame "spectrum frame"

/-- Read the marker, the identifiers and the body. -/
def readControlEnvelope : BinaryReader ControlEnvelope := do
  readMarker .controlEnvelope "control envelope"
  let command ← BinaryReader.u16
  let flags ← BinaryReader.u16
  let correlationId ← BinaryReader.u32
  let bodySize ← BinaryReader.u32
  requireCount bodySize.toNat maxControlBody "control body"
  let body ← BinaryReader.bytes bodySize.toNat
  pure ⟨command, flags, correlationId, body⟩

/-- Decode an envelope that takes up the whole payload. -/
def decodeControlEnvelope : Bytes → Except Error ControlEnvelope :=
  decodeWhole readControlEnvelope "control envelope"

/-- Read the marker, the flags and the counted bands. -/
def readCapabilityReport : BinaryReader CapabilityReport := do
  readMarker .capabilityReport "capability report"
  let maxPayload ← BinaryReader.u16
  let flags ← BinaryReader.u8
  let bands ← readCounted (BinaryReader.string 128) maxCapabilityBands "capability band"
  pure {
    maxPayload := maxPayload
    compression := flags &&& 0x01 != 0
    encryption := flags &&& 0x02 != 0
    gpsTime := flags &&& 0x04 != 0
    bands := bands }

/-- Decode a report that takes up the whole payload. -/
def decodeCapabilityReport : Bytes → Except Error CapabilityReport :=
  decodeWhole readCapabilityReport "capability report"

/-! ## Writing -/

/-- Write a reading. -/
def writeScalarReading (writer : BinaryWriter) (reading : ScalarReading) : BinaryWriter :=
  let writer := (writer.u16 reading.channel).u32 reading.value.toUInt32
  (writer.u16 reading.scale.toUInt16).u8 (encodeQuality reading.quality)

/-- The payload of an observation, unless it has too many readings. -/
def encodeScalarObservation (observation : ScalarObservation) : Except Error Bytes := do
  requireU16Size observation.readings.length "scalar reading list"
  requireCount observation.readings.length maxScalarReadings "scalar reading"
  let writer : BinaryWriter := ⟨[]⟩
  let writer := writer.u8 PayloadFormat.scalarObservation.raw
  let writer := (writer.u64 observation.sampleTimeNs).u32 observation.sampleRateHz
  let writer := writer.u16 (UInt16.ofNat observation.readings.length)
  pure (observation.readings.foldl writeScalarReading writer).buffer

/-- Write a bin. -/
def writeSpectrumBin (writer : BinaryWriter) (bin : SpectrumBin) : BinaryWriter :=
  (writer.u16 bin.powerDbmX10.toUInt16).u16 bin.noiseDbmX10.toUInt16

/-- The payload of a frame, unless it has too many bins. -/
def encodeSpectrumFrame (frame : SpectrumFrame) : Except Error Bytes := do
  requireU16Size frame.bins.length "spectrum bin list"
  requireCount frame.bins.length maxSpectrumBins "spectrum bin"
  let writer : BinaryWriter := ⟨[]⟩
  let writer := writer.u8 PayloadFormat.spectrumFrame.raw
  let writer := ((writer.u64 frame.centerFrequencyHz).u32 frame.spanHz).u16 frame.binWidthHz
  let writer := writer.u16 (UInt16.ofNat frame.bins.length)
  pure (frame.bins.foldl writeSpectrumBin writer).buffer

/-- The payload of an envelope, unless its body is too large. -/
def encodeControlEnvelope (envelope : ControlEnvelope) : Except Error Bytes := do
  requireCount envelope.body.length maxControlBody "control body"
  let writer : BinaryWriter := ⟨[]⟩
  let writer := writer.u8 PayloadFormat.controlEnvelope.raw
  let writer := ((writer.u16 envelope.command).u16 envelope.flags).u32 envelope.correlationId
  let writer := writer.u32 (UInt32.ofNat envelope.body.length)
  pure (writer.bytes envelope.body).buffer

/-- The flag byte of a capability report. -/
def CapabilityReport.flags (report : CapabilityReport) : UInt8 :=
  (if report.compression then 0x01 else 0) ||| (if report.encryption then 0x02 else 0)
    ||| (if report.gpsTime then 0x04 else 0)

/-- The payload of a report, unless it has too many bands. -/
def encodeCapabilityReport (report : CapabilityReport) : Except Error Bytes := do
  requireU16Size report.bands.length "capability band list"
  requireCount report.bands.length maxCapabilityBands "capability band"
  let writer : BinaryWriter := ⟨[]⟩
  let writer := writer.u8 PayloadFormat.capabilityReport.raw
  let writer := (writer.u16 report.maxPayload).u8 report.flags
  let writer := writer.u16 (UInt16.ofNat report.bands.length)
  let writer ← report.bands.foldlM BinaryWriter.string writer
  pure writer.buffer

/-! ## Payloads of packets -/

/-- The cast of a marker byte that is in the range of the formats. -/
def PayloadFormat.ofMarker (marker : UInt8) : Option PayloadFormat :=
  if marker = 1 then some .scalarObservation
  else if marker = 2 then some .spectrumFrame
  else if marker = 3 then some .controlEnvelope
  else if marker = 4 then some .capabilityReport
  else none

/-- The format of the marker byte, or else of the kind of the packet. -/
def inferPayloadFormat (packet : Packet) : PayloadFormat :=
  match packet.payload.head?.bind PayloadFormat.ofMarker with
  | some format => format
  | none =>
      if packet.kind = .observation then .scalarObservation
      else if packet.kind = .spectrum then .spectrumFrame
      else if packet.kind = .control then .controlEnvelope
      else if packet.kind = .capabilities then .capabilityReport
      else .unknown

/-- The warnings about an observation. -/
def scalarWarnings (observation : ScalarObservation) : List String :=
  let badQuality := observation.readings.countP fun reading => reading.quality ≠ .good
  (if observation.readings = [] then ["scalar observation contains no readings"] else []) ++
  (if observation.sampleRateHz = 0 then ["scalar observation has zero sample rate"] else []) ++
  if badQuality ≠ 0 then [toString badQuality ++ " scalar readings have degraded quality"] else []

/-- The warnings about a frame. -/
def spectrumWarnings (frame : SpectrumFrame) : List String :=
  let saturated := frame.bins.countP fun bin => bin.powerDbmX10 ≥ 0 ∨ bin.noiseDbmX10 ≥ 0
  (if frame.bins = [] then ["spectrum frame contains no bins"] else []) ++
  (if frame.spanHz = 0 then ["spectrum frame has zero span"] else []) ++
  (if frame.binWidthHz = 0 then ["spectrum frame has zero bin width"] else []) ++
  if saturated ≠ 0 then [toString saturated ++ " spectrum bins report non-negative RF power"]
  else []

/-- The warnings about an envelope. -/
def controlWarnings (envelope : ControlEnvelope) : List String :=
  (if envelope.command = 0 then ["control envelope has reserved command id"] else []) ++
  if envelope.body = [] then ["control envelope body is empty"] else []

/-- The warnings about a report. -/
def capabilityWarnings (report : CapabilityReport) : List String :=
  (if report.maxPayload = 0 then ["capability report has zero max payload"] else []) ++
  if report.bands = [] then ["capability report has no sensor bands"] else []

/-- What a payload was decoded to, with the warnings about it. -/
structure DecodedPayload where
  format : PayloadFormat := .unknown
  scalar : Option ScalarObservation := none
  spectrum : Option SpectrumFrame := none
  control : Option ControlEnvelope := none
  capabilities : Option CapabilityReport := none
  warnings : List String := []
  deriving DecidableEq

/-- What a decoder throws becomes a warning. -/
def decodePacketPayload (packet : Packet) : DecodedPayload :=
  let format := inferPayloadFormat packet
  if packet.payload = [] then { format, warnings := ["packet payload is empty"] }
  else match format with
    | .scalarObservation =>
        match decodeScalarObservation packet.payload with
        | .ok observation =>
            { format, scalar := some observation, warnings := scalarWarnings observation }
        | .error failure => { format, warnings := [failure.message] }
    | .spectrumFrame =>
        match decodeSpectrumFrame packet.payload with
        | .ok frame => { format, spectrum := some frame, warnings := spectrumWarnings frame }
        | .error failure => { format, warnings := [failure.message] }
    | .controlEnvelope =>
        match decodeControlEnvelope packet.payload with
        | .ok envelope =>
            { format, control := some envelope, warnings := controlWarnings envelope }
        | .error failure => { format, warnings := [failure.message] }
    | .capabilityReport =>
        match decodeCapabilityReport packet.payload with
        | .ok report =>
            { format, capabilities := some report, warnings := capabilityWarnings report }
        | .error failure => { format, warnings := [failure.message] }
    | .unknown => { format, warnings := ["unknown payload format"] }

end Aethon.Telemetry
