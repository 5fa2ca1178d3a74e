import Aethon.Telemetry.Payload

/-!
# What the payload codecs write and read

The byte strings of the four formats, written without the codec. Each encoder writes the byte
string of its value under its limits (`encode_scalar_observation_ok_iff` and its companions), and
each decoder accepts exactly these byte strings under its own limits. The limits of the two agree
except for the bands of a capability report, which the encoder lets be longer than the decoder
(`payload_round_trip`). Conversely a byte string that is accepted is the only one for its value
(`payloads_canonical`). The payload of a packet is decoded to what is written in it
(`decode_packet_payload_eq_iff`).
-/

namespace Aethon.Telemetry

open Codec Parsing LittleEndian

/-! ## Byte strings -/

/-- The wire form of a reading. -/
def ScalarReading.wire (reading : ScalarReading) : Bytes :=
  digits 2 reading.channel.toNat ++ digits 4 reading.value.toUInt32.toNat ++
    digits 2 reading.scale.toUInt16.toNat ++ [encodeQuality reading.quality]

/-- The wire form of an observation. -/
def ScalarObservation.wire (observation : ScalarObservation) : Bytes :=
  [PayloadFormat.scalarObservation.raw] ++ digits 8 observation.sampleTimeNs.toNat ++
    digits 4 observation.sampleRateHz.toNat ++ digits 2 observation.readings.length ++
    observation.readings.flatMap ScalarReading.wire

/-- The wire form of a bin. -/
def SpectrumBin.wire (bin : SpectrumBin) : Bytes :=
  digits 2 bin.powerDbmX10.toUInt16.toNat ++ digits 2 bin.noiseDbmX10.toUInt16.toNat

/-- The wire form of a frame. -/
def SpectrumFrame.wire (frame : SpectrumFrame) : Bytes :=
  [PayloadFormat.spectrumFrame.raw] ++ digits 8 frame.centerFrequencyHz.toNat ++
    digits 4 frame.spanHz.toNat ++ digits 2 frame.binWidthHz.toNat ++
    digits 2 frame.bins.length ++ frame.bins.flatMap SpectrumBin.wire

/-- The wire form of an envelope. -/
def ControlEnvelope.wire (envelope : ControlEnvelope) : Bytes :=
  [PayloadFormat.controlEnvelope.raw] ++ digits 2 envelope.command.toNat ++
    digits 2 envelope.flags.toNat ++ digits 4 envelope.correlationId.toNat ++
    digits 4 envelope.body.length ++ envelope.body

/-- A capability report with an arbitrary flag byte. -/
def CapabilityReport.wireWith (flags : UInt8) (report : CapabilityReport) : Bytes :=
  [PayloadFormat.capabilityReport.raw] ++ digits 2 report.maxPayload.toNat ++ [flags] ++
    digits 2 report.bands.length ++
    report.bands.flatMap fun band => digits 2 band.length ++ band

/-! ## What the decoders accept -/

/-- The named qualities are decoded from their own bytes. -/
theorem decode_quality_ok_iff {value : UInt8} {quality : ReadingQuality} :
    decodeQuality value = .ok quality ↔ value = encodeQuality quality := by
  unfold decodeQuality
  constructor
  · intro h
    split_ifs at h with h0 h1 h2 h3 h4
    all_goals
      cases h
      assumption
  · rintro rfl
    cases quality with
    | good => rfl
    | clipped => rfl
    | interpolated => rfl
    | missingCalibration => rfl
    | receiverSaturated => rfl

/-- A marker is its byte. -/
theorem read_marker_ok_iff {format : PayloadFormat} {label : String} {input rest : Bytes}
    {u : Unit} :
    readMarker format label input = .ok (u, rest) ↔ input = format.raw :: rest := by
  simp only [readMarker, bind_ok_iff, BinaryReader.u8_exact.ok_iff, rejectIf_ok_iff, ne_eq,
    not_not, and_true]
  constructor
  · rintro ⟨marker, middle, rfl, rfl, rfl⟩
    rfl
  · rintro rfl
    exact ⟨_, _, rfl, rfl, rfl⟩

theorem require_count_ok_iff {count limit : Nat} {label : String} {input rest : Bytes} {u : Unit} :
    (requireCount count limit label : BinaryReader Unit) input = .ok (u, rest) ↔
      count ≤ limit ∧ input = rest := by
  rw [requireCount, rejectIf_ok_iff, not_lt]

/-- A decoder that consumes its payload accepts what its reader accepts. -/
theorem decode_whole_ok_iff {α : Type} {read : BinaryReader α} {label : String} {payload : Bytes}
    {value : α} :
    decodeWhole read label payload = .ok value ↔ read payload = .ok (value, []) := by
  simp only [decodeWhole, except_bind_ok_iff, Prod.exists, except_rejectIf_ok_iff,
    except_pure_ok_iff, ne_eq, not_not]
  constructor
  · rintro ⟨_, _, hread, _, rfl, rfl⟩
    exact hread
  · intro hread
    exact ⟨value, [], hread, (), rfl, rfl⟩

/-- A reading is read from exactly its bytes. -/
theorem read_scalar_reading_exact :
    Exact readScalarReading ScalarReading.wire (fun _ => True) := by
  refine ⟨fun input rest reading => ?_⟩
  simp only [readScalarReading, bind_ok_iff, BinaryReader.u16_exact.ok_iff,
    BinaryReader.u32_exact.ok_iff, BinaryReader.u8_exact.ok_iff, lift_ok_iff, pure_ok_iff,
    decode_quality_ok_iff, and_true]
  constructor
  · rintro ⟨channel, _, rfl, value, _, rfl, scale, _, rfl, quality, _, rfl, _, _, ⟨rfl, rfl⟩, rfl,
      rfl⟩
    simp [ScalarReading.wire]
  · rintro rfl
    refine ⟨_, _, ?_, _, _, rfl, _, _, rfl, _, _, rfl, _, _, ⟨rfl, rfl⟩, rfl, rfl⟩
    simp [ScalarReading.wire]

/-- A counted list is its 16-bit length and its items. -/
theorem read_counted_exact {α : Type} {read : BinaryReader α} {encode : α → Bytes} {good : α → Prop}
    (hread : Exact read encode good) (limit : Nat) (hlimit : limit < 2 ^ 16) (label : String) :
    Exact (readCounted read limit label)
      (fun items => digits 2 items.length ++ items.flatMap encode)
      (fun items => items.length ≤ limit ∧ ∀ item ∈ items, good item) := by
  refine ⟨fun input rest items => ?_⟩
  simp only [readCounted, bind_ok_iff, BinaryReader.u16_exact.ok_iff, require_count_ok_iff,
    (hread.repeatM _).ok_iff, and_true]
  constructor
  · rintro ⟨count, _, rfl, u, _, ⟨hcount, rfl⟩, rfl, hlength, hgood⟩
    rw [hlength]
    exact ⟨(List.append_assoc _ _ _).symm, hcount, hgood⟩
  · rintro ⟨rfl, hcount, hgood⟩
    have hwidth : (UInt16.ofNat items.length).toNat = items.length :=
      Nat.mod_eq_of_lt (Nat.lt_of_le_of_lt hcount hlimit)
    refine ⟨UInt16.ofNat items.length, items.flatMap encode ++ rest, ?_, (), _, ⟨?_, rfl⟩, rfl,
      hwidth.symm, hgood⟩
    · rw [hwidth, List.append_assoc]
    · rw [hwidth]
      exact hcount

/-- An observation is decoded from exactly its bytes, up to the largest count. -/
theorem decode_scalar_observation_ok_iff {payload : Bytes} {observation : ScalarObservation} :
    decodeScalarObservation payload = .ok observation ↔
      payload = observation.wire ∧ observation.readings.length ≤ maxScalarReadings := by
  have hcounted := read_counted_exact read_scalar_reading_exact maxScalarReadings (by decide)
    "scalar reading"
  simp only [decodeScalarObservation, decode_whole_ok_iff, readScalarObservation, bind_ok_iff,
    read_marker_ok_iff, BinaryReader.u64_exact.ok_iff, BinaryReader.u32_exact.ok_iff,
    hcounted.ok_iff, pure_ok_iff, and_true]
  constructor
  · rintro ⟨u, _, rfl, time, _, rfl, rate, _, rfl, readings, _, ⟨rfl, hcount, -⟩, rfl, rfl⟩
    exact ⟨by simp [ScalarObservation.wire], hcount⟩
  · rintro ⟨rfl, hcount⟩
    refine ⟨(), _, ?_, _, _, rfl, _, _, rfl, observation.readings, [],
      ⟨rfl, hcount, fun _ _ => trivial⟩, rfl, rfl⟩
    simp [ScalarObservation.wire]

/-- A bin is read from exactly its bytes. -/
theorem read_spectrum_bin_exact : Exact readSpectrumBin SpectrumBin.wire (fun _ => True) := by
  refine ⟨fun input rest bin => ?_⟩
  simp only [readSpectrumBin, bind_ok_iff, BinaryReader.u16_exact.ok_iff, pure_ok_iff, and_true]
  constructor
  · rintro ⟨power, _, rfl, noise, _, rfl, rfl, rfl⟩
    simp [SpectrumBin.wire]
  · rintro rfl
    refine ⟨_, _, ?_, _, _, rfl, rfl, rfl⟩
    simp [SpectrumBin.wire]

/-- A spectrum is decoded from exactly its bytes, up to the largest count. -/
theorem decode_spectrum_frame_ok_iff {payload : Bytes} {frame : SpectrumFrame} :
    decodeSpectrumFrame payload = .ok frame ↔
      payload = frame.wire ∧ frame.bins.length ≤ maxSpectrumBins := by
  have hcounted := read_counted_exact read_spectrum_bin_exact maxSpectrumBins (by decide)
    "spectrum bin"
  simp only [decodeSpectrumFrame, decode_whole_ok_iff, readSpectrumFrame, bind_ok_iff,
    read_marker_ok_iff, BinaryReader.u64_exact.ok_iff, BinaryReader.u32_exact.ok_iff,
    BinaryReader.u16_exact.ok_iff, hcounted.ok_iff, pure_ok_iff, and_true]
  constructor
  · rintro ⟨u, _, rfl, center, _, rfl, span, _, rfl, width, _, rfl, bins, _, ⟨rfl, hcount, -⟩, rfl,
      rfl⟩
    exact ⟨by simp [SpectrumFrame.wire], hcount⟩
  · rintro ⟨rfl, hcount⟩
    refine ⟨(), _, ?_, _, _, rfl, _, _, rfl, _, _, rfl, frame.bins, [],
      ⟨rfl, hcount, fun _ _ => trivial⟩, rfl, rfl⟩
    simp [SpectrumFrame.wire]

/-- An envelope is decoded from exactly its bytes, up to the largest body. -/
theorem decode_control_envelope_ok_iff {payload : Bytes} {envelope : ControlEnvelope} :
    decodeControlEnvelope payload = .ok envelope ↔
      payload = envelope.wire ∧ envelope.body.length ≤ maxControlBody := by
  simp only [decodeControlEnvelope, decode_whole_ok_iff, readControlEnvelope, bind_ok_iff,
    read_marker_ok_iff, BinaryReader.u16_exact.ok_iff, BinaryReader.u32_exact.ok_iff,
    require_count_ok_iff, (BinaryReader.bytes_exact _).ok_iff, pure_ok_iff, and_true]
  constructor
  · rintro ⟨u, _, rfl, command, _, rfl, flags, _, rfl, correlation, _, rfl, size, _, rfl, u', _,
      ⟨hsize, rfl⟩, body, _, ⟨rfl, hlength⟩, rfl, rfl⟩
    rw [← hlength] at hsize
    exact ⟨by simp [ControlEnvelope.wire, hlength], hsize⟩
  · rintro ⟨rfl, hsize⟩
    have hwidth : (UInt32.ofNat envelope.body.length).toNat = envelope.body.length :=
      Nat.mod_eq_of_lt (Nat.lt_of_le_of_lt hsize (by decide))
    refine ⟨(), _, ?_, _, _, rfl, _, _, rfl, _, _, rfl, UInt32.ofNat envelope.body.length, _, rfl,
      (), _, ⟨?_, rfl⟩, envelope.body, [], ⟨rfl, hwidth.symm⟩, rfl, rfl⟩
    · rw [hwidth]
      simp [ControlEnvelope.wire]
    · rw [hwidth]
      exact hsize

/-- A decoder of capability reports reads three bits of the flag byte. -/
theorem decode_capability_report_ok_iff {payload : Bytes} {report : CapabilityReport} :
    decodeCapabilityReport payload = .ok report ↔
      ∃ flags, payload = report.wireWith flags ∧
        report.compression = (flags &&& 0x01 != 0) ∧ report.encryption = (flags &&& 0x02 != 0) ∧
        report.gpsTime = (flags &&& 0x04 != 0) ∧
        report.bands.length ≤ maxCapabilityBands ∧ ∀ band ∈ report.bands, band.length ≤ 128 := by
  have hcounted := read_counted_exact (BinaryReader.string_exact 128) maxCapabilityBands
    (by decide) "capability band"
  simp only [decodeCapabilityReport, decode_whole_ok_iff, readCapabilityReport, bind_ok_iff,
    read_marker_ok_iff, BinaryReader.u16_exact.ok_iff, BinaryReader.u8_exact.ok_iff,
    hcounted.ok_iff, pure_ok_iff, and_true]
  constructor
  · rintro ⟨u, _, rfl, size, _, rfl, flags, _, rfl, bands, _, ⟨rfl, hcount, hbands⟩, rfl, rfl⟩
    refine ⟨flags, by simp [CapabilityReport.wireWith], rfl, rfl, rfl, hcount, fun band hband => ?_⟩
    exact (hbands band hband).1
  · rintro ⟨flags, rfl, hcompression, hencryption, hgps, hcount, hbands⟩
    refine ⟨(), _, ?_, report.maxPayload, _, rfl, flags, _, rfl, report.bands, [],
      ⟨rfl, hcount, fun band hband => ⟨hbands band hband, ?_⟩⟩, ?_, rfl⟩
    · simp [CapabilityReport.wireWith]
    · exact Nat.lt_of_le_of_lt (hbands band hband) (by decide)
    · rw [← hcompression, ← hencryption, ← hgps]

/-! ## What the encoders write -/

theorem except_require_count_ok_iff {count limit : Nat} {label : String} {u : Unit} :
    (requireCount count limit label : Except Error Unit) = .ok u ↔ count ≤ limit := by
  rw [requireCount, except_rejectIf_ok_iff, not_lt]

theorem require_u16_size_ok_iff {size : Nat} {label : String} {u : Unit} :
    (requireU16Size size label : Except Error Unit) = .ok u ↔ size ≤ 65535 := by
  rw [requireU16Size, except_rejectIf_ok_iff, not_lt]

/-- A loop of writes that each append appends all in order. -/
theorem buffer_foldl {α : Type} {write : BinaryWriter → α → BinaryWriter} {encode : α → Bytes}
    (hwrite : ∀ writer item, (write writer item).buffer = writer.buffer ++ encode item)
    (items : List α) (writer : BinaryWriter) :
    (items.foldl write writer).buffer = writer.buffer ++ items.flatMap encode := by
  induction items generalizing writer with
  | nil => simp
  | cons item items ih => rw [List.foldl_cons, ih, hwrite, List.flatMap_cons, List.append_assoc]

/-- An observation is encoded as its bytes, up to the largest count. -/
theorem encode_scalar_observation_ok_iff {observation : ScalarObservation} {payload : Bytes} :
    encodeScalarObservation observation = .ok payload ↔
      observation.readings.length ≤ maxScalarReadings ∧ payload = observation.wire := by
  have hwrite : ∀ writer reading, (writeScalarReading writer reading).buffer =
      writer.buffer ++ ScalarReading.wire reading := by
    intro writer reading
    simp [writeScalarReading, ScalarReading.wire]
  simp only [encodeScalarObservation, except_bind_ok_iff, require_u16_size_ok_iff,
    except_require_count_ok_iff, except_pure_ok_iff, buffer_foldl hwrite]
  constructor
  · rintro ⟨-, -, -, hcount, rfl⟩
    exact ⟨hcount, by simp [ScalarObservation.wire]⟩
  · rintro ⟨hcount, rfl⟩
    exact ⟨(), Nat.le_trans hcount (by decide), (), hcount, by simp [ScalarObservation.wire]⟩

/-- A spectrum is encoded as its bytes, up to the largest count. -/
theorem encode_spectrum_frame_ok_iff {frame : SpectrumFrame} {payload : Bytes} :
    encodeSpectrumFrame frame = .ok payload ↔
      frame.bins.length ≤ maxSpectrumBins ∧ payload = frame.wire := by
  have hwrite : ∀ writer bin, (writeSpectrumBin writer bin).buffer =
      writer.buffer ++ SpectrumBin.wire bin := by
    intro writer bin
    simp [writeSpectrumBin, SpectrumBin.wire]
  simp only [encodeSpectrumFrame, except_bind_ok_iff, require_u16_size_ok_iff,
    except_require_count_ok_iff, except_pure_ok_iff, buffer_foldl hwrite]
  constructor
  · rintro ⟨-, -, -, hcount, rfl⟩
    exact ⟨hcount, by simp [SpectrumFrame.wire]⟩
  · rintro ⟨hcount, rfl⟩
    exact ⟨(), Nat.le_trans hcount (by decide), (), hcount, by simp [SpectrumFrame.wire]⟩

/-- An envelope is encoded as its bytes, up to the largest body. -/
theorem encode_control_envelope_ok_iff {envelope : ControlEnvelope} {payload : Bytes} :
    encodeControlEnvelope envelope = .ok payload ↔
      envelope.body.length ≤ maxControlBody ∧ payload = envelope.wire := by
  simp only [encodeControlEnvelope, except_bind_ok_iff, except_require_count_ok_iff,
    except_pure_ok_iff]
  constructor
  · rintro ⟨-, hcount, rfl⟩
    exact ⟨hcount, by simp [ControlEnvelope.wire]⟩
  · rintro ⟨hcount, rfl⟩
    exact ⟨(), hcount, by simp [ControlEnvelope.wire]⟩

/-- A report is encoded as its bytes, up to the largest count and length. -/
theorem encode_capability_report_ok_iff {report : CapabilityReport} {payload : Bytes} :
    encodeCapabilityReport report = .ok payload ↔
      (report.bands.length ≤ maxCapabilityBands ∧ ∀ band ∈ report.bands, band.length < 2 ^ 16) ∧
        payload = report.wireWith report.flags := by
  have hwrite : ∀ writer band writer', BinaryWriter.string writer band = .ok writer' ↔
      band.length < 2 ^ 16 ∧ writer' = ⟨writer.buffer ++ (digits 2 band.length ++ band)⟩ := by
    intro writer band writer'
    rw [BinaryWriter.string_ok_iff, List.append_assoc]
  simp only [encodeCapabilityReport, except_bind_ok_iff, require_u16_size_ok_iff,
    except_require_count_ok_iff, BinaryWriter.foldlM_ok_iff hwrite, except_pure_ok_iff]
  constructor
  · rintro ⟨-, -, -, hcount, _, ⟨hbands, rfl⟩, rfl⟩
    exact ⟨⟨hcount, hbands⟩, by simp [CapabilityReport.wireWith]⟩
  · rintro ⟨⟨hcount, hbands⟩, rfl⟩
    refine ⟨(), Nat.le_trans hcount (by decide), (), hcount, _, ⟨hbands, rfl⟩, ?_⟩
    simp [CapabilityReport.wireWith]

/-! ## Round trips -/

/-- The flags that a report is written with are read back. -/
theorem CapabilityReport.flags_bits (report : CapabilityReport) :
    report.compression = (report.flags &&& 0x01 != 0) ∧
      report.encryption = (report.flags &&& 0x02 != 0) ∧
      report.gpsTime = (report.flags &&& 0x04 != 0) := by
  unfold flags
  cases report.compression <;> cases report.encryption <;> cases report.gpsTime <;> decide

/-- Whatever the encoders of scalar observations, spectrum frames and control envelopes return
decodes to the value encoded. What the encoder of capability reports returns does so exactly when
no band is longer than 128 bytes. -/
theorem payload_round_trip (payload : Bytes) :
    (∀ observation, encodeScalarObservation observation = .ok payload →
      decodeScalarObservation payload = .ok observation) ∧
    (∀ frame, encodeSpectrumFrame frame = .ok payload →
      decodeSpectrumFrame payload = .ok frame) ∧
    (∀ envelope, encodeControlEnvelope envelope = .ok payload →
      decodeControlEnvelope payload = .ok envelope) ∧
    ∀ report, encodeCapabilityReport report = .ok payload →
      (decodeCapabilityReport payload = .ok report ↔ ∀ band ∈ report.bands, band.length ≤ 128) := by
  refine ⟨fun observation h => ?_, fun frame h => ?_, fun envelope h => ?_, fun report h => ?_⟩
  · obtain ⟨hcount, rfl⟩ := encode_scalar_observation_ok_iff.mp h
    exact decode_scalar_observation_ok_iff.mpr ⟨rfl, hcount⟩
  · obtain ⟨hcount, rfl⟩ := encode_spectrum_frame_ok_iff.mp h
    exact decode_spectrum_frame_ok_iff.mpr ⟨rfl, hcount⟩
  · obtain ⟨hcount, rfl⟩ := encode_control_envelope_ok_iff.mp h
    exact decode_control_envelope_ok_iff.mpr ⟨rfl, hcount⟩
  · obtain ⟨⟨hcount, -⟩, rfl⟩ := encode_capability_report_ok_iff.mp h
    rw [decode_capability_report_ok_iff]
    constructor
    · rintro ⟨flags, -, -, -, -, -, hbands⟩
      exact hbands
    · intro hbands
      obtain ⟨hcompression, hencryption, hgps⟩ := report.flags_bits
      exact ⟨report.flags, rfl, hcompression, hencryption, hgps, hcount, hbands⟩

/-- A report of one band of 129 bytes is written and cannot be read. -/
theorem long_band_unreadable :
    ∃ report payload, encodeCapabilityReport report = .ok payload ∧
      decodeCapabilityReport payload =
        .error ⟨.malformedPacket, "string exceeds configured limit"⟩ := by
  have hlength : ∀ band ∈ [List.replicate 129 (0x41 : UInt8)], band.length < 2 ^ 16 := by
    rw [List.forall_mem_singleton, List.length_replicate]
    decide
  refine ⟨{ bands := [List.replicate 129 0x41] }, _,
    encode_capability_report_ok_iff.mpr ⟨⟨by decide, hlength⟩, rfl⟩, ?_⟩
  decide +kernel

/-! ## Canonical payloads -/

/-- A byte string is the encoding of the value that it decodes to, or it is rejected and no
encoding at all. -/
def Canonical {α : Type} (decode : Bytes → Except Error α) (encode : α → Except Error Bytes)
    (payload : Bytes) : Prop :=
  (∃ value, decode payload = .ok value ∧ encode value = .ok payload) ∨
    (∃ error, decode payload = .error error) ∧ ∀ value, encode value ≠ .ok payload

/-- A decoder that accepts what the encoder returns, and nothing else, is canonical. -/
theorem canonical_of_ok_iff {α : Type} {decode : Bytes → Except Error α}
    {encode : α → Except Error Bytes} {payload : Bytes}
    (h : ∀ value, decode payload = .ok value ↔ encode value = .ok payload) :
    Canonical decode encode payload := by
  cases hdecode : decode payload with
  | ok value => exact Or.inl ⟨value, hdecode, (h value).mp hdecode⟩
  | error error =>
      refine Or.inr ⟨⟨error, hdecode⟩, fun value hencode => ?_⟩
      rw [(h value).mpr hencode] at hdecode
      cases hdecode

/-- Scalar observations, spectrum frames and control envelopes are canonical for every byte
string. -/
theorem payloads_canonical (payload : Bytes) :
    Canonical decodeScalarObservation encodeScalarObservation payload ∧
      Canonical decodeSpectrumFrame encodeSpectrumFrame payload ∧
      Canonical decodeControlEnvelope encodeControlEnvelope payload := by
  refine ⟨canonical_of_ok_iff fun observation => ?_, canonical_of_ok_iff fun frame => ?_,
    canonical_of_ok_iff fun envelope => ?_⟩
  · rw [decode_scalar_observation_ok_iff, encode_scalar_observation_ok_iff, and_comm]
  · rw [decode_spectrum_frame_ok_iff, encode_spectrum_frame_ok_iff, and_comm]
  · rw [decode_control_envelope_ok_iff, encode_control_envelope_ok_iff, and_comm]

/-! ## Payloads of packets -/

/-- A value of one of the formats. -/
inductive Report where
  | scalar (observation : ScalarObservation)
  | spectrum (frame : SpectrumFrame)
  | control (envelope : ControlEnvelope)
  | capabilities (report : CapabilityReport)
  deriving DecidableEq

namespace Report

/-- The encoder of the format of a report. -/
def encode : Report → Except Error Bytes
  | scalar observation => encodeScalarObservation observation
  | spectrum frame => encodeSpectrumFrame frame
  | control envelope => encodeControlEnvelope envelope
  | capabilities report => encodeCapabilityReport report

/-- No band of a capability report is longer than the decoder reads. -/
def Readable : Report → Prop
  | capabilities report => ∀ band ∈ report.bands, band.length ≤ 128
  | _ => True

/-- What `decode_packet_payload` is to make of the value. -/
def decoded : Report → DecodedPayload
  | scalar observation => {
      format := .scalarObservation
      scalar := some observation
      warnings := scalarWarnings observation }
  | spectrum frame => {
      format := .spectrumFrame
      spectrum := some frame
      warnings := spectrumWarnings frame }
  | control envelope => {
      format := .controlEnvelope
      control := some envelope
      warnings := controlWarnings envelope }
  | capabilities report => {
      format := .capabilityReport
      capabilities := some report
      warnings := capabilityWarnings report }

/-- The payload is the byte string of the value, within the limits of the decoder. The undefined
flags of a capability report may be set. -/
def Written : Report → Bytes → Prop
  | scalar observation, payload =>
      payload = observation.wire ∧ observation.readings.length ≤ maxScalarReadings
  | spectrum frame, payload => payload = frame.wire ∧ frame.bins.length ≤ maxSpectrumBins
  | control envelope, payload => payload = envelope.wire ∧ envelope.body.length ≤ maxControlBody
  | capabilities report, payload =>
      ∃ flags, payload = report.wireWith flags ∧
        report.compression = (flags &&& 0x01 != 0) ∧ report.encryption = (flags &&& 0x02 != 0) ∧
        report.gpsTime = (flags &&& 0x04 != 0) ∧
        report.bands.length ≤ maxCapabilityBands ∧ ∀ band ∈ report.bands, band.length ≤ 128

/-- Encoders write readable values. -/
theorem written_of_encode {report : Report} {payload : Bytes} (h : report.encode = .ok payload)
    (hreadable : report.Readable) : report.Written payload := by
  cases report with
  | scalar observation => exact (encode_scalar_observation_ok_iff.mp h).symm
  | spectrum frame => exact (encode_spectrum_frame_ok_iff.mp h).symm
  | control envelope => exact (encode_control_envelope_ok_iff.mp h).symm
  | capabilities report =>
      obtain ⟨⟨hcount, -⟩, hpayload⟩ := encode_capability_report_ok_iff.mp h
      obtain ⟨hcompression, hencryption, hgps⟩ := report.flags_bits
      exact ⟨report.flags, hpayload, hcompression, hencryption, hgps, hcount, hreadable⟩

/-- The first byte of what is written is the marker. -/
theorem head_of_written {report : Report} {payload : Bytes} (h : report.Written payload) :
    payload.head? = some report.decoded.format.raw := by
  cases report with
  | scalar observation =>
      rw [h.1]
      rfl
  | spectrum frame =>
      rw [h.1]
      rfl
  | control envelope =>
      rw [h.1]
      rfl
  | capabilities report =>
      obtain ⟨flags, hpayload, -⟩ := h
      rw [hpayload]
      rfl

/-- The decoders together. -/
def decode : PayloadFormat → Bytes → Except Error Report
  | .scalarObservation, payload => (decodeScalarObservation payload).map scalar
  | .spectrumFrame, payload => (decodeSpectrumFrame payload).map spectrum
  | .controlEnvelope, payload => (decodeControlEnvelope payload).map control
  | .capabilityReport, payload => (decodeCapabilityReport payload).map capabilities
  | .unknown, _ => .error ⟨.malformedPacket, "unknown payload format"⟩

theorem map_ok_iff {α β : Type} {f : α → β} {result : Except Error α} {value : β} :
    result.map f = .ok value ↔ ∃ a, result = .ok a ∧ f a = value := by
  cases result with
  | ok a => simp [Except.map]
  | error failure => simp [Except.map]

/-- A payload decodes to a report exactly when it is the report as written. -/
theorem decode_ok_iff {format : PayloadFormat} {payload : Bytes} {report : Report} :
    decode format payload = .ok report ↔
      report.decoded.format = format ∧ report.Written payload := by
  cases format with
  | unknown =>
      refine iff_of_false (by simp [decode]) fun h => ?_
      cases report <;> exact absurd h.1 (by simp [decoded])
  | scalarObservation =>
      rw [decode, map_ok_iff]
      cases report <;> simp [decoded, Written, decode_scalar_observation_ok_iff]
  | spectrumFrame =>
      rw [decode, map_ok_iff]
      cases report <;> simp [decoded, Written, decode_spectrum_frame_ok_iff]
  | controlEnvelope =>
      rw [decode, map_ok_iff]
      cases report <;> simp [decoded, Written, decode_control_envelope_ok_iff]
  | capabilityReport =>
      rw [decode, map_ok_iff]
      cases report <;> simp [decoded, Written, decode_capability_report_ok_iff]

end Report

open Report

/-- A payload is decoded by the decoder of the inferred format. -/
theorem decode_packet_payload_eq {packet : Protocol.Packet} (hne : packet.payload ≠ []) :
    decodePacketPayload packet =
      match Report.decode (inferPayloadFormat packet) packet.payload with
      | .ok report => report.decoded
      | .error failure =>
          { format := inferPayloadFormat packet, warnings := [failure.message] } := by
  unfold decodePacketPayload
  dsimp only
  rw [if_neg hne]
  cases inferPayloadFormat packet with
  | unknown => rfl
  | scalarObservation =>
      dsimp only [Report.decode]
      cases decodeScalarObservation packet.payload <;> rfl
  | spectrumFrame =>
      dsimp only [Report.decode]
      cases decodeSpectrumFrame packet.payload <;> rfl
  | controlEnvelope =>
      dsimp only [Report.decode]
      cases decodeControlEnvelope packet.payload <;> rfl
  | capabilityReport =>
      dsimp only [Report.decode]
      cases decodeCapabilityReport packet.payload <;> rfl

/-- The marker of what is written goes before the kind of the packet. -/
theorem infer_of_written {packet : Protocol.Packet} {report : Report}
    (h : report.Written packet.payload) : inferPayloadFormat packet = report.decoded.format := by
  rw [inferPayloadFormat, head_of_written h]
  cases report <;> rfl

/-- The payload of a packet decodes to the report that was written. -/
theorem decode_packet_payload_of_written {packet : Protocol.Packet} {report : Report}
    (h : report.Written packet.payload) : decodePacketPayload packet = report.decoded := by
  have hne : packet.payload ≠ [] := by
    intro hnone
    have hhead := head_of_written h
    rw [hnone] at hhead
    cases hhead
  rw [decode_packet_payload_eq hne, Report.decode_ok_iff.mpr ⟨(infer_of_written h).symm, h⟩]

/-- A decoded payload has the value that is written in the packet, or else no value and one
warning. -/
theorem decode_packet_payload_cases (packet : Protocol.Packet) :
    (∃ report : Report, report.Written packet.payload ∧
      decodePacketPayload packet = report.decoded) ∨
    (∀ report : Report, ¬report.Written packet.payload) ∧ ∃ warning,
      decodePacketPayload packet =
        { format := inferPayloadFormat packet, warnings := [warning] } := by
  by_cases hwritten : ∃ report : Report, report.Written packet.payload
  · obtain ⟨report, hreport⟩ := hwritten
    exact .inl ⟨report, hreport, decode_packet_payload_of_written hreport⟩
  · refine .inr ⟨fun report hreport => hwritten ⟨report, hreport⟩, ?_⟩
    by_cases hne : packet.payload = []
    · exact ⟨"packet payload is empty", if_pos hne⟩
    · rw [decode_packet_payload_eq hne]
      cases hdecode : Report.decode (inferPayloadFormat packet) packet.payload with
      | ok report => exact absurd ⟨report, (Report.decode_ok_iff.mp hdecode).2⟩ hwritten
      | error failure => exact ⟨failure.message, rfl⟩

theorem Report.decoded_injective {report other : Report} (h : report.decoded = other.decoded) :
    report = other := by
  cases report <;> cases other <;> simp_all [Report.decoded]

/-- A packet is decoded to a value exactly when its payload is that value written, whatever else
the packet says. -/
theorem decode_packet_payload_eq_iff {packet : Protocol.Packet} {report : Report} :
    decodePacketPayload packet = report.decoded ↔ report.Written packet.payload := by
  refine ⟨fun h => ?_, decode_packet_payload_of_written⟩
  rcases decode_packet_payload_cases packet with ⟨other, hwritten, hother⟩ | ⟨-, warning, hnone⟩
  · rw [Report.decoded_injective (h.symm.trans hother)]
    exact hwritten
  · rw [hnone] at h
    cases report <;> simp [Report.decoded] at h

end Aethon.Telemetry
