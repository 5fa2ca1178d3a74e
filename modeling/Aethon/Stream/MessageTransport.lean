import Aethon.Protocol.ReassemblyRuns
import Aethon.Stream.FrameTransport
import Aethon.Telemetry.PayloadRoundTrip

/-!
# Messages over a noisy line

A stream parser whose packet handler is a fragment reassembler, as `fuzz/stream_fuzzer.cpp` puts the
two together. `messages_arrive` is the end-to-end guarantee: whatever the noise between the frames,
the chunks, the order of the fragments and their interleaving, the receiver gets each message once.
With telemetry payloads in the messages, it gets the values that were encoded (`reports_arrive`).
-/

namespace Aethon.Stream

open Codec Protocol Protocol.Message Telemetry

/-- The state behind the packet handler: the reassembler and the packets it has returned. -/
structure Receiver where
  reassembler : FragmentReassembler
  received : List Packet := []

/-- The packet handler: `if (auto assembled = reassembler.push(std::move(packet)))`. What the push
throws goes to the error handler. -/
def Receiver.receive (receiver : Receiver) (packet : Packet) : Receiver × Option Error :=
  match receiver.reassembler.push packet with
  | (.error failure, reassembler) => ({ receiver with reassembler }, some failure)
  | (.ok none, reassembler) => ({ receiver with reassembler }, none)
  | (.ok (some assembled), reassembler) =>
      ({ reassembler, received := receiver.received ++ [assembled] }, none)

/-- A receiver for messages with payloads up to a limit. -/
def Receiver.fresh (limit : Nat) : Receiver where
  reassembler := { maxPayloadBytes := limit }

/-- A packet whose push throws nothing. -/
theorem Receiver.receive_eq (receiver : Receiver) {packet : Packet} {result : Option Packet}
    (h : (receiver.reassembler.push packet).1 = .ok result) :
    receiver.receive packet =
      (⟨(receiver.reassembler.push packet).2, receiver.received ++ result.toList⟩, none) := by
  unfold Receiver.receive
  generalize receiver.reassembler.push packet = outcome at h ⊢
  obtain ⟨answer, reassembler⟩ := outcome
  subst h
  cases result with
  | none => rw [Option.toList_none, List.append_nil]
  | some assembled => rfl

/-- What the handler does with packets on which the reassembler throws nothing. -/
theorem receive_all {handlers : Handlers Receiver}
    (hhandler : handlers.packetHandler = some Receiver.receive) {packets : List Packet}
    (h : ∀ entry ∈ handlers.world.reassembler.trace packets, ∃ result, entry.2 = .ok result) :
    packets.foldl Handlers.callPacket handlers = { handlers with
      world := ⟨handlers.world.reassembler.after packets,
        handlers.world.received ++ received (handlers.world.reassembler.trace packets)⟩
      calls := handlers.calls ++ packets.map .packet } := by
  induction packets generalizing handlers with
  | nil =>
      rw [List.map_nil, FragmentReassembler.trace, received, List.filterMap_nil, List.append_nil,
        List.append_nil]
      rfl
  | cons packet packets ih =>
      rw [FragmentReassembler.trace] at h
      obtain ⟨⟨result, hresult⟩, hrest⟩ := List.forall_mem_cons.mp h
      have hreceive := handlers.world.receive_eq hresult
      have hstep : handlers.callPacket packet = { handlers with
          world := ⟨(handlers.world.reassembler.push packet).2,
            handlers.world.received ++ result.toList⟩
          calls := handlers.calls ++ [.packet packet] } := by
        simp only [Handlers.callPacket, hhandler, hreceive]
      have hreceived : received (handlers.world.reassembler.trace (packet :: packets)) =
          result.toList ++
            received ((handlers.world.reassembler.push packet).2.trace packets) := by
        rw [FragmentReassembler.trace, received, List.filterMap_cons]
        simp only at hresult
        rw [hresult]
        cases result <;> rfl
      rw [List.foldl_cons, hstep]
      refine Eq.trans (ih ?_ ?_) ?_
      · exact hhandler
      · exact hrest
      rw [hreceived, List.map_cons]
      simp only [List.append_assoc, List.singleton_append, FragmentReassembler.after, Runs.run_cons]

/-- Frames that decode, behind quiet noise. -/
def Carries (options : DecodeOptions) (t : Transmission) (packet : Packet) : Prop :=
  NoMagic t.noise ∧ decodePacket t.frame options = .ok packet

/-- Decoded frames are packet calls. -/
theorem fold_carried {σ : Type} {options : DecodeOptions} {ts : List Transmission}
    {packets : List Packet} (h : List.Forall₂ (Carries options) ts packets)
    (handlers : Handlers σ) :
    (ts.map fun t => decodePacket t.frame options).foldl Handlers.callDecoded handlers =
      packets.foldl Handlers.callPacket handlers := by
  induction h generalizing handlers with
  | nil => rfl
  | cons hcarries _ ih =>
      rw [List.map_cons, List.foldl_cons, hcarries.2, ih]
      rfl

/-- Frames that carry packets are framed. -/
theorem framed_of_carries {options : DecodeOptions} {ts : List Transmission}
    {packets : List Packet} (h : List.Forall₂ (Carries options) ts packets) :
    ∀ t ∈ ts, t.Framed options := by
  induction h with
  | nil => exact List.forall_mem_nil _
  | cons hcarries _ ih =>
      exact List.forall_mem_cons.mpr ⟨framed_of_decode hcarries.1 hcarries.2, ih⟩

section Traffic

variable (options : DecodeOptions) (limit : Nat)
  (errorHandler : Option (Receiver → Error → Receiver)) {ms : List Message}
  (hkeys : (ms.map Message.key).Nodup) (hlimit : ∀ m ∈ ms, payloadTotal m.parts ≤ limit)
  {ts : List Transmission} {packets : List Packet}
  (hcarries : List.Forall₂ (Carries options) ts packets)
  (hknown : ∀ packet ∈ packets, Message.Known ms packet)
  (harrive : ∀ m ∈ ms, m.ArrivesIn packets)

include hkeys hlimit hcarries hknown harrive

/-- The state of the parser and of the receiver behind it after all chunks. -/
theorem parser_after_traffic {chunks : List Bytes} (hchunks : chunks.flatten = wire ts) :
    ∃ reassembler received, chunks.foldl push
        (listening options Receiver.receive errorHandler (Receiver.fresh limit)) =
      { listening options Receiver.receive errorHandler (Receiver.fresh limit) with
        buffer := []
        handlers := {
          (listening options Receiver.receive errorHandler (Receiver.fresh limit)).handlers with
          world := ⟨reassembler, received⟩
          calls := packets.map .packet } } ∧
      reassembler.pending = ∅ ∧
      received.Perm (ms.map (fun m => m.delivered packets) ++
        packets.filter fun packet => packet.fragment = none) := by
  have hpush := push_wire (listening options Receiver.receive errorHandler (Receiver.fresh limit))
    rfl (framed_of_carries hcarries) (no_magic_of_short (by decide : ([] : Bytes).length < 4))
  have hfold := fold_carried hcarries
    (listening options Receiver.receive errorHandler (Receiver.fresh limit)).handlers
  rw [List.append_nil, ← hchunks] at hpush
  have hfree : ∀ m ∈ ms, (Receiver.fresh limit).reassembler.pending[m.key]? = none :=
    fun _ _ => Std.ExtTreeMap.getElem?_empty
  obtain ⟨hclean, hreceived⟩ := (Receiver.fresh limit).reassembler.traffic_received hkeys hlimit
    hfree hknown harrive
  have hafter := (Receiver.fresh limit).reassembler.after_traffic hkeys hlimit hfree hknown harrive
  rw [receive_all rfl hclean] at hfold
  rw [foldl_push_of_empty _ rfl chunks, hpush]
  refine ⟨_, _, ?_, hafter, hreceived⟩
  exact hfold ▸ rfl

/-- **Messages over a noisy line.** Fragments of messages of pairwise different streams and
unfragmented packets are sent in valid frames, in any order and with repetitions, with quiet noise
between the frames. If of each message all fragments arrive and none again after the last missing
one, and its payload is within the limit, then however the bytes are cut into chunks the receiver
has in the end got each message once, each unfragmented packet, and nothing else; no error was
reported, no stream is pending and the buffer is empty. -/
theorem messages_arrive {chunks : List Bytes} (hchunks : chunks.flatten = wire ts) :
    let parser := chunks.foldl push
      (listening options Receiver.receive errorHandler (Receiver.fresh limit))
    parser.buffer = [] ∧ parser.handlers.calls = packets.map .packet ∧
      parser.handlers.world.reassembler.pending = ∅ ∧
      parser.handlers.world.received.Perm (ms.map (fun m => m.delivered packets) ++
        packets.filter fun packet => packet.fragment = none) := by
  obtain ⟨reassembler, received, hparser, hpending, hreceived⟩ :=
    parser_after_traffic options limit errorHandler hkeys hlimit hcarries hknown harrive hchunks
  intro parser
  have hafter : parser = _ := hparser
  rw [hafter]
  exact ⟨rfl, rfl, hpending, hreceived⟩

/-- **Reports over a noisy line.** If beyond that the payload of each message is an encoded report
that the decoder can read, then decoding what was received gives each of these reports once, with
its warnings, beside what the unfragmented packets decode to. Whatever its kind, a packet received
decodes to the report that is written in its payload, and to no value and one warning if none is. -/
theorem reports_arrive {chunks : List Bytes} (hchunks : chunks.flatten = wire ts)
    (report : Message → Report)
    (hencode : ∀ m ∈ ms, (report m).encode = .ok (m.parts.map Packet.payload).flatten)
    (hreadable : ∀ m ∈ ms, (report m).Readable) :
    let parser := chunks.foldl push
      (listening options Receiver.receive errorHandler (Receiver.fresh limit))
    (parser.handlers.world.received.map decodePacketPayload).Perm
      (ms.map (fun m => (report m).decoded) ++
        (packets.filter fun packet => packet.fragment = none).map decodePacketPayload) ∧
    ∀ packet ∈ parser.handlers.world.received,
      (∃ other : Report, other.Written packet.payload ∧
        decodePacketPayload packet = other.decoded) ∨
      (∀ other : Report, ¬other.Written packet.payload) ∧ ∃ warning, decodePacketPayload packet =
        { format := inferPayloadFormat packet, warnings := [warning] } := by
  obtain ⟨reassembler, received, hparser, -, hreceived⟩ :=
    parser_after_traffic options limit errorHandler hkeys hlimit hcarries hknown harrive hchunks
  have hdecoded : ms.map (decodePacketPayload ∘ fun m => m.delivered packets) =
      ms.map fun m => (report m).decoded :=
    List.map_congr_left fun m hm => decode_packet_payload_of_written
      (Report.written_of_encode (hencode m hm) (hreadable m hm))
  have hmap := hreceived.map decodePacketPayload
  rw [List.map_append, List.map_map, hdecoded] at hmap
  rw [hparser]
  exact ⟨hmap, fun packet _ => decode_packet_payload_cases packet⟩

end Traffic

/-- The frame of a packet within the limits of the wire format. -/
def frameOf (packet : Packet) : Bytes :=
  frameWire (packet.bodyWire (packet.sectionsWire ++ [0]))

/-- The frame of a fragment that has nothing but its payload. -/
theorem decode_fragment_frame {info : FragmentInfo} {payload : Bytes} (hinfo : info.Valid)
    (hsmall : (frameOf { fragment := some info, payload := payload }).length < 2 ^ 10) :
    decodePacket (frameOf { fragment := some info, payload := payload }) =
      .ok { fragment := some info, payload := payload } := by
  have hfragment : ∀ f ∈ some info, f.Valid := fun f hf => Option.some.inj hf ▸ hinfo
  have hlimits : WireLimits { fragment := some info, payload := payload } :=
    ⟨⟨(by decide : (1 : UInt8) ≤ 3 ∧ (3 : UInt8) ≤ 3),
      (by decide : (1 : UInt8) ≤ 2 ∧ (2 : UInt8) ≤ 5)⟩,
      ⟨hfragment, by simp, by simp, by simp, by simp⟩⟩
  exact decode_encode_packet hlimits (encode_packet_of_limits hlimits)
    (hsmall.le.trans (by decide)) (hsmall.trans (by decide))

/-- The two fragments of the sample message arrive in reverse order around a heartbeat, the first
to arrive twice. -/
theorem pair_arrives :
    let parser := [wire [⟨[], frameOf secondOfTwo⟩, ⟨[1], heartbeatFrame⟩,
        ⟨[], frameOf secondOfTwo⟩, ⟨[2, 3], frameOf firstOfTwo⟩]].foldl push
      (listening {} Receiver.receive none (Receiver.fresh 64))
    parser.buffer = [] ∧
      parser.handlers.calls =
        [secondOfTwo, heartbeat, secondOfTwo, firstOfTwo].map Callback.packet ∧
      parser.handlers.world.reassembler.pending = ∅ ∧
      parser.handlers.world.received.Perm
        ([pair].map (fun m => m.delivered [secondOfTwo, heartbeat, secondOfTwo, firstOfTwo]) ++
          [secondOfTwo, heartbeat, secondOfTwo, firstOfTwo].filter fun packet =>
            packet.fragment = none) := by
  refine @messages_arrive {} 64 none [pair] (List.nodup_singleton _) ?_ _ _ ?_ ?_ ?_ _
    (List.append_nil _)
  · exact List.forall_mem_singleton.mpr (by decide)
  · have hfirst : decodePacket (frameOf firstOfTwo) = .ok firstOfTwo :=
      decode_fragment_frame ⟨by decide, by decide⟩ (by decide)
    have hsecond : decodePacket (frameOf secondOfTwo) = .ok secondOfTwo :=
      decode_fragment_frame ⟨by decide, by decide⟩ (by decide)
    have hquiet : ∀ noise : Bytes, noise.length < 4 → NoMagic noise := fun _ => no_magic_of_short
    exact .cons ⟨hquiet _ (by decide), hsecond⟩
      (.cons ⟨hquiet _ (by decide), decode_heartbeat_frame⟩
        (.cons ⟨hquiet _ (by decide), hsecond⟩ (.cons ⟨hquiet _ (by decide), hfirst⟩ .nil)))
  · intro packet hpacket
    have hcases : packet = heartbeat ∨ packet ∈ pair.parts := by
      revert packet
      decide
    rcases hcases with rfl | hpart
    · exact .inl rfl
    · exact .inr ⟨pair, List.mem_singleton_self pair, hpart⟩
  · exact List.forall_mem_singleton.mpr ⟨by decide, [secondOfTwo, secondOfTwo], firstOfTwo,
      by decide, by decide⟩

/-- A command, sent in two fragments of observations; the marker tells what it is. -/
def command : ControlEnvelope := { command := 1, correlationId := 9, body := [42] }

/-- The first half of a command that travels in two fragments. -/
def commandFront : Packet where
  fragment := some ⟨8, 0, 2⟩
  payload := [3, 1, 0, 0, 0]

/-- The second half of the command. -/
def commandBack : Packet where
  fragment := some ⟨8, 1, 2⟩
  payload := [9, 0, 0, 0, 1, 0, 0, 0, 42]

/-- The command of the two fragments. -/
def commandMessage : Message where
  device := 0
  streamId := 8
  count := 2
  parts := [commandFront, commandBack]
  length_parts := rfl
  part_device := by decide
  part_fragment := by
    intro i part hi
    match i with
    | 0 | 1 =>
        cases hi
        rfl

/-- The command is decoded from its fragments, the second of which arrives first. -/
theorem command_arrives :
    let parser := [wire [⟨[], frameOf commandBack⟩, ⟨[1], frameOf commandFront⟩]].foldl push
      (listening {} Receiver.receive none (Receiver.fresh 64))
    (parser.handlers.world.received.map decodePacketPayload).Perm
      [(Report.control command).decoded] := by
  refine (@reports_arrive {} 64 none [commandMessage] (List.nodup_singleton _) ?_ _
    [commandBack, commandFront] ?_ ?_ ?_ _ (List.append_nil _) (fun _ => .control command)
    ?_ ?_).1
  · exact List.forall_mem_singleton.mpr (by decide)
  · have hback : decodePacket (frameOf commandBack) = .ok commandBack :=
      decode_fragment_frame ⟨by decide, by decide⟩ (by decide)
    have hfront : decodePacket (frameOf commandFront) = .ok commandFront :=
      decode_fragment_frame ⟨by decide, by decide⟩ (by decide)
    exact .cons ⟨no_magic_of_short (by decide), hback⟩
      (.cons ⟨no_magic_of_short (by decide), hfront⟩ .nil)
  · intro packet hpacket
    have hpart : packet ∈ commandMessage.parts := by
      revert packet
      decide
    exact .inr ⟨commandMessage, List.mem_singleton_self _, hpart⟩
  · exact List.forall_mem_singleton.mpr ⟨by decide, [commandBack], commandFront, by decide,
      by decide⟩
  · exact List.forall_mem_singleton.mpr rfl
  · exact List.forall_mem_singleton.mpr trivial

end Aethon.Stream
