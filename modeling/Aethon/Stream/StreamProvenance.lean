import Aethon.Foundation.Runs
import Aethon.Stream.StreamResync

/-!
# Bounded buffer and provenance of packets

What `StreamParser::push` leaves in the buffer and where the packets that it delivers come from.
`Sliced` cuts the bytes that have left the buffer into frames and what lies between them, one frame
for each packet delivered. Each step of the consumer extends the cut by what it takes off the
buffer, so every run of pushes has one (`stream_provenance`).
-/

namespace Aethon.Stream

open Codec Protocol
open Incremental

/-! ## The buffer after a push -/

/-- A buffer that is too short for the magic word, or starts with it and is too short for the frame
length or for a frame within the packet limit. -/
def Waiting (options : DecodeOptions) (buffer : Bytes) : Prop :=
  buffer.length < 4 ∨
    frontWord buffer = some packetMagic ∧
      (buffer.length < 8 ∨
        ∃ frameLen, claimedLength buffer = some frameLen ∧ buffer.length < frameLen ∧
          frameLen ≤ options.maxPacketSize)

/-- A buffer without a frame in it waits. -/
theorem waiting_of_frame_step {options : DecodeOptions} {buffer : Bytes}
    (h : frameStep options buffer = none) : Waiting options buffer := by
  by_cases hshort : buffer.length < 4
  · exact .inl hshort
  obtain ⟨word, hword⟩ :=
    Option.ne_none_iff_exists'.mp (front_word_ne_none (Nat.le_of_not_lt hshort))
  have hmagic : word = packetMagic := by
    by_contra hne
    rw [frameStep, hword] at h
    simp only [ne_eq, hne, not_false_eq_true, if_true] at h
    exact absurd h (Option.some_ne_none _)
  subst hmagic
  refine .inr ⟨hword, ?_⟩
  by_cases hheader : buffer.length < 8
  · exact .inl hheader
  have hfour : 4 ≤ (buffer.drop 4).length := by
    rw [List.length_drop]
    omega
  obtain ⟨bodyLen, hbody⟩ := Option.ne_none_iff_exists'.mp (front_word_ne_none hfour)
  have hclaimed : claimedLength buffer = some (bodyLen.toNat + 12) := by
    rw [claimedLength, hbody]
    rfl
  rw [frame_step_of_claimed options hword hclaimed] at h
  split_ifs at h
  case pos hlimit hwaits => exact .inr ⟨_, hclaimed, hwaits, Nat.le_of_not_lt hlimit⟩

/-- A buffer that waits is short. -/
theorem Waiting.length_le {options : DecodeOptions} {buffer : Bytes}
    (h : Waiting options buffer) : buffer.length ≤ max 7 (options.maxPacketSize - 1) := by
  obtain hshort | ⟨-, hshort | ⟨frameLen, -, hwaits, hlimit⟩⟩ := h
  · omega
  · omega
  · omega

variable {σ : Type}

/-- Every push leaves a buffer that waits, whatever the buffer was. -/
theorem push_waiting (parser : StreamParser σ) (data : Bytes) :
    Waiting parser.options (push parser data).buffer := by
  rw [push_eq_run]
  exact waiting_of_frame_step ((frameConsumer parser.options).run_waits _)

/-! ## Slices -/

/-- The packets that the packet handler was called with. -/
def delivered (calls : List Callback) : List Packet :=
  calls.filterMap fun
    | .packet packet => some packet
    | .error _ => none

/-- The bytes are frames with gaps between them, and the packets are the frames decoded, in
order. -/
def Sliced (options : DecodeOptions) (bytes : Bytes) (packets : List Packet) : Prop :=
  ∃ (pieces : List (Bytes × Bytes)) (gap : Bytes),
    bytes = (pieces.flatMap fun piece => piece.1 ++ piece.2) ++ gap ∧
      pieces.map (fun piece => decodePacket piece.2 options) = packets.map .ok

theorem Sliced.skip {options : DecodeOptions} {bytes : Bytes} {packets : List Packet}
    (h : Sliced options bytes packets) (more : Bytes) : Sliced options (bytes ++ more) packets := by
  obtain ⟨pieces, gap, rfl, hdecode⟩ := h
  exact ⟨pieces, gap ++ more, List.append_assoc _ _ _, hdecode⟩

/-- A frame that decodes gives a packet cut from it. -/
theorem Sliced.frame {options : DecodeOptions} {bytes frame : Bytes} {packets : List Packet}
    {packet : Packet} (h : Sliced options bytes packets)
    (hframe : decodePacket frame options = .ok packet) :
    Sliced options (bytes ++ frame) (packets ++ [packet]) := by
  obtain ⟨pieces, gap, rfl, hdecode⟩ := h
  refine ⟨pieces ++ [(gap, frame)], [], ?_, ?_⟩
  · rw [List.flatMap_append, List.flatMap_singleton, List.append_nil, List.append_assoc]
  · rw [List.map_append, List.map_append, hdecode, List.map_singleton, hframe]
    rfl

theorem delivered_append (first second : List Callback) :
    delivered (first ++ second) = delivered first ++ delivered second :=
  List.filterMap_append

/-- The handling of an error delivers no packet. -/
theorem delivered_call_error (handlers : Handlers σ) (failure : Error) :
    delivered (handlers.callError failure).calls = delivered handlers.calls := by
  unfold Handlers.callError
  cases handlers.errorHandler with
  | none => rfl
  | some handler =>
      show delivered (handlers.calls ++ [.error failure]) = _
      rw [delivered_append]
      exact List.append_nil _

/-- A decoded packet reaches the packet handler, when there is one. -/
theorem delivered_call_packet (handlers : Handlers σ) (packet : Packet) :
    delivered (handlers.callPacket packet).calls = delivered handlers.calls ∨
      delivered (handlers.callPacket packet).calls = delivered handlers.calls ++ [packet] := by
  unfold Handlers.callPacket
  cases handlers.packetHandler with
  | none => exact .inl rfl
  | some handler =>
      right
      dsimp only
      cases (handler handlers.world packet).2 with
      | none => exact delivered_append _ _
      | some failure =>
          dsimp only
          rw [delivered_call_error]
          exact delivered_append _ _

/-- A step of the consumer takes some bytes off the buffer, and they extend the slices. -/
theorem sliced_step {options : DecodeOptions} {buffer bytes : Bytes} {n : Nat} {out : Delivery}
    {handlers : Handlers σ} (hstep : frameStep options buffer = some (n, out))
    (h : Sliced options bytes (delivered handlers.calls)) :
    Sliced options (bytes ++ buffer.take n) (delivered (handlers.deliver out).calls) := by
  obtain ⟨-, -, rfl | ⟨-, rfl⟩⟩ | ⟨-, -, rfl⟩ := frame_step_cases hstep
  · exact h.skip _
  · show Sliced options _ (delivered (handlers.callError oversizeError).calls)
    rw [delivered_call_error]
    exact h.skip _
  · cases hdecode : decodePacket (buffer.take n) options with
    | error failure =>
        show Sliced options _ (delivered (handlers.callError failure).calls)
        rw [delivered_call_error]
        exact h.skip _
    | ok packet =>
        show Sliced options _ (delivered (handlers.callPacket packet).calls)
        obtain hnone | hone := delivered_call_packet handlers packet
        · rw [hnone]
          exact h.skip _
        · rw [hone]
          exact h.frame hdecode

/-- The steps of a run take a front of the buffer, and it extends the slices. -/
theorem sliced_reaches {options : DecodeOptions} {buffer rest : Bytes} {outs : List Delivery}
    (hreaches : (frameConsumer options).Reaches buffer outs rest) {bytes : Bytes}
    {handlers : Handlers σ} (h : Sliced options bytes (delivered handlers.calls)) :
    ∃ front, buffer = front ++ rest ∧
      Sliced options (bytes ++ front)
        (delivered (outs.foldl Handlers.deliver handlers).calls) := by
  induction hreaches generalizing bytes handlers with
  | refl buffer => exact ⟨[], rfl, h.skip []⟩
  | @step buffer rest n out outs hnext hreaches ih =>
      obtain ⟨front, hfront, hsliced⟩ := ih (sliced_step hnext h)
      refine ⟨buffer.take n ++ front, ?_, ?_⟩
      · rw [List.append_assoc, ← hfront, List.take_append_drop]
      · rw [← List.append_assoc]
        exact hsliced

/-! ## Whole runs -/

/-- The calls of a parser. -/
inductive StreamCall (σ : Type) where
  | push (data : Bytes)
  | clear
  | onPacket (handler : Option (σ → Packet → σ × Option Error))
  | onError (handler : Option (σ → Error → σ))

/-- A parser and all the bytes that were pushed into it. -/
structure StreamHistory (σ : Type) where
  parser : StreamParser σ
  stream : Bytes := []

namespace StreamHistory

/-- A call, with the bytes that it adds to the stream. -/
def step (history : StreamHistory σ) : StreamCall σ → StreamHistory σ
  | .push data => ⟨Stream.push history.parser data, history.stream ++ data⟩
  | .clear => { history with parser := Stream.clear history.parser }
  | .onPacket handler => { history with parser := Stream.onPacket history.parser handler }
  | .onError handler => { history with parser := Stream.onError history.parser handler }

/-- A new parser after the calls. -/
def after (options : DecodeOptions) (world : σ) (calls : List (StreamCall σ)) : StreamHistory σ :=
  Runs.run step ⟨{ options, handlers := { world } }, []⟩ calls

/-- The parser has the options, and what has left its buffer is cut into the frames of the packets
delivered. -/
structure Traced (options : DecodeOptions) (history : StreamHistory σ) : Prop where
  configured : history.parser.options = options
  sliced : ∃ front, history.stream = front ++ history.parser.buffer ∧
    Sliced options front (delivered history.parser.handlers.calls)

/-- A call keeps every packet traced to its bytes. -/
theorem traced_step {options : DecodeOptions} (history : StreamHistory σ) (call : StreamCall σ)
    (h : history.Traced options) : (history.step call).Traced options := by
  obtain ⟨hoptions, front, hstream, hsliced⟩ := h
  cases call with
  | push data =>
      show Traced options ⟨Stream.push history.parser data, history.stream ++ data⟩
      rw [push_eq_run, hoptions]
      have hreaches := (frameConsumer options).run_reaches (history.parser.buffer ++ data)
      obtain ⟨taken, htaken, htraced⟩ := sliced_reaches hreaches hsliced
      refine ⟨rfl, front ++ taken, ?_, htraced⟩
      calc history.stream ++ data
        _ = front ++ (history.parser.buffer ++ data) := by rw [hstream, List.append_assoc]
        _ = front ++ (taken ++ _) := congrArg (front ++ ·) htaken
        _ = front ++ taken ++ _ := (List.append_assoc _ _ _).symm
  | clear =>
      refine ⟨hoptions, front ++ history.parser.buffer, ?_, hsliced.skip _⟩
      show history.stream = _ ++ []
      rw [List.append_nil, hstream]
  | onPacket handler => exact ⟨hoptions, front, hstream, hsliced⟩
  | onError handler => exact ⟨hoptions, front, hstream, hsliced⟩

theorem traced_after (options : DecodeOptions) (world : σ) (calls : List (StreamCall σ)) :
    (after options world calls).Traced options := by
  have hstart : Traced options (⟨{ options, handlers := { world } }, []⟩ : StreamHistory σ) :=
    ⟨rfl, [], rfl, [], [], rfl, rfl⟩
  exact Runs.run_invariant traced_step hstart calls

end StreamHistory

/-- In every run, each push leaves a buffer that waits and is no longer than seven bytes or one
less than the packet limit, and the pushed bytes are frames with gaps between them, whose decoding
gives the packets delivered, in order. -/
theorem stream_provenance (options : DecodeOptions) (world : σ) (calls : List (StreamCall σ)) :
    let history := StreamHistory.after options world calls
    (∀ data, Waiting options (push history.parser data).buffer ∧
      (push history.parser data).buffer.length ≤ max 7 (options.maxPacketSize - 1)) ∧
    ∃ (pieces : List (Bytes × Bytes)) (gap : Bytes),
      history.stream = (pieces.flatMap fun piece => piece.1 ++ piece.2) ++ gap ++
        history.parser.buffer ∧
      pieces.map (fun piece => decodePacket piece.2 options) =
        (delivered history.parser.handlers.calls).map .ok := by
  intro history
  obtain ⟨hoptions, front, hstream, pieces, gap, hfront, hdecode⟩ :=
    StreamHistory.traced_after options world calls
  refine ⟨fun data => ?_, pieces, gap, ?_, hdecode⟩
  · have hwaiting := push_waiting history.parser data
    rw [hoptions] at hwaiting
    exact ⟨hwaiting, hwaiting.length_le⟩
  · rw [← hfront]
    exact hstream

end Aethon.Stream
