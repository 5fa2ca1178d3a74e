import Mathlib.Data.List.Forall2
import Aethon.Codec.Crc
import Aethon.Protocol.CorruptionDetection
import Aethon.Stream.StreamResync

/-!
# Frames over a noisy line

What the handlers see of frames that are put on a line with noise between them. As long as the
noise does not hold the magic word and the first eight bytes of each frame arrive intact, every
frame is decoded exactly once and in order, whatever happened to the rest of it
(`frames_delivered`). Damage to four consecutive bytes behind the header therefore costs the
packet of its own frame and no other one (`bursts_cost_their_frames`).
-/

namespace Aethon.Stream

open Codec Protocol Incremental LittleEndian

/-- A frame as it arrives, with the noise in front of it. -/
structure Transmission where
  noise : Bytes
  frame : Bytes
  deriving DecidableEq, Repr

/-- The noise and the frame behind it. -/
def Transmission.bytes (t : Transmission) : Bytes :=
  t.noise ++ t.frame

/-- The bytes of all transmissions. -/
def wire (ts : List Transmission) : Bytes :=
  ts.flatMap Transmission.bytes

/-- The magic word does not occur in the noise, and the header of the frame claims its length. -/
structure Transmission.Framed (options : DecodeOptions) (t : Transmission) : Prop where
  quiet : NoMagic t.noise
  header : HeaderAt options t.frame t.frame.length

variable {options : DecodeOptions}

/-! ## Noise -/

/-- A header that is there stays where more bytes follow. -/
theorem HeaderAt.append {input : Bytes} {frameLen : Nat} (h : HeaderAt options input frameLen)
    (more : Bytes) : HeaderAt options (input ++ more) frameLen :=
  ⟨front_word_append h.1 more, claimed_length_append h.2.1 more, h.2.2⟩

/-- The magic word does not start in the noise and end in the frame behind it: no two places of
the magic word hold the same byte. -/
theorem NoMagic.front_word_append {noise behind : Bytes} (h : NoMagic noise) (hnoise : noise ≠ [])
    (hbehind : frontWord behind = some packetMagic) :
    frontWord (noise ++ behind) ≠ some packetMagic := by
  intro hmagic
  by_cases hlong : 4 ≤ noise.length
  · -- the word lies in the noise
    cases hword : frontWord noise with
    | none => exact front_word_ne_none hlong hword
    | some word =>
        have hsame := Stream.front_word_append hword behind
        rw [hmagic] at hsame
        exact h 0 (hword.trans hsame.symm)
  · have htake := take_of_front_word hmagic
    have hfirst : ((noise ++ behind).take 4)[noise.length]? = some 0x41 := by
      rw [List.getElem?_take_of_lt (by omega), List.getElem?_append_right (Nat.le_refl _),
        Nat.sub_self, ← List.getElem?_take_of_lt (by decide : 0 < 4), take_of_front_word hbehind]
      rfl
    rw [htake] at hfirst
    have hpositive := List.length_pos_iff.mpr hnoise
    generalize noise.length = index at hlong hfirst hpositive
    match index, hpositive with
    | 1, _ | 2, _ | 3, _ => cases hfirst
    | index + 4, _ => exact hlong (Nat.le_add_left 4 index)

/-- Fewer than four bytes are quiet. -/
theorem no_magic_of_short {noise : Bytes} (h : noise.length < 4) : NoMagic noise := by
  intro n hmagic
  have hlength := four_le_of_front_word hmagic
  rw [List.length_drop] at hlength
  omega

/-- Noise in front of a frame is discarded byte by byte. -/
theorem NoMagic.reaches {noise behind : Bytes} (h : NoMagic noise)
    (hbehind : frontWord behind = some packetMagic) :
    (frameConsumer options).Reaches (noise ++ behind) (List.replicate noise.length none)
      behind := by
  induction noise with
  | nil => exact .refl behind
  | cons byte noise ih =>
      have hfront := h.front_word_append (List.cons_ne_nil byte noise) hbehind
      have hlength := four_le_of_front_word hbehind
      have hstep : frameStep options (byte :: noise ++ behind) = some (1, none) := by
        cases hword : frontWord (byte :: noise ++ behind) with
        | none =>
            refine absurd hword (front_word_ne_none ?_)
            rw [List.length_append]
            omega
        | some word =>
            have hother : word ≠ packetMagic := fun hsame =>
              hfront (hword.trans (congrArg some hsame))
            simp only [frameStep, hword, ne_eq, hother, not_false_eq_true, if_true]
      exact .step hstep (ih (h.drop 1))

/-- Of noise at the end the last three bytes stay in the buffer. -/
theorem NoMagic.run {noise : Bytes} (h : NoMagic noise) :
    (frameConsumer options).run noise =
      (List.replicate (noise.length - 3) none, noise.drop (noise.length - 3)) := by
  induction noise with
  | nil => exact Consumer.run_of_waits rfl
  | cons byte noise ih =>
      by_cases hlong : 4 ≤ (byte :: noise).length
      · obtain ⟨word, hword⟩ := Option.ne_none_iff_exists'.mp (front_word_ne_none hlong)
        have hother : word ≠ packetMagic := fun hsame => h 0 (hword.trans (congrArg some hsame))
        have hstep : (frameConsumer options).next (byte :: noise) = some (1, none) := by
          show frameStep options (byte :: noise) = some (1, none)
          simp only [frameStep, hword, ne_eq, hother, not_false_eq_true, if_true]
        have hlength : (byte :: noise).length - 3 = noise.length - 3 + 1 := by
          rw [List.length_cons] at hlong ⊢
          omega
        rw [Consumer.run_of_next hstep, List.drop_one, List.tail_cons, ih (h.drop 1), hlength]
        rfl
      · have hnone : frontWord (byte :: noise) = none := by
          by_contra hsome
          obtain ⟨word, hword⟩ := Option.ne_none_iff_exists'.mp hsome
          exact hlong (four_le_of_front_word hword)
        have hwaits : (frameConsumer options).next (byte :: noise) = none := by
          show frameStep options (byte :: noise) = none
          simp only [frameStep, hnone]
        rw [Consumer.run_of_waits hwaits, show (byte :: noise).length - 3 = 0 by omega]
        rfl

/-! ## Frames -/

/-- What the consumer hands over for a transmission. -/
def Transmission.deliveries (options : DecodeOptions) (t : Transmission) : List Delivery :=
  List.replicate t.noise.length none ++ [some (decodePacket t.frame options)]

/-- A transmission is consumed whole, and its frame is decoded. -/
theorem Transmission.Framed.reaches {t : Transmission} (h : t.Framed options) (behind : Bytes) :
    (frameConsumer options).Reaches (t.bytes ++ behind) (t.deliveries options) behind := by
  have hheader := h.header.append behind
  have hstep := frame_step_of_header hheader (by rw [List.length_append]; omega)
  rw [List.take_left] at hstep
  unfold Transmission.bytes
  rw [List.append_assoc]
  refine (h.quiet.reaches hheader.1).trans (.step hstep ?_)
  rw [List.drop_left]
  exact .refl behind

/-- All transmissions are consumed, one after another. -/
theorem reaches_wire {ts : List Transmission} (h : ∀ t ∈ ts, t.Framed options) (behind : Bytes) :
    (frameConsumer options).Reaches (wire ts ++ behind)
      (ts.flatMap (Transmission.deliveries options)) behind := by
  induction ts with
  | nil => exact .refl behind
  | cons t ts ih =>
      obtain ⟨hhead, htail⟩ := List.forall_mem_cons.mp h
      rw [wire, List.flatMap_cons, List.flatMap_cons, List.append_assoc]
      exact (hhead.reaches _).trans (ih htail)

variable {σ : Type}

/-- The handlers see the decoded frames only. -/
theorem deliver_transmissions (handlers : Handlers σ) (ts : List Transmission) :
    (ts.flatMap (Transmission.deliveries options)).foldl Handlers.deliver handlers =
      (ts.map fun t => decodePacket t.frame options).foldl Handlers.callDecoded handlers := by
  induction ts generalizing handlers with
  | nil => rfl
  | cons t ts ih =>
      rw [List.flatMap_cons, Transmission.deliveries, List.foldl_append, List.foldl_append,
        deliver_replicate_none, ih]
      rfl

/-- One push of framed transmissions with noise behind them, into an empty buffer. -/
theorem push_wire (parser : StreamParser σ) (hempty : parser.buffer = []) {ts : List Transmission}
    (hts : ∀ t ∈ ts, t.Framed parser.options) {tail : Bytes} (htail : NoMagic tail) :
    push parser (wire ts ++ tail) = { parser with
      buffer := tail.drop (tail.length - 3)
      handlers := (ts.map fun t => decodePacket t.frame parser.options).foldl Handlers.callDecoded
        parser.handlers } := by
  have hrun := (reaches_wire hts tail).run_eq
  rw [htail.run] at hrun
  rw [push_eq_run, hempty, List.nil_append, hrun, List.foldl_append, deliver_replicate_none,
    deliver_transmissions]

/-- A frame that the decoder accepts, behind quiet noise, is a framed transmission. -/
theorem framed_of_decode {t : Transmission} {packet : Packet} (hquiet : NoMagic t.noise)
    (h : decodePacket t.frame options = .ok packet) : t.Framed options := by
  refine ⟨hquiet, ?_⟩
  have hheader := header_at_of_decode h []
  rw [List.append_nil] at hheader
  exact hheader

/-- **Frames over a noisy line.** Take a parser with an empty buffer and a stream of framed
transmissions with quiet noise behind them. However the stream is cut into chunks, the handlers are
called with what each frame decodes to, in order, and at most three bytes stay in the buffer. -/
theorem frames_delivered (parser : StreamParser σ) (hempty : parser.buffer = [])
    (ts : List Transmission) (hts : ∀ t ∈ ts, t.Framed parser.options) (tail : Bytes)
    (htail : NoMagic tail) (chunks : List Bytes) (hchunks : chunks.flatten = wire ts ++ tail) :
    chunks.foldl push parser = { parser with
      buffer := tail.drop (tail.length - 3)
      handlers := (ts.map fun t => decodePacket t.frame parser.options).foldl Handlers.callDecoded
        parser.handlers } := by
  rw [foldl_push_of_empty parser hempty, hchunks, push_wire parser hempty hts htail]

/-- Two heartbeats with a zero in front of each, cut in the middle of the first one. -/
theorem heartbeats_delivered :
    [0 :: heartbeatFrame.take 20, heartbeatFrame.drop 20 ++ 0 :: heartbeatFrame ++ [7]].foldl push
        (listening {} (fun (received : Nat) _ => (received + 1, none)) none 0) =
      { listening {} (fun (received : Nat) _ => (received + 1, none)) none 2 with
        buffer := [7]
        handlers.calls := [.packet heartbeat, .packet heartbeat] } := by
  have hframed : ∀ t ∈ [(⟨[0], heartbeatFrame⟩ : Transmission), ⟨[0], heartbeatFrame⟩],
      t.Framed {} := by
    intro t ht
    have hsame : t = ⟨[0], heartbeatFrame⟩ := by simpa using ht
    rw [hsame]
    exact framed_of_decode (no_magic_of_short (by decide : [0].length < 4)) decode_heartbeat_frame
  refine (frames_delivered _ rfl [⟨[0], heartbeatFrame⟩, ⟨[0], heartbeatFrame⟩] hframed [7]
    (no_magic_of_short (by decide)) _ ?_).trans ?_
  · simp only [wire, Transmission.bytes, List.flatten_cons, List.flatten_nil, List.flatMap_cons,
      List.flatMap_nil, List.append_nil, List.cons_append, List.nil_append, List.append_assoc]
    rw [← List.append_assoc (heartbeatFrame.take 20), List.take_append_drop]
  · simp only [List.map_cons, List.map_nil, List.foldl_cons, List.foldl_nil, listening,
      decode_heartbeat_frame]
    rfl

/-! ## Bursts -/

/-- A packet, the frame that was sent for it and what arrived. -/
structure Sending where
  packet : Packet
  sent : Bytes
  received : Transmission
  deriving DecidableEq, Repr

/-- The frame was valid, and at most four consecutive bytes behind its header were damaged. -/
structure Sending.Burst (options : DecodeOptions) (s : Sending) : Prop where
  quiet : NoMagic s.received.noise
  valid : decodePacket s.sent options = .ok s.packet
  burst : ∃ start, 8 ≤ start ∧ DiffersWithin start s.sent s.received.frame

/-- The front word needs the first four bytes only. -/
theorem front_word_take (buffer : Bytes) {n : Nat} (h : 4 ≤ n) :
    frontWord (buffer.take n) = frontWord buffer := by
  obtain ⟨m, rfl⟩ := Nat.exists_eq_add_of_le h
  rw [Nat.add_comm]
  match buffer with
  | [] | [_] | [_, _] | [_, _, _] => rfl
  | b0 :: b1 :: b2 :: b3 :: rest => rfl

/-- A header needs the first eight bytes only. -/
theorem header_at_congr {input input' : Bytes} {frameLen : Nat}
    (h : input.take 8 = input'.take 8) (hheader : HeaderAt options input frameLen) :
    HeaderAt options input' frameLen := by
  have hfront : frontWord input' = frontWord input := by
    rw [← front_word_take input' (by decide : 4 ≤ 8), ← h, front_word_take input (by decide)]
  have hsecond : frontWord (input'.drop 4) = frontWord (input.drop 4) := by
    have hsame : (input'.drop 4).take 4 = (input.drop 4).take 4 := by
      rw [List.take_drop, List.take_drop, h]
    rw [← front_word_take (input'.drop 4) (Nat.le_refl 4), hsame,
      front_word_take (input.drop 4) (Nat.le_refl 4)]
  refine ⟨hfront.trans hheader.1, ?_, hheader.2.2⟩
  rw [claimedLength, hsecond]
  exact hheader.2.1

/-- Two frames that are accepted do not differ in four consecutive bytes only. -/
theorem eq_of_burst_accepted {frame damaged : Bytes} {packet packet' : Packet} {start : Nat}
    (h : decodePacket frame options = .ok packet) (h' : decodePacket damaged options = .ok packet')
    (hwindow : DiffersWithin start frame damaged) : damaged = frame := by
  obtain ⟨sections, hframe, -⟩ := decode_packet_ok_iff.mp h
  obtain ⟨sections', hdamaged, -⟩ := decode_packet_ok_iff.mp h'
  obtain ⟨hfront, hbehind⟩ := hwindow.take_drop
  have hsplit := window_split start frame
  have hsplit' := window_split start damaged
  rw [hfront, hbehind] at hsplit'
  rw [← hsplit, ← hsplit', crc32c_detects_window (hsplit.trans hframe) (hsplit'.trans hdamaged)
    (by simp [hwindow.1]) (List.length_take_le 4 _)]

/-- What arrives after a burst is still framed. -/
theorem Sending.Burst.framed {s : Sending} (h : s.Burst options) : s.received.Framed options := by
  obtain ⟨start, hstart, hwindow⟩ := h.burst
  have hheader := header_at_of_decode h.valid []
  rw [List.append_nil, ← hwindow.1] at hheader
  refine ⟨h.quiet, header_at_congr (List.ext_getElem? fun i => ?_) hheader⟩
  by_cases hi : i < 8
  · rw [List.getElem?_take_of_lt hi, List.getElem?_take_of_lt hi]
    exact (hwindow.2 i (.inl (by omega))).symm
  · rw [List.getElem?_take_eq_none (by omega), List.getElem?_take_eq_none (by omega)]

/-- The handler call for a decoded frame. -/
def callback : Except Error Packet → Callback
  | .ok packet => .packet packet
  | .error failure => .error failure

/-- A sending calls the packet handler with its packet if its frame arrived as it was sent, and the
error handler otherwise. -/
def Sending.Answered (s : Sending) (call : Callback) : Prop :=
  if s.received.frame = s.sent then call = .packet s.packet
  else ∃ failure, call = .error failure

/-- A burst is answered by what its bytes decode to. -/
theorem Sending.Burst.answered {s : Sending} (h : s.Burst options) :
    s.Answered (callback (decodePacket s.received.frame options)) := by
  obtain ⟨start, -, hwindow⟩ := h.burst
  unfold Sending.Answered
  split
  · rename_i hsame
    rw [hsame, h.valid]
    rfl
  · rename_i hdiffers
    cases hdecode : decodePacket s.received.frame options with
    | ok packet => exact absurd (eq_of_burst_accepted h.valid hdecode hwindow) hdiffers
    | error failure => exact ⟨failure, rfl⟩

/-- With both handlers registered and none throwing, each decoded frame is one call. -/
theorem calls_of_call_decoded {handler : σ → Packet → σ × Option Error}
    (hquiet : ∀ world packet, (handler world packet).2 = none) {errorHandler : σ → Error → σ}
    (results : List (Except Error Packet)) {handlers : Handlers σ}
    (hpacket : handlers.packetHandler = some handler)
    (herror : handlers.errorHandler = some errorHandler) :
    (results.foldl Handlers.callDecoded handlers).calls =
      handlers.calls ++ results.map callback := by
  induction results generalizing handlers with
  | nil => rw [List.map_nil, List.append_nil, List.foldl_nil]
  | cons result results ih =>
      have hstep : (handlers.callDecoded result).calls = handlers.calls ++ [callback result] ∧
          (handlers.callDecoded result).packetHandler = some handler ∧
          (handlers.callDecoded result).errorHandler = some errorHandler := by
        cases result with
        | ok packet =>
            simp only [Handlers.callDecoded, Handlers.callPacket, hpacket, hquiet, callback, herror,
              and_self]
        | error failure =>
            simp only [Handlers.callDecoded, Handlers.callError, herror, callback, hpacket,
              and_self]
      rw [List.foldl_cons, ih hstep.2.1 hstep.2.2, hstep.1, List.map_cons, List.append_assoc,
        List.singleton_append]

/-- **Bursts.** Valid frames are sent over a noisy line, and in any of them up to four consecutive
bytes behind the header may be damaged. Then the handlers are called once for each frame, in order:
the packet handler with the packet of each frame that arrived intact, the error handler for each
damaged one. -/
theorem bursts_cost_their_frames (options : DecodeOptions)
    (handler : σ → Packet → σ × Option Error)
    (hquiet : ∀ world packet, (handler world packet).2 = none) (errorHandler : σ → Error → σ)
    (world : σ) (sendings : List Sending) (hsendings : ∀ s ∈ sendings, s.Burst options)
    (chunks : List Bytes) (hchunks : chunks.flatten = wire (sendings.map Sending.received)) :
    List.Forall₂ Sending.Answered sendings
      (chunks.foldl push (listening options handler (some errorHandler) world)).handlers.calls := by
  have hframed : ∀ t ∈ sendings.map Sending.received, t.Framed options :=
    List.forall_mem_map.mpr fun s hs => (hsendings s hs).framed
  have hnone : NoMagic [] := no_magic_of_short (by decide)
  have hpush := push_wire (listening options handler (some errorHandler) world) rfl hframed hnone
  rw [List.append_nil, ← hchunks] at hpush
  rw [foldl_push_of_empty _ rfl, hpush]
  dsimp only
  rw [@calls_of_call_decoded σ handler hquiet errorHandler _ _ rfl rfl, List.map_map,
    show (listening options handler (some errorHandler) world).handlers.calls = [] from rfl,
    List.nil_append, List.map_map, List.forall₂_map_right_iff, List.forall₂_same]
  exact fun s hs => (hsendings s hs).answered

/-- The heartbeat with its last checksum byte damaged, and a whole one behind it. -/
theorem burst_before_heartbeat :
    List.Forall₂ Sending.Answered
      [⟨heartbeat, heartbeatFrame, ⟨[], heartbeatFrame.set 44 0⟩⟩,
        ⟨heartbeat, heartbeatFrame, ⟨[], heartbeatFrame⟩⟩]
      ([heartbeatFrame.set 44 0 ++ heartbeatFrame].foldl push
        (listening {} (fun (_ : Unit) _ => ((), none))
          (some fun _ _ => ()) ())).handlers.calls := by
  have hnone : NoMagic [] := no_magic_of_short (by decide)
  refine bursts_cost_their_frames {} _ (fun _ _ => rfl) _ () _ ?_ _ (by
    simp only [wire, Transmission.bytes, List.map_cons, List.map_nil, List.flatMap_cons,
      List.flatMap_nil, List.flatten_cons, List.flatten_nil, List.nil_append, List.append_nil])
  intro s hs
  have hcases : s = ⟨heartbeat, heartbeatFrame, ⟨[], heartbeatFrame.set 44 0⟩⟩ ∨
      s = ⟨heartbeat, heartbeatFrame, ⟨[], heartbeatFrame⟩⟩ := by simpa using hs
  rcases hcases with rfl | rfl
  · refine ⟨hnone, decode_heartbeat_frame, 41, by decide, List.length_set, fun i hi => ?_⟩
    exact List.getElem?_set_ne (by omega)
  · exact ⟨hnone, decode_heartbeat_frame, 8, by decide, rfl, fun _ _ => rfl⟩

end Aethon.Stream
