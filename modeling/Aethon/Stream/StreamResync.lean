import Aethon.Protocol.PacketDecode
import Aethon.Stream.StreamChunks

/-!
# Resynchronisation

Which frames of a stream reach the packet handler. `Walk` follows the positions the parser visits:
it moves one byte where no header within the limit starts, and over the whole claimed length where
one does, whether or not the claimed frame decodes. A packet is sure to be delivered exactly when
the walk lands on a frame of it (`delivered_iff_lands_on`). So garbage can cost a valid frame: it
is enough that a header in the garbage claims a length that reaches into the frame.
-/

namespace Aethon.Stream

open Codec Protocol Incremental LittleEndian

/-! ## Headers -/

/-- The front word of a buffer is the number its first four bytes write. -/
theorem front_word_eq_some_iff {buffer : Bytes} {word : UInt32} :
    frontWord buffer = some word ↔ ∃ rest, buffer = digits 4 word.toNat ++ rest := by
  constructor
  · intro h
    unfold frontWord at h
    split at h
    · rename_i b0 b1 b2 b3 rest
      cases h
      refine ⟨rest, ?_⟩
      rw [BinaryReader.word32_toNat]
      exact congrArg (· ++ rest) (digits_value [b0, b1, b2, b3]).symm
    · cases h
  · intro h
    obtain ⟨rest, rfl⟩ := h
    show some (BinaryReader.word32 _ _ _ _) = some word
    rw [Option.some.injEq, ← UInt32.toNat_inj, BinaryReader.word32_toNat]
    show value (digits 4 word.toNat) = word.toNat
    exact value_digits word.toNat_lt

/-- Four bytes are enough for a front word. -/
theorem front_word_ne_none {buffer : Bytes} (h : 4 ≤ buffer.length) : frontWord buffer ≠ none := by
  match buffer, h with
  | b0 :: b1 :: b2 :: b3 :: rest, _ => exact Option.some_ne_none _

/-- A header within the packet limit starts the input and claims `frameLen` bytes. -/
def HeaderAt (options : DecodeOptions) (input : Bytes) (frameLen : Nat) : Prop :=
  frontWord input = some packetMagic ∧ claimedLength input = some frameLen ∧
    frameLen ≤ options.maxPacketSize

/-- What a step can do: move one byte where no header within the limit starts, delivering no
packet, or take the claimed frame. -/
theorem frame_step_cases {options : DecodeOptions} {buffer : Bytes} {n : Nat} {out : Delivery}
    (h : frameStep options buffer = some (n, out)) :
    (n = 1 ∧ (∀ frameLen, ¬ HeaderAt options buffer frameLen) ∧
      (out = none ∨ frontWord buffer = some packetMagic ∧ out = some (.error oversizeError))) ∨
      (HeaderAt options buffer n ∧ n ≤ buffer.length ∧
        out = some (decodePacket (buffer.take n) options)) := by
  have hlength := (frame_step_advances h).2
  unfold frameStep at h
  split at h
  · cases h
  · rename_i word hword
    split_ifs at h with hmagic
    · cases h
      refine .inl ⟨rfl, fun frameLen hheader => hmagic ?_, .inl rfl⟩
      exact Option.some.inj (hword.symm.trans hheader.1)
    · rw [ne_eq, not_not] at hmagic
      subst hmagic
      split at h
      · cases h
      · rename_i frameLen hclaimed
        split_ifs at h with hoversize
        · cases h
          refine .inl ⟨rfl, fun other hheader => ?_, .inr ⟨hword, rfl⟩⟩
          have hother := Option.some.inj (hclaimed.symm.trans hheader.2.1)
          have hlimit := hheader.2.2
          omega
        · cases h
          exact .inr ⟨⟨hword, hclaimed, by omega⟩, hlength, rfl⟩

/-- With eight bytes there and no header within the limit, a step moves one byte. -/
theorem frame_step_of_no_header {options : DecodeOptions} {buffer : Bytes}
    (hlength : 8 ≤ buffer.length) (h : ∀ frameLen, ¬ HeaderAt options buffer frameLen) :
    ∃ out, frameStep options buffer = some (1, out) := by
  unfold frameStep
  split
  · rename_i hnone
    exact absurd hnone (front_word_ne_none (by omega))
  · rename_i word hword
    split_ifs with hmagic
    · exact ⟨none, rfl⟩
    · rw [ne_eq, not_not] at hmagic
      subst hmagic
      split
      · rename_i hunclaimed
        have hsecond : frontWord (buffer.drop 4) ≠ none :=
          front_word_ne_none (by rw [List.length_drop]; omega)
        exact absurd (Option.map_eq_none_iff.mp hunclaimed) hsecond
      · rename_i frameLen hclaimed
        by_cases hlimit : frameLen ≤ options.maxPacketSize
        · exact absurd ⟨hword, hclaimed, hlimit⟩ (h frameLen)
        · rw [if_pos (by omega)]
          exact ⟨_, rfl⟩

/-- A complete frame behind its header is taken whole. -/
theorem frame_step_of_header {options : DecodeOptions} {buffer : Bytes} {frameLen : Nat}
    (h : HeaderAt options buffer frameLen) (hlength : frameLen ≤ buffer.length) :
    frameStep options buffer =
      some (frameLen, some (decodePacket (buffer.take frameLen) options)) := by
  obtain ⟨hfront, hclaimed, hlimit⟩ := h
  rw [frame_step_of_claimed options hfront hclaimed, if_neg (by omega), if_neg (by omega)]

/-- A frame the decoder accepts starts with a header that claims exactly it. -/
theorem header_at_of_decode {options : DecodeOptions} {frame : Bytes} {packet : Packet}
    (h : decodePacket frame options = .ok packet) (after : Bytes) :
    HeaderAt options (frame ++ after) frame.length := by
  obtain ⟨sections, hframe, hmax, hwidth, -, -⟩ := decode_packet_ok_iff.mp h
  generalize packet.bodyWire sections = body at hframe
  have hbody : body.length + 12 = frame.length := by
    rw [hframe, length_frame_wire, Nat.add_comm]
  have hlen : (UInt32.ofNat body.length).toNat = body.length := Nat.mod_eq_of_lt (by omega)
  refine ⟨front_word_eq_some_iff.mpr ⟨digits 4 body.length ++ (body ++
    (digits 4 (crc32c (envelopeWire body)).toNat ++ after)), ?_⟩, ?_, hmax⟩
  · simp [hframe, frameWire, envelopeWire]
  · have hword : frontWord ((frame ++ after).drop 4) = some (UInt32.ofNat body.length) := by
      refine front_word_eq_some_iff.mpr ⟨body ++
        (digits 4 (crc32c (envelopeWire body)).toNat ++ after), ?_⟩
      simp [hframe, frameWire, envelopeWire, hlen]
    rw [claimedLength, hword, Option.map_some, hlen, hbody]

/-! ## The walk -/

/-- The positions the parser visits, given by the input that is left there. -/
inductive Walk (options : DecodeOptions) : Bytes → Bytes → Prop
  | refl (input : Bytes) : Walk options input input
  | skip {byte : UInt8} {input last : Bytes} :
      (∀ frameLen, ¬ HeaderAt options (byte :: input) frameLen) → Walk options input last →
      Walk options (byte :: input) last
  | jump {frame input last : Bytes} : HeaderAt options (frame ++ input) frame.length →
      Walk options input last → Walk options (frame ++ input) last

/-- The walk over the input visits the start of a frame that decodes to the packet. -/
def LandsOn (options : DecodeOptions) (input : Bytes) (packet : Packet) : Prop :=
  ∃ frame after, Walk options input (frame ++ after) ∧ decodePacket frame options = .ok packet

variable {options : DecodeOptions}

/-- A walk may follow a walk. -/
theorem Walk.trans {first second third : Bytes} (h : Walk options first second)
    (h' : Walk options second third) : Walk options first third := by
  induction h with
  | refl => exact h'
  | skip hnone _ ih => exact .skip hnone (ih h')
  | jump hheader _ ih => exact .jump hheader (ih h')

/-- A walk only goes forward. -/
theorem Walk.length_le {first second : Bytes} (h : Walk options first second) :
    second.length ≤ first.length := by
  induction h with
  | refl => exact Nat.le_refl _
  | skip _ _ ih =>
      rw [List.length_cons]
      omega
  | jump _ _ ih =>
      rw [List.length_append]
      omega

/-- Where the walk still has eight bytes left, the consumer follows it. -/
theorem Walk.reaches {input last : Bytes} (h : Walk options input last) (hlast : 8 ≤ last.length) :
    ∃ outs, (frameConsumer options).Reaches input outs last := by
  induction h with
  | refl => exact ⟨[], .refl _⟩
  | skip hnone hwalk ih =>
      obtain ⟨outs, hreaches⟩ := ih hlast
      have hlength := hwalk.length_le
      obtain ⟨out, hstep⟩ := frame_step_of_no_header (by rw [List.length_cons]; omega) hnone
      exact ⟨out :: outs, .step hstep hreaches⟩
  | @jump frame input last hheader hwalk ih =>
      obtain ⟨outs, hreaches⟩ := ih hlast
      have hstep := frame_step_of_header hheader (by rw [List.length_append]; omega)
      refine ⟨_ :: outs, .step hstep ?_⟩
      rw [List.drop_left]
      exact hreaches

/-- The consumer follows the walk, and the packets it delivers are those the walk lands on. -/
theorem walk_of_reaches {input rest : Bytes} {outs : List Delivery}
    (h : (frameConsumer options).Reaches input outs rest) :
    Walk options input rest ∧
      ∀ packet, some (.ok packet) ∈ outs → LandsOn options input packet := by
  induction h with
  | refl input => exact ⟨.refl input, fun packet hmem => by cases hmem⟩
  | @step buffer rest n out outs hnext _ ih =>
      obtain ⟨hwalk, hlands⟩ := ih
      have hlength := ((frameConsumer options).advances hnext).2
      have hsplit := List.take_append_drop n buffer
      have hadvance : ∀ last, Walk options (buffer.drop n) last → Walk options buffer last := by
        intro last hlast
        rcases frame_step_cases hnext with ⟨rfl, hnone, -⟩ | ⟨hheader, -, -⟩
        · cases buffer with
          | nil => cases hlength
          | cons byte buffer => exact .skip hnone hlast
        · have htake : (buffer.take n).length = n := by
            rw [List.length_take, Nat.min_eq_left hlength]
          rw [← hsplit]
          refine .jump ?_ hlast
          rw [hsplit, htake]
          exact hheader
      refine ⟨hadvance rest hwalk, fun packet hmem => ?_⟩
      rcases List.mem_cons.mp hmem with hhead | htail
      · rcases frame_step_cases hnext with ⟨-, -, hnone | ⟨-, herror⟩⟩ | ⟨-, -, hdecoded⟩
        · cases hhead.trans hnone
        · cases hhead.trans herror
        · refine ⟨buffer.take n, buffer.drop n, ?_, ?_⟩
          · rw [hsplit]
            exact .refl buffer
          · exact (Option.some.inj (hhead.trans hdecoded)).symm
      · obtain ⟨frame, after, hframe, hdecode⟩ := hlands packet htail
        exact ⟨frame, after, hadvance _ hframe, hdecode⟩

/-! ## Endings that deliver nothing -/

/-- The magic word starts nowhere in the input. -/
def NoMagic (input : Bytes) : Prop :=
  ∀ n, frontWord (input.drop n) ≠ some packetMagic

theorem NoMagic.drop {input : Bytes} (h : NoMagic input) (n : Nat) : NoMagic (input.drop n) := by
  intro m
  rw [List.drop_drop]
  exact h (n + m)

/-- A byte may stand in front of bytes without the magic, if it does not begin one. -/
theorem NoMagic.cons {byte : UInt8} {input : Bytes} (h : NoMagic input)
    (hfront : frontWord (byte :: input) ≠ some packetMagic) : NoMagic (byte :: input) := by
  intro n
  cases n with
  | zero => exact hfront
  | succ n => exact h n

/-- The first four bytes of an input that starts with the magic word. -/
theorem take_of_front_word {input : Bytes} (h : frontWord input = some packetMagic) :
    input.take 4 = [0x41, 0x54, 0x48, 0x4e] := by
  obtain ⟨rest, rfl⟩ := front_word_eq_some_iff.mp h
  rfl

/-- With a zero among its first four bytes an input does not start with the magic word. -/
theorem front_word_ne_of_zero {front : Bytes} (h : front.length < 4) (n : Nat) :
    frontWord (front ++ List.replicate n 0) ≠ some packetMagic := by
  intro hmagic
  have htake := take_of_front_word hmagic
  have hlength := four_le_of_front_word hmagic
  rw [List.length_append, List.length_replicate] at hlength
  have hzero : ((front ++ List.replicate n (0 : UInt8)).take 4)[front.length]? = some 0 := by
    rw [List.getElem?_take_of_lt h, List.getElem?_append_right (Nat.le_refl _), Nat.sub_self,
      List.getElem?_replicate_of_lt (by omega)]
  rw [htake] at hzero
  generalize front.length = index at h hzero
  match index, h with
  | 0, _ | 1, _ | 2, _ | 3, _ => cases hzero

/-- A few bytes and then zeros: any four bytes in a row hold a zero. -/
theorem no_magic_zeros {front : Bytes} (h : front.length < 4) (n : Nat) :
    NoMagic (front ++ List.replicate n 0) := by
  intro m
  rw [List.drop_append, List.drop_replicate]
  exact front_word_ne_of_zero (by rw [List.length_drop]; omega) _

/-- Without the magic word nothing is delivered. -/
theorem delivers_nothing_of_no_magic {input rest : Bytes} {outs : List Delivery}
    (h : (frameConsumer options).Reaches input outs rest) (hquiet : NoMagic input) :
    ∀ out ∈ outs, out = none := by
  induction h with
  | refl => exact fun out hmem => by cases hmem
  | @step buffer rest n out outs hnext _ ih =>
      intro other hmem
      have hfront : frontWord buffer ≠ some packetMagic := hquiet 0
      rcases List.mem_cons.mp hmem with rfl | htail
      · rcases frame_step_cases hnext with ⟨-, -, hnone | ⟨hmagic, -⟩⟩ | ⟨hheader, -, -⟩
        · exact hnone
        · exact absurd hmagic hfront
        · exact absurd hheader.1 hfront
      · exact ih (hquiet.drop n) other htail

/-- Only one last byte completes a frame. -/
theorem decode_packet_last_byte {front : Bytes} {first second : UInt8} {packet packet' : Packet}
    (h : decodePacket (front ++ [first]) options = .ok packet)
    (h' : decodePacket (front ++ [second]) options = .ok packet') : first = second := by
  obtain ⟨sections, hframe, -, -, -, -⟩ := decode_packet_ok_iff.mp h
  obtain ⟨sections', hframe', -, -, -, -⟩ := decode_packet_ok_iff.mp h'
  generalize packet.bodyWire sections = body at hframe
  generalize packet'.bodyWire sections' = body' at hframe'
  have hlength : body.length = body'.length := by
    have hfirst := congrArg List.length hframe
    have hsecond := congrArg List.length hframe'
    simp only [List.length_append, List.length_singleton, length_frame_wire] at hfirst hsecond
    omega
  -- the checksum covers the same bytes in both frames
  have henvelope : ∀ {last : UInt8} {body : Bytes}, front ++ [last] = frameWire body →
      front.take (8 + body.length) = envelopeWire body := by
    intro last body hframe
    have hfront := congrArg List.length hframe
    simp only [List.length_append, List.length_singleton, length_frame_wire] at hfront
    have htake := congrArg (List.take (8 + body.length)) hframe
    rw [List.take_append_of_le_length (by omega), frameWire,
      List.take_left' (length_envelope_wire body)] at htake
    exact htake
  have hsame : envelopeWire body = envelopeWire body' := by
    rw [← henvelope hframe, ← henvelope hframe', hlength]
  have hframes : front ++ [first] = front ++ [second] := by
    rw [hframe, hframe', frameWire, frameWire, hsame]
  exact List.singleton_inj.mp (List.append_cancel_left hframes)

/-- What may follow a buffer on which the consumer waits: as many bytes as asked for, on which the
consumer never delivers the packet. -/
def Starves (options : DecodeOptions) (packet : Packet) (buffer : Bytes) : Prop :=
  ∀ n, ∃ rest : Bytes, n ≤ rest.length ∧
    some (.ok packet) ∉ ((frameConsumer options).run (buffer ++ rest)).1

/-- A buffer shorter than the magic word can be starved with zeros. -/
theorem starves_of_short (packet : Packet) {buffer : Bytes} (h : buffer.length < 4) :
    Starves options packet buffer := by
  intro n
  refine ⟨List.replicate n 0, by rw [List.length_replicate], fun hmem => ?_⟩
  cases delivers_nothing_of_no_magic (Consumer.run_reaches _) (no_magic_zeros h n) _ hmem

/-- A started frame can be starved: of two last bytes, one does not complete it. -/
theorem starves_of_header (packet : Packet) {buffer : Bytes} {frameLen : Nat}
    (h : HeaderAt options buffer frameLen) (hwaits : buffer.length < frameLen) :
    Starves options packet buffer := by
  intro n
  -- zeros up to the last byte, which is chosen so that the frame does not decode to the packet
  let front := buffer ++ List.replicate (frameLen - buffer.length - 1) (0 : UInt8)
  have hlength : front.length + 1 = frameLen := by
    simp only [front, List.length_append, List.length_replicate]
    omega
  have hlast : ∃ last, decodePacket (front ++ [last]) options ≠ .ok packet := by
    by_cases hzero : decodePacket (front ++ [0]) options = .ok packet
    · refine ⟨1, fun hone => ?_⟩
      cases decode_packet_last_byte hzero hone
    · exact ⟨0, hzero⟩
  obtain ⟨last, hfails⟩ := hlast
  let rest :=
    List.replicate (frameLen - buffer.length - 1) (0 : UInt8) ++ last :: List.replicate n 0
  have hsplit : buffer ++ rest = (front ++ [last]) ++ List.replicate n 0 := by
    simp only [rest, front, List.append_assoc, List.singleton_append]
  have hframe : (front ++ [last]).length = frameLen := by
    rw [List.length_append, List.length_singleton, hlength]
  have hheader : HeaderAt options (buffer ++ rest) frameLen :=
    ⟨front_word_append h.1 rest, claimed_length_append h.2.1 rest, h.2.2⟩
  have hstep := frame_step_of_header hheader (by
    rw [hsplit, List.length_append, hframe]
    omega)
  refine ⟨rest, ?_, fun hmem => ?_⟩
  · simp only [rest, List.length_append, List.length_cons, List.length_replicate]
    omega
  · rw [hsplit, ← hframe, List.take_left] at hstep
    rw [hsplit, Consumer.run_of_next hstep, List.drop_left] at hmem
    rcases List.mem_cons.mp hmem with hhead | htail
    · exact hfails (Option.some.inj hhead).symm
    · have hzeros : NoMagic ([] ++ List.replicate n 0) := no_magic_zeros (by decide) n
      cases delivers_nothing_of_no_magic (Consumer.run_reaches _) hzeros _ htail

/-- What starves in a longer buffer starves in a shorter one. -/
theorem Starves.of_append {packet : Packet} {buffer more : Bytes}
    (h : Starves options packet (buffer ++ more)) : Starves options packet buffer := by
  intro n
  obtain ⟨rest, hlength, hrest⟩ := h n
  rw [List.append_assoc] at hrest
  exact ⟨more ++ rest, by rw [List.length_append]; omega, hrest⟩

/-- With eight bytes there, the consumer only waits for a started frame. -/
theorem starves_of_waits_long (packet : Packet) {buffer : Bytes} (hlength : 8 ≤ buffer.length)
    (h : frameStep options buffer = none) : Starves options packet buffer := by
  by_cases hheader : ∃ frameLen, HeaderAt options buffer frameLen
  · obtain ⟨frameLen, hheader⟩ := hheader
    by_cases hwaits : buffer.length < frameLen
    · exact starves_of_header packet hheader hwaits
    · rw [frame_step_of_header hheader (by omega)] at h
      cases h
  · obtain ⟨out, hstep⟩ := frame_step_of_no_header hlength (not_exists.mp hheader)
    rw [h] at hstep
    cases hstep

/-- The rest of a header that starts with the magic word holds no other one. -/
theorem no_magic_behind_magic {front : Bytes} (h : front.length < 4) (n : Nat) :
    NoMagic (0x54 :: 0x48 :: 0x4e :: (front ++ List.replicate n 0)) := by
  have hfirst : ∀ {byte : UInt8} {input : Bytes}, byte ≠ 0x41 →
      frontWord (byte :: input) ≠ some packetMagic := by
    intro byte input hbyte hmagic
    exact hbyte (List.cons.inj (take_of_front_word hmagic)).1
  exact (((no_magic_zeros h n).cons (hfirst (by decide))).cons (hfirst (by decide))).cons
    (hfirst (by decide))

/-- The magic word alone, or with a part of the length, can be starved: the length is completed
with zeros. If that makes it too large the magic word is skipped, and no other one follows. -/
theorem starves_of_magic (packet : Packet) {buffer : Bytes} (hlength : buffer.length < 8)
    (h : frontWord buffer = some packetMagic) : Starves options packet buffer := by
  have hfour := four_le_of_front_word h
  have hsplit := List.take_append_drop 4 buffer
  have hback : (buffer.drop 4).length < 4 := by
    rw [List.length_drop]
    omega
  rw [take_of_front_word h] at hsplit
  generalize buffer.drop 4 = back at hsplit hback
  subst hsplit
  let zeros := List.replicate (4 - back.length) (0 : UInt8)
  have height : (([0x41, 0x54, 0x48, 0x4e] ++ back) ++ zeros).length = 8 := by
    simp only [zeros, List.length_append, List.length_cons, List.length_nil, List.length_replicate]
    omega
  suffices hall : Starves options packet (([0x41, 0x54, 0x48, 0x4e] ++ back) ++ zeros) from
    hall.of_append
  cases hstep : frameStep options (([0x41, 0x54, 0x48, 0x4e] ++ back) ++ zeros) with
  | none => exact starves_of_waits_long packet (by omega) hstep
  | some step =>
      obtain ⟨n, out⟩ := step
      rcases frame_step_cases hstep with ⟨rfl, -, hout⟩ | ⟨hheader, hcomplete, -⟩
      · intro m
        refine ⟨List.replicate m 0, by rw [List.length_replicate], fun hmem => ?_⟩
        have hnext := frame_step_stable (List.replicate m 0) hstep
        have hquiet := no_magic_behind_magic hback (4 - back.length + m)
        rw [Consumer.run_of_next hnext] at hmem
        rcases List.mem_cons.mp hmem with hhead | htail
        · rcases hout with rfl | ⟨-, rfl⟩
          · cases hhead
          · cases hhead
        · have htailQuiet : ((([0x41, 0x54, 0x48, 0x4e] ++ back) ++ zeros) ++
              List.replicate m 0).drop 1 = 0x54 :: 0x48 :: 0x4e ::
                (back ++ List.replicate (4 - back.length + m) 0) := by
            simp only [zeros, List.append_assoc, ← List.replicate_append_replicate]
            rfl
          rw [htailQuiet] at htail
          cases delivers_nothing_of_no_magic (Consumer.run_reaches _) hquiet _ htail
      · have hbounds := claimed_length_bounds hheader.2.1
        omega

/-- A consumer that waits can be starved of any packet. -/
theorem starves_of_waits (packet : Packet) {buffer : Bytes}
    (h : frameStep options buffer = none) : Starves options packet buffer := by
  by_cases hlong : 8 ≤ buffer.length
  · exact starves_of_waits_long packet hlong h
  by_cases hshort : buffer.length < 4
  · exact starves_of_short packet hshort
  · refine starves_of_magic packet (by omega) ?_
    unfold frameStep at h
    split at h
    · rename_i hnone
      exact absurd hnone (front_word_ne_none (by omega))
    · rename_i word hword
      by_cases hmagic : word = packetMagic
      · rw [hword, hmagic]
      · rw [if_pos hmagic] at h
        cases h

/-! ## Delivery -/

/-- A parser with an empty buffer and a packet handler, before any input. -/
def listening {σ : Type} (options : DecodeOptions) (handler : σ → Packet → σ × Option Error)
    (errorHandler : Option (σ → Error → σ)) (world : σ) : StreamParser σ where
  options := options
  handlers := { packetHandler := some handler, errorHandler, world }

variable {σ : Type}

/-- Reporting an error adds no packet call and keeps the handlers. -/
theorem call_error_packets (handlers : Handlers σ) (failure : Error) (packet : Packet) :
    (Callback.packet packet ∈ (handlers.callError failure).calls ↔
      Callback.packet packet ∈ handlers.calls) ∧
      (handlers.callError failure).packetHandler = handlers.packetHandler := by
  unfold Handlers.callError
  split
  · simp
  · exact ⟨Iff.rfl, rfl⟩

/-- Calling the packet handler adds its packet and keeps the handlers. -/
theorem call_packet_packets {handlers : Handlers σ} (hhandler : handlers.packetHandler.isSome)
    (decoded packet : Packet) :
    (Callback.packet packet ∈ (handlers.callPacket decoded).calls ↔
      Callback.packet packet ∈ handlers.calls ∨ decoded = packet) ∧
      (handlers.callPacket decoded).packetHandler = handlers.packetHandler := by
  obtain ⟨handler, hsome⟩ := Option.isSome_iff_exists.mp hhandler
  unfold Handlers.callPacket
  simp only [hsome]
  split
  · rename_i failure hfailure
    refine ⟨(call_error_packets _ failure packet).1.trans ?_,
      (call_error_packets _ failure packet).2⟩
    rw [List.mem_append, List.mem_singleton, Callback.packet.injEq, eq_comm (b := decoded)]
  · refine ⟨?_, rfl⟩
    rw [List.mem_append, List.mem_singleton, Callback.packet.injEq, eq_comm (b := decoded)]

/-- A delivery calls the packet handler exactly with a decoded packet. -/
theorem deliver_packets {handlers : Handlers σ} (hhandler : handlers.packetHandler.isSome)
    (delivery : Delivery) (packet : Packet) :
    (Callback.packet packet ∈ (handlers.deliver delivery).calls ↔
      Callback.packet packet ∈ handlers.calls ∨ delivery = some (.ok packet)) ∧
      (handlers.deliver delivery).packetHandler = handlers.packetHandler := by
  rcases delivery with _ | failure | decoded
  · exact ⟨by simp [Handlers.deliver], rfl⟩
  · obtain ⟨hcalls, hsame⟩ := call_error_packets handlers failure packet
    refine ⟨hcalls.trans ?_, hsame⟩
    simp only [Option.some.injEq, reduceCtorEq, or_false]
  · obtain ⟨hcalls, hsame⟩ := call_packet_packets hhandler decoded packet
    refine ⟨hcalls.trans ?_, hsame⟩
    simp only [Option.some.injEq, Except.ok.injEq]

/-- The packet calls of a parser are the packets its deliveries decoded. -/
theorem deliver_all_packets {handlers : Handlers σ} (hhandler : handlers.packetHandler.isSome)
    (outs : List Delivery) (packet : Packet) :
    Callback.packet packet ∈ (outs.foldl Handlers.deliver handlers).calls ↔
      Callback.packet packet ∈ handlers.calls ∨ some (.ok packet) ∈ outs := by
  induction outs generalizing handlers with
  | nil => simp
  | cons delivery outs ih =>
      obtain ⟨hcalls, hsame⟩ := deliver_packets hhandler delivery packet
      rw [List.foldl_cons, ih (by rw [hsame]; exact hhandler), hcalls, List.mem_cons, or_assoc,
        eq_comm (a := delivery)]

/-- What a fresh parser has delivered after some input. -/
theorem delivered_iff (handler : σ → Packet → σ × Option Error)
    (errorHandler : Option (σ → Error → σ)) (world : σ) (input : Bytes) (packet : Packet) :
    Callback.packet packet ∈
        (push (listening options handler errorHandler world) input).handlers.calls ↔
      some (.ok packet) ∈ ((frameConsumer options).run input).1 := by
  rw [push_eq_run]
  exact (deliver_all_packets rfl _ packet).trans (or_iff_right List.not_mem_nil)

/-- A packet the walk lands on is delivered whatever follows. -/
theorem delivered_of_lands_on {input : Bytes} {packet : Packet}
    (h : LandsOn options input packet) (rest : Bytes) :
    some (.ok packet) ∈ ((frameConsumer options).run (input ++ rest)).1 := by
  obtain ⟨frame, after, hwalk, hdecode⟩ := h
  obtain ⟨sections, hframe, -, -, -, -⟩ := decode_packet_ok_iff.mp hdecode
  have hlength : 12 ≤ frame.length := by
    rw [hframe, length_frame_wire]
    omega
  obtain ⟨outs, hreaches⟩ := hwalk.reaches (by rw [List.length_append]; omega)
  have hheader := header_at_of_decode hdecode (after ++ rest)
  have hstep := frame_step_of_header hheader (by rw [List.length_append]; omega)
  rw [List.take_left, hdecode] at hstep
  rw [(hreaches.append rest).run_eq, List.append_assoc, Consumer.run_of_next hstep]
  exact List.mem_append_right _ List.mem_cons_self

/-- A packet the walk does not land on can be starved. -/
theorem lands_on_of_delivered {input : Bytes} {packet : Packet} {n : Nat}
    (h : ∀ rest : Bytes, n ≤ rest.length →
      some (.ok packet) ∈ ((frameConsumer options).run (input ++ rest)).1) :
    LandsOn options input packet := by
  have hwaits := (frameConsumer options).run_waits input
  obtain ⟨rest, hlength, hstarved⟩ := starves_of_waits packet hwaits n
  have hmem := h rest hlength
  rw [Consumer.run_append] at hmem
  rcases List.mem_append.mp hmem with hfirst | hsecond
  · exact (walk_of_reaches (Consumer.run_reaches input)).2 packet hfirst
  · exact absurd hsecond hstarved

/-- Garbage in which no header within the limit starts is walked over byte by byte. -/
theorem walk_over_plain_garbage {garbage frame : Bytes}
    (h : ∀ front back, garbage = front ++ back → back ≠ [] →
      ∀ frameLen, ¬ HeaderAt options (back ++ frame) frameLen) :
    Walk options (garbage ++ frame) frame := by
  induction garbage with
  | nil => exact .refl frame
  | cons byte garbage ih =>
      refine .skip (h [] (byte :: garbage) rfl (List.cons_ne_nil byte garbage)) (ih ?_)
      intro front back hsplit hback
      exact h (byte :: front) back (by rw [hsplit, List.cons_append]) hback

/-- A heartbeat with every other field at its default. -/
def heartbeat : Packet := { kind := .heartbeat }

/-- The frame of the heartbeat. -/
def heartbeatFrame : Bytes :=
  frameWire (heartbeat.bodyWire (heartbeat.sectionsWire ++ [0]))

theorem decode_heartbeat_frame : decodePacket heartbeatFrame = .ok heartbeat := by
  have hlimits : WireLimits heartbeat := by
    refine ⟨⟨by decide, by decide⟩, ⟨?_, ?_, ?_, ?_, ?_⟩⟩ <;> simp [heartbeat]
  exact decode_encode_packet hlimits (encode_packet_of_limits hlimits) (by decide) (by decide)

/-- A valid frame behind garbage is sure to be delivered, once enough bytes follow it, exactly when
the walk over the garbage lands on the frame, or on another frame of the same packet. -/
theorem delivered_behind_garbage_iff (options : DecodeOptions)
    (handler : σ → Packet → σ × Option Error) (errorHandler : Option (σ → Error → σ)) (world : σ)
    (garbage frame : Bytes) (packet : Packet) (h : decodePacket frame options = .ok packet) :
    (∃ n, ∀ rest : Bytes, n ≤ rest.length → Callback.packet packet ∈
      (push (push (listening options handler errorHandler world) (garbage ++ frame))
        rest).handlers.calls) ↔
      Walk options (garbage ++ frame) frame ∨ LandsOn options (garbage ++ frame) packet := by
  simp only [push_append, delivered_iff]
  constructor
  · intro hdelivered
    obtain ⟨n, hdelivered⟩ := hdelivered
    exact .inr (lands_on_of_delivered hdelivered)
  · intro hlands
    refine ⟨0, fun rest _ => delivered_of_lands_on ?_ rest⟩
    rcases hlands with hwalk | hlands
    · refine ⟨frame, [], ?_, h⟩
      rw [List.append_nil]
      exact hwalk
    · exact hlands

/-- Behind a zero byte the heartbeat is delivered. -/
theorem heartbeat_behind_zero :
    ∃ n, ∀ rest : Bytes, n ≤ rest.length → Callback.packet heartbeat ∈
      (push (push (listening {} (fun (_ : Unit) _ => ((), none)) none ())
        ([0] ++ heartbeatFrame)) rest).handlers.calls := by
  refine (delivered_behind_garbage_iff {} _ none () [0] heartbeatFrame heartbeat
    decode_heartbeat_frame).mpr (.inl (walk_over_plain_garbage ?_))
  intro front back hsplit hback frameLen hheader
  have hzero : back = [0] := by
    rcases List.append_eq_singleton_iff.mp hsplit.symm with ⟨-, hback⟩ | ⟨-, hnil⟩
    · exact hback
    · exact absurd hnil hback
  subst hzero
  cases take_of_front_word hheader.1

/-- A header that claims the 45 bytes behind it and is no packet. -/
def falseHeader : Bytes := [0x41, 0x54, 0x48, 0x4e, 41, 0, 0, 0]

/-- What the false header claims is no frame: its version byte is the first magic byte. -/
theorem decode_false_frame (packet : Packet) :
    decodePacket (falseHeader ++ heartbeatFrame) ≠ .ok packet := by
  intro hdecode
  obtain ⟨sections, hframe, -, -, hlimits, -⟩ := decode_packet_ok_iff.mp hdecode
  have hversion : some 0x41 = some packet.version.raw := congrArg (fun bytes => bytes[8]?) hframe
  have hrange := hlimits.version.2
  rw [← Option.some.inj hversion] at hrange
  exact absurd hrange (by decide)

/-- The heartbeat frame is valid, and behind a false header it is lost. -/
theorem false_header_costs_frame :
    decodePacket heartbeatFrame = .ok heartbeat ∧
      ¬ ∃ n, ∀ rest : Bytes, n ≤ rest.length → Callback.packet heartbeat ∈
        (push (push (listening {} (fun (_ : Unit) _ => ((), none)) none ())
          (falseHeader ++ heartbeatFrame)) rest).handlers.calls := by
  refine ⟨decode_heartbeat_frame, fun hdelivered => ?_⟩
  obtain ⟨n, hdelivered⟩ := hdelivered
  simp only [push_append, delivered_iff] at hdelivered
  have hmem := delivered_of_lands_on (lands_on_of_delivered hdelivered) []
  have hheader : HeaderAt {} (falseHeader ++ heartbeatFrame) 53 := ⟨rfl, rfl, by decide⟩
  have hstep := frame_step_of_header hheader (Nat.le_refl 53)
  have htake : (falseHeader ++ heartbeatFrame).take 53 = falseHeader ++ heartbeatFrame :=
    List.take_of_length_le (Nat.le_refl 53)
  have hdrop : (falseHeader ++ heartbeatFrame).drop 53 = [] :=
    List.drop_of_length_le (Nat.le_refl 53)
  rw [List.append_nil, Consumer.run_of_next hstep, htake, hdrop, Consumer.run_of_waits rfl] at hmem
  exact decode_false_frame heartbeat (Option.some.inj (List.mem_singleton.mp hmem)).symm

end Aethon.Stream
