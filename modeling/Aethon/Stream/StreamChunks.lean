import Aethon.Foundation.Incremental
import Aethon.Stream.StreamParser

/-!
# Chunks of a stream

The extraction loop is an incremental consumer (`frameConsumer`): what it does at the front of
the buffer depends only on bytes that are there, so more bytes never change it. `push_eq_run`
connects the parser to the consumer, and `push_chunks` follows: the chunks of a stream do not
matter.
-/

namespace Aethon.Stream

open Codec Protocol Incremental

/-! ## The consumer -/

/-- What the consumer hands to the handlers: nothing for a discarded byte. -/
abbrev Delivery := Option (Except Error Packet)

/-- The step at the front of a buffer: drop a byte where no header starts, report and drop a byte
of a header above the limit, take a complete frame, or wait. -/
def frameStep (options : DecodeOptions) (buffer : Bytes) : Option (Nat × Delivery) :=
  match frontWord buffer with
  | none => none
  | some word =>
      if word ≠ packetMagic then some (1, none)
      else match claimedLength buffer with
        | none => none
        | some frameLen =>
            if frameLen > options.maxPacketSize then some (1, some (.error oversizeError))
            else if buffer.length < frameLen then none
            else some (frameLen, some (decodePacket (buffer.take frameLen) options))

/-- The front word is settled once it is there. -/
theorem front_word_append {buffer : Bytes} {word : UInt32} (h : frontWord buffer = some word)
    (more : Bytes) : frontWord (buffer ++ more) = some word := by
  unfold frontWord at h
  split at h
  · cases h
    rfl
  · cases h

/-- The claimed length is settled once it is there. -/
theorem claimed_length_append {buffer : Bytes} {frameLen : Nat}
    (h : claimedLength buffer = some frameLen) (more : Bytes) :
    claimedLength (buffer ++ more) = some frameLen := by
  have hlength := (claimed_length_bounds h).1
  obtain ⟨bodyLen, hword, rfl⟩ := Option.map_eq_some_iff.mp h
  have happend := front_word_append hword more
  rw [← List.drop_append_of_le_length (by omega)] at happend
  rw [claimedLength, happend]
  rfl

/-- A step takes at least one byte and no more than the buffer holds. -/
theorem frame_step_advances {options : DecodeOptions} {buffer : Bytes} {n : Nat}
    {out : Delivery} (h : frameStep options buffer = some (n, out)) :
    0 < n ∧ n ≤ buffer.length := by
  unfold frameStep at h
  split at h
  · cases h
  · rename_i word hword
    have hlength := four_le_of_front_word hword
    split_ifs at h
    · cases h
      omega
    · split at h
      · cases h
      · rename_i frameLen hclaimed
        have hbounds := claimed_length_bounds hclaimed
        split_ifs at h
        · cases h
          omega
        · cases h
          omega

/-- A step that is taken is taken on every longer buffer. -/
theorem frame_step_stable {options : DecodeOptions} {buffer : Bytes} {n : Nat} {out : Delivery}
    (more : Bytes) (h : frameStep options buffer = some (n, out)) :
    frameStep options (buffer ++ more) = some (n, out) := by
  unfold frameStep at h
  split at h
  · cases h
  · rename_i word hword
    simp only [frameStep, front_word_append hword more]
    split_ifs at h with hmagic
    · rw [if_pos hmagic]
      exact h
    · rw [if_neg hmagic]
      split at h
      · cases h
      · rename_i frameLen hclaimed
        simp only [claimed_length_append hclaimed more]
        split_ifs at h with hoversize hwait
        · rw [if_pos hoversize]
          exact h
        · -- the frame is complete, so the added bytes lie behind it
          have hcomplete : ¬ (buffer ++ more).length < frameLen := by
            rw [List.length_append]
            omega
          rw [if_neg hoversize, if_neg hcomplete, List.take_append_of_le_length (by omega)]
          exact h

/-- The extraction loop as an incremental consumer. -/
def frameConsumer (options : DecodeOptions) : Consumer UInt8 Delivery where
  next := frameStep options
  advances := frame_step_advances
  stable := frame_step_stable

/-! ## The parser runs the consumer -/

/-- The handler calls for one delivery. -/
def Handlers.deliver {σ : Type} (handlers : Handlers σ) : Delivery → Handlers σ
  | none => handlers
  | some result => handlers.callDecoded result

variable {σ : Type}

/-- `parser'` is `parser` some steps of the consumer later. -/
def Advances (parser parser' : StreamParser σ) : Prop :=
  ∃ outs, (frameConsumer parser.options).Reaches parser.buffer outs parser'.buffer ∧
    parser' = { parser with
      buffer := parser'.buffer
      handlers := outs.foldl Handlers.deliver parser.handlers }

/-- Discarding takes steps that deliver nothing, and stops at the magic word or short of one. -/
theorem discard_until_magic_reaches (options : DecodeOptions) (buffer : Bytes) :
    (∃ n, (frameConsumer options).Reaches buffer (List.replicate n none)
      (discardUntilMagic buffer)) ∧
      (frontWord (discardUntilMagic buffer) = none ∨
        frontWord (discardUntilMagic buffer) = some packetMagic) := by
  fun_induction discardUntilMagic buffer with
  | case1 => exact ⟨⟨0, .refl _⟩, .inl rfl⟩
  | case2 byte rest hword => exact ⟨⟨0, .refl _⟩, .inl hword⟩
  | case3 byte rest hword => exact ⟨⟨0, .refl _⟩, .inr hword⟩
  | case4 byte rest word hword hmagic ih =>
      obtain ⟨⟨n, hreaches⟩, hfront⟩ := ih
      have hstep : (frameConsumer options).next (byte :: rest) = some (1, none) := by
        show frameStep options (byte :: rest) = some (1, none)
        simp only [frameStep, hword, ne_eq, hmagic, not_false_eq_true, if_true]
      exact ⟨⟨n + 1, .step hstep hreaches⟩, hfront⟩

/-- Discarded bytes call no handler. -/
theorem deliver_replicate_none (handlers : Handlers σ) (n : Nat) :
    (List.replicate n none).foldl Handlers.deliver handlers = handlers := by
  induction n with
  | zero => rfl
  | succ n ih => exact ih

/-- Behind a claimed length there is a front word. -/
theorem front_word_of_claimed {buffer : Bytes} {frameLen : Nat}
    (h : claimedLength buffer = some frameLen) : ∃ word, frontWord buffer = some word := by
  have hlength := (claimed_length_bounds h).1
  unfold frontWord
  split
  · exact ⟨_, rfl⟩
  · rename_i hshort
    match buffer, hlength with
    | b0 :: b1 :: b2 :: b3 :: rest, _ => exact (hshort b0 b1 b2 b3 rest rfl).elim

/-- The consumer waits where discarding stopped and no length is there. -/
theorem frame_step_of_unclaimed (options : DecodeOptions) {buffer : Bytes}
    (hfront : frontWord buffer = none ∨ frontWord buffer = some packetMagic)
    (hclaimed : claimedLength buffer = none) : frameStep options buffer = none := by
  rcases hfront with hnone | hmagic
  · simp only [frameStep, hnone]
  · simp only [frameStep, hmagic, hclaimed, ne_eq, not_true_eq_false, if_false]

/-- The step at a header. -/
theorem frame_step_of_claimed (options : DecodeOptions) {buffer : Bytes} {frameLen : Nat}
    (hfront : frontWord buffer = some packetMagic)
    (hclaimed : claimedLength buffer = some frameLen) :
    frameStep options buffer =
      if frameLen > options.maxPacketSize then some (1, some (.error oversizeError))
      else if buffer.length < frameLen then none
      else some (frameLen, some (decodePacket (buffer.take frameLen) options)) := by
  simp only [frameStep, hfront, hclaimed, ne_eq, not_true_eq_false, if_false]

/-- The extraction behind the discarding is at most one step, and stops where the consumer
waits. -/
theorem extract_at_advances (parser : StreamParser σ) {buffer : Bytes}
    (hfront : frontWord buffer = none ∨ frontWord buffer = some packetMagic) :
    Advances { parser with buffer } (extractAt parser buffer).2 ∧
      ((extractAt parser buffer).1 = false →
        (frameConsumer parser.options).next (extractAt parser buffer).2.buffer = none) := by
  unfold extractAt
  split
  · rename_i hclaimed
    exact ⟨⟨[], .refl _, rfl⟩, fun _ => frame_step_of_unclaimed _ hfront hclaimed⟩
  · rename_i frameLen hclaimed
    obtain ⟨word, hword⟩ := front_word_of_claimed hclaimed
    have hmagic : frontWord buffer = some packetMagic := by
      rcases hfront with hnone | hmagic
      · rw [hnone] at hword
        cases hword
      · exact hmagic
    have hstep := frame_step_of_claimed parser.options hmagic hclaimed
    split_ifs with hoversize hwait
    · rw [if_pos hoversize] at hstep
      exact ⟨⟨_, .step hstep (.refl _), rfl⟩, fun h => by cases h⟩
    · rw [if_neg hoversize, if_pos hwait] at hstep
      exact ⟨⟨[], .refl _, rfl⟩, fun _ => hstep⟩
    · rw [if_neg hoversize, if_neg hwait] at hstep
      exact ⟨⟨_, .step hstep (.refl _), rfl⟩, fun h => by cases h⟩

/-- The options never change. -/
theorem Advances.options_eq {parser parser' : StreamParser σ} (h : Advances parser parser') :
    parser'.options = parser.options := by
  obtain ⟨_, _, h⟩ := h
  rw [h]

/-- What advances in two parts advances. -/
theorem Advances.trans {first second third : StreamParser σ} (h : Advances first second)
    (h' : Advances second third) : Advances first third := by
  have hoptions := h.options_eq
  obtain ⟨outs, hreaches, hsecond⟩ := h
  obtain ⟨more, hreaches', hthird⟩ := h'
  have hhandlers : second.handlers = outs.foldl Handlers.deliver first.handlers := by rw [hsecond]
  rw [hoptions] at hreaches'
  refine ⟨outs ++ more, hreaches.trans hreaches', ?_⟩
  rw [List.foldl_append, ← hhandlers, ← hoptions]
  exact hthird

/-- One pass of the loop is some steps of the consumer, and stops where the consumer waits. -/
theorem try_extract_one_advances (parser : StreamParser σ) :
    Advances parser (tryExtractOne parser).2 ∧
      ((tryExtractOne parser).1 = false →
        (frameConsumer parser.options).next (tryExtractOne parser).2.buffer = none) := by
  obtain ⟨⟨n, hdiscard⟩, hfront⟩ := discard_until_magic_reaches parser.options parser.buffer
  obtain ⟨hextract, hwaits⟩ := extract_at_advances parser hfront
  refine ⟨Advances.trans ⟨_, hdiscard, ?_⟩ hextract, hwaits⟩
  rw [deliver_replicate_none]

/-- The loop runs the consumer until it waits. -/
theorem extract_all_advances (parser : StreamParser σ) :
    Advances parser (extractAll parser) ∧
      (frameConsumer parser.options).next (extractAll parser).buffer = none := by
  fun_induction extractAll parser with
  | case1 parser parser' hpass ih =>
      have hadvances := (try_extract_one_advances parser).1
      rw [hpass] at hadvances
      rw [show parser'.options = parser.options from hadvances.options_eq] at ih
      exact ⟨hadvances.trans ih.1, ih.2⟩
  | case2 parser parser' hpass =>
      have hadvances := try_extract_one_advances parser
      rw [hpass] at hadvances
      exact ⟨hadvances.1, hadvances.2 rfl⟩

/-- `push` runs the consumer over the buffer with the new bytes behind it. -/
theorem push_eq_run (parser : StreamParser σ) (data : Bytes) :
    push parser data = { parser with
      buffer := ((frameConsumer parser.options).run (parser.buffer ++ data)).2
      handlers := ((frameConsumer parser.options).run (parser.buffer ++ data)).1.foldl
        Handlers.deliver parser.handlers } := by
  obtain ⟨⟨outs, hreaches, hparser⟩, hwaits⟩ :=
    extract_all_advances { parser with buffer := parser.buffer ++ data }
  have hrun := hreaches.run_eq
  rw [Consumer.run_of_waits hwaits, List.append_nil] at hrun
  rw [show push parser data = extractAll { parser with buffer := parser.buffer ++ data } from rfl,
    hparser, hrun]

/-! ## Chunks -/

/-- Two pushes are one push of both chunks, from any buffer. -/
theorem push_append (parser : StreamParser σ) (first second : Bytes) :
    push (push parser first) second = push parser (first ++ second) := by
  simp only [push_eq_run, ← List.append_assoc, Consumer.run_append (parser.buffer ++ first),
    List.foldl_append]

/-- Nothing happens on an empty push into an empty buffer. -/
theorem push_nil_of_empty (parser : StreamParser σ) (h : parser.buffer = []) :
    push parser [] = parser := by
  have hrun : (frameConsumer parser.options).run [] = ([], []) := Consumer.run_of_waits rfl
  rw [push_eq_run, h, List.append_nil, hrun, ← h]
  rfl

/-- Chunks pushed after a first one are pushed with it. -/
theorem foldl_push (parser : StreamParser σ) (first : Bytes) (chunks : List Bytes) :
    chunks.foldl push (push parser first) = push parser (first ++ chunks.flatten) := by
  induction chunks generalizing first with
  | nil => rw [List.foldl_nil, List.flatten_nil, List.append_nil]
  | cons chunk chunks ih =>
      rw [List.foldl_cons, push_append, ih, List.flatten_cons, List.append_assoc]

/-- Chunks pushed into an empty buffer are pushed at once. -/
theorem foldl_push_of_empty (parser : StreamParser σ) (h : parser.buffer = [])
    (chunks : List Bytes) : chunks.foldl push parser = push parser chunks.flatten := by
  cases chunks with
  | nil => exact (push_nil_of_empty parser h).symm
  | cons chunk chunks =>
      rw [List.foldl_cons, foldl_push, List.flatten_cons]

/-- The chunks a stream arrives in change neither the handler calls nor the remaining buffer:
from an empty buffer any chunks act as one push of the whole string, and from any buffer two
pushes act as one. -/
theorem push_chunks (parser : StreamParser σ) :
    (∀ chunks : List Bytes,
      chunks.foldl push (clear parser) = push (clear parser) chunks.flatten) ∧
      ∀ first second : Bytes, push (push parser first) second = push parser (first ++ second) :=
  ⟨foldl_push_of_empty (clear parser) rfl, push_append parser⟩

end Aethon.Stream
