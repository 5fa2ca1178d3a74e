import Aethon.Foundation.Incremental
import Aethon.Protocol.Packet

/-!
# The stream parser

`stream::StreamParser` over its buffer and its two optional handlers. A handler acts on a state
of its own and may not call back into the parser. The packet handler may also throw an `Error`,
which the extraction catches and reports like a decoding error; other exceptions leave `push`
and are not modelled.

`calls` is the trace of handler calls. The parser never reads it.
-/

namespace Aethon.Stream

open Codec Protocol

/-- One call of a handler. -/
inductive Callback where
  | packet (packet : Packet)
  | error (failure : Error)
  deriving DecidableEq, Repr

/-- The registered handlers, the state they act on and the calls made so far. -/
structure Handlers (σ : Type) where
  packetHandler : Option (σ → Packet → σ × Option Error) := none
  errorHandler : Option (σ → Error → σ) := none
  world : σ
  calls : List Callback := []

namespace Handlers

variable {σ : Type}

/-- `if (error_handler_) error_handler_(e);` -/
def callError (handlers : Handlers σ) (failure : Error) : Handlers σ :=
  match handlers.errorHandler with
  | some handler =>
      { handlers with
        world := handler handlers.world failure
        calls := handlers.calls ++ [.error failure] }
  | none => handlers

/-- `if (packet_handler_) packet_handler_(packet);` inside the `try` block. -/
def callPacket (handlers : Handlers σ) (packet : Packet) : Handlers σ :=
  match handlers.packetHandler with
  | some handler =>
      let result := handler handlers.world packet
      let handlers :=
        { handlers with world := result.1, calls := handlers.calls ++ [.packet packet] }
      match result.2 with
      | some failure => handlers.callError failure
      | none => handlers
  | none => handlers

/-- The `try` block around the decoder and the packet handler. -/
def callDecoded (handlers : Handlers σ) : Except Error Packet → Handlers σ
  | .ok packet => handlers.callPacket packet
  | .error failure => handlers.callError failure

end Handlers

/-- The bytes that no packet was made of yet, and the handlers. -/
structure StreamParser (σ : Type) where
  options : DecodeOptions := {}
  buffer : Bytes := []
  handlers : Handlers σ

/-- The exception reported for a candidate whose claimed length is above the packet limit. -/
def oversizeError : Error :=
  ⟨.malformedPacket, "stream frame exceeds configured packet limit"⟩

/-- The 32-bit word at the front of a buffer that holds one. -/
def frontWord : Bytes → Option UInt32
  | b0 :: b1 :: b2 :: b3 :: _ => some (BinaryReader.word32 b0 b1 b2 b3)
  | _ => none

/-- The frame length that the eight bytes at the front claim: the body and its envelope. -/
def claimedLength (buffer : Bytes) : Option Nat :=
  (frontWord (buffer.drop 4)).map fun bodyLen => bodyLen.toNat + 12

/-- Drop bytes until the buffer starts with the magic word or is shorter than it. -/
def discardUntilMagic : Bytes → Bytes
  | [] => []
  | byte :: rest =>
      match frontWord (byte :: rest) with
      | none => byte :: rest
      | some word => if word = packetMagic then byte :: rest else discardUntilMagic rest

variable {σ : Type}

/-- The extraction at the front of a buffer that discarding has prepared: whether to go on, and
the parser after it. -/
def extractAt (parser : StreamParser σ) (buffer : Bytes) : Bool × StreamParser σ :=
  match claimedLength buffer with
  | none => (false, { parser with buffer })
  | some frameLen =>
      if frameLen > parser.options.maxPacketSize then
        (true, { parser with
          buffer := buffer.drop 1
          handlers := parser.handlers.callError oversizeError })
      else if buffer.length < frameLen then (false, { parser with buffer })
      else
        -- the whole claimed frame leaves the buffer, whether or not it decodes
        (true, { parser with
          buffer := buffer.drop frameLen
          handlers := parser.handlers.callDecoded
            (decodePacket (buffer.take frameLen) parser.options) })

/-- One pass of the extraction loop. -/
def tryExtractOne (parser : StreamParser σ) : Bool × StreamParser σ :=
  extractAt parser (discardUntilMagic parser.buffer)

/-- Discarding never lengthens the buffer. -/
theorem length_discard_until_magic_le (buffer : Bytes) :
    (discardUntilMagic buffer).length ≤ buffer.length := by
  fun_induction discardUntilMagic buffer with
  | case1 => exact Nat.le_refl _
  | case2 => exact Nat.le_refl _
  | case3 => exact Nat.le_refl _
  | case4 byte rest word _ _ ih =>
      rw [List.length_cons]
      omega

/-- A buffer with a front word holds four bytes. -/
theorem four_le_of_front_word {buffer : Bytes} {word : UInt32} (h : frontWord buffer = some word) :
    4 ≤ buffer.length := by
  unfold frontWord at h
  split at h
  · simp only [List.length_cons]
    omega
  · cases h

/-- A claimed length takes eight bytes to read and is at least the size of an envelope. -/
theorem claimed_length_bounds {buffer : Bytes} {frameLen : Nat}
    (h : claimedLength buffer = some frameLen) : 8 ≤ buffer.length ∧ 12 ≤ frameLen := by
  obtain ⟨bodyLen, hword, rfl⟩ := Option.map_eq_some_iff.mp h
  have hlength := four_le_of_front_word hword
  rw [List.length_drop] at hlength
  omega

/-- An extraction that asks for another pass has consumed something. -/
theorem extract_at_shorter {parser parser' : StreamParser σ} {buffer : Bytes}
    (h : extractAt parser buffer = (true, parser')) :
    parser'.buffer.length < buffer.length := by
  unfold extractAt at h
  split at h
  · cases h
  · rename_i frameLen hclaimed
    have hbounds := claimed_length_bounds hclaimed
    split_ifs at h
    · obtain ⟨-, rfl⟩ := Prod.mk.inj h
      show (buffer.drop 1).length < buffer.length
      rw [List.length_drop]
      omega
    · cases (Prod.mk.inj h).1
    · obtain ⟨-, rfl⟩ := Prod.mk.inj h
      show (buffer.drop frameLen).length < buffer.length
      rw [List.length_drop]
      omega

/-- `while (try_extract_one()) {}` -/
def extractAll (parser : StreamParser σ) : StreamParser σ :=
  match _h : tryExtractOne parser with
  | (true, parser') => extractAll parser'
  | (false, parser') => parser'
termination_by parser.buffer.length
decreasing_by
  have hshorter := extract_at_shorter _h
  have hdiscard := length_discard_until_magic_le parser.buffer
  omega

/-- Take bytes behind the buffer and extract all packets that are complete. -/
def push (parser : StreamParser σ) (data : Bytes) : StreamParser σ :=
  extractAll { parser with buffer := parser.buffer ++ data }

/-- Forget the bytes of the buffer. -/
def clear (parser : StreamParser σ) : StreamParser σ :=
  { parser with buffer := [] }

/-- Set the handler of packets. -/
def onPacket (parser : StreamParser σ) (handler : Option (σ → Packet → σ × Option Error)) :
    StreamParser σ :=
  { parser with handlers := { parser.handlers with packetHandler := handler } }

/-- Set the handler of errors. -/
def onError (parser : StreamParser σ) (handler : Option (σ → Error → σ)) : StreamParser σ :=
  { parser with handlers := { parser.handlers with errorHandler := handler } }

end Aethon.Stream
