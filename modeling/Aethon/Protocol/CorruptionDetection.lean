import Aethon.Codec.Crc
import Aethon.Protocol.PacketDecode

/-!
# Corruption of a frame

`corruption_detected`: damage to at most four consecutive bytes of a frame, wherever they lie, is
rejected. Nothing depends on which field is hit, since an accepted frame is its checksummed bytes
with their checksum behind them.
-/

namespace Aethon.Protocol

open Codec LittleEndian

/-- A frame differs from the damaged one at most in the four bytes from `start` on. -/
def DiffersWithin (start : Nat) (frame damaged : Bytes) : Prop :=
  damaged.length = frame.length ∧
    ∀ i, i < start ∨ start + 4 ≤ i → damaged[i]? = frame[i]?

/-- A frame is the bytes before the window, the window, and the bytes behind it. -/
theorem window_split (start : Nat) (frame : Bytes) :
    frame.take start ++ (frame.drop start).take 4 ++ frame.drop (start + 4) = frame := by
  rw [List.append_assoc, ← List.drop_drop, List.take_append_drop, List.take_append_drop]

/-- Frames that differ in a window agree in front of it and behind it. -/
theorem DiffersWithin.take_drop {start : Nat} {frame damaged : Bytes}
    (h : DiffersWithin start frame damaged) :
    damaged.take start = frame.take start ∧
      damaged.drop (start + 4) = frame.drop (start + 4) := by
  constructor
  · apply List.ext_getElem?
    intro i
    by_cases hi : i < start
    · rw [List.getElem?_take_of_lt hi, List.getElem?_take_of_lt hi]
      exact h.2 i (.inl hi)
    · rw [List.getElem?_take_eq_none (by omega), List.getElem?_take_eq_none (by omega)]
  · apply List.ext_getElem?
    intro i
    rw [List.getElem?_drop, List.getElem?_drop]
    exact h.2 _ (.inr (by omega))

/-- Behind some bytes in front of the window the damage is as far from the front. -/
theorem DiffersWithin.drop {start n : Nat} {frame damaged : Bytes}
    (h : DiffersWithin start frame damaged) (hn : n ≤ start) :
    DiffersWithin (start - n) (frame.drop n) (damaged.drop n) := by
  refine ⟨by rw [List.length_drop, List.length_drop, h.1], fun i hi => ?_⟩
  rw [List.getElem?_drop, List.getElem?_drop]
  exact h.2 _ (by omega)

/-- A frame that is accepted is never accepted after damage to a window of four bytes. -/
theorem corruption_detected {options : DecodeOptions} {frame damaged : Bytes} {packet : Packet}
    {start : Nat} (h : decodePacket frame options = .ok packet)
    (hwindow : DiffersWithin start frame damaged) (hdiffers : damaged ≠ frame) :
    ∃ failure, decodePacket damaged options = .error failure := by
  cases hdamaged : decodePacket damaged options with
  | error failure => exact ⟨failure, rfl⟩
  | ok packet' =>
      obtain ⟨sections, hframe, -⟩ := decode_packet_ok_iff.mp h
      obtain ⟨sections', hframe', -⟩ := decode_packet_ok_iff.mp hdamaged
      obtain ⟨hfront, hbehind⟩ := hwindow.take_drop
      have hsplit := window_split start frame
      have hsplit' := window_split start damaged
      rw [hfront, hbehind] at hsplit'
      have hsame := crc32c_detects_window (hsplit.trans hframe) (hsplit'.trans hframe')
        (by simp [hwindow.1]) (List.length_take_le 4 _)
      rw [← hsame, hsplit] at hsplit'
      exact absurd hsplit'.symm hdiffers

/-- An empty observation, damaged in two bytes of its payload length and in two of its checksum. -/
theorem corruption_detected_straddling :
    let packet : Packet := {}
    let frame := frameWire (packet.bodyWire [0])
    let damaged := frame.take 39 ++ [1, 0, 0, 0] ++ frame.drop 43
    ∃ failure, decodePacket damaged = .error failure := by
  intro packet frame damaged
  have hlength : frame.length = 45 := by decide +kernel
  have hlength' : damaged.length = 45 := by decide +kernel
  have haccepted : decodePacket frame = .ok packet := by decide +kernel
  have hinside : ∀ i < 45, i < 39 ∨ 39 + 4 ≤ i → damaged[i]? = frame[i]? := by decide +kernel
  refine corruption_detected haccepted (⟨hlength'.trans hlength.symm, fun i hi => ?_⟩ :
    DiffersWithin 39 frame damaged) (by decide +kernel)
  by_cases hbound : i < 45
  · exact hinside i hbound hi
  · rw [List.getElem?_eq_none (by omega), List.getElem?_eq_none (by omega)]

end Aethon.Protocol
