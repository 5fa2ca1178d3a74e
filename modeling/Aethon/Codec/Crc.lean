import Aethon.Common.Error
import Aethon.Foundation.ShiftRegister

/-!
# The CRC32C checksum

`codec::crc32c`, bit by bit in reflected order. Frames and archive records carry it behind the
bytes it covers, so a checksum is recomputed and compared on every read.

`crc32cByte` is the shift register of the polynomial `0x82f63b78` (`crc32c_byte_absorb`). A byte
string followed by its checksum leaves the same register whatever the string is
(`residue_of_checksum`), which is how `crc32c_detects_window` compares two such strings without
looking at where the checksum begins.
-/

namespace Aethon.Codec

/-- One bit of the division: shift, and subtract the polynomial when a one falls out. -/
def crc32cBit (crc : UInt32) : UInt32 :=
  (crc >>> 1) ^^^ (0x82f63b78 &&& (0 - (crc &&& 1)))

/-- One byte of the division. -/
def crc32cByte (crc : UInt32) (byte : UInt8) : UInt32 :=
  (List.range 8).foldl (fun crc _ => crc32cBit crc) (crc ^^^ byte.toUInt32)

/-- The checksum of bytes, each taken into a register that starts with the complement of the seed.
-/
def crc32c (data : Bytes) (seed : UInt32 := 0xffffffff) : UInt32 :=
  ~~~ data.foldl crc32cByte (~~~ seed)

/-- Seed zero starts the register at all ones and gives the standard check value of the string
`123456789`. The default seed starts it at zero. -/
example : crc32c [0x31, 0x32, 0x33, 0x34, 0x35, 0x36, 0x37, 0x38, 0x39] 0 = 0xe3069283 := by
  decide +kernel

/-! ## The shift register -/

open ShiftRegister LittleEndian

/-- The CRC32C polynomial in reflected order. -/
def crc32cPolynomial : BitVec 32 :=
  0x82f63b78#32

/-- The source masks the polynomial with the negated low bit. -/
theorem crc32c_bit_step (crc : UInt32) :
    (crc32cBit crc).toBitVec = step crc32cPolynomial crc.toBitVec := by
  have hmask : (crc32cPolynomial &&& (0#32 - (crc.toBitVec &&& 1#32))) =
      if crc.toBitVec.getLsbD 0 then crc32cPolynomial else 0 := by
    rw [BitVec.and_one_eq_setWidth_ofBool_getLsbD]
    cases crc.toBitVec.getLsbD 0 <;> decide
  rw [step, ← hmask]
  rfl

/-- A byte goes into the checksum as into a shift register. -/
theorem crc32c_byte_absorb (crc : UInt32) (byte : UInt8) :
    (crc32cByte crc byte).toBitVec = absorb crc32cPolynomial crc.toBitVec byte := by
  have hsteps (n : Nat) (crc : UInt32) :
      ((List.range n).foldl (fun crc _ => crc32cBit crc) crc).toBitVec =
        (step crc32cPolynomial)^[n] crc.toBitVec := by
    induction n with
    | zero => rfl
    | succ n ih =>
        rw [List.range_succ, List.foldl_append, Function.iterate_succ_apply', ← ih]
        exact crc32c_bit_step _
  exact hsteps 8 (crc ^^^ byte.toUInt32)

/-- Bytes go into the checksum as into a shift register. -/
theorem foldl_crc32c_byte (data : Bytes) (crc : UInt32) :
    (data.foldl crc32cByte crc).toBitVec =
      data.foldl (absorb crc32cPolynomial) crc.toBitVec := by
  induction data generalizing crc with
  | nil => rfl
  | cons byte data ih => rw [List.foldl_cons, List.foldl_cons, ih, crc32c_byte_absorb]

/-- The default seed starts the register at zero. -/
theorem crc32c_default (data : Bytes) :
    (crc32c data).toBitVec = ~~~ data.foldl (absorb crc32cPolynomial) 0 := by
  have := foldl_crc32c_byte data 0
  rw [UInt32.toBitVec_zero] at this
  rw [crc32c, UInt32.toBitVec_not, show ~~~ (0xffffffff : UInt32) = 0 by decide, this]
  rfl

/-- A byte string followed by its checksum always leaves the same register. -/
theorem residue_of_checksum (data : Bytes) :
    (data ++ digits 4 (crc32c data).toNat).foldl (absorb crc32cPolynomial) 0 =
      (step crc32cPolynomial)^[32] (BitVec.allOnes 32) := by
  have hword : word (digits 4 (crc32c data).toNat) = (crc32c data).toBitVec := by
    rw [word, value_digits (crc32c data).toNat_lt]
    exact BitVec.ofNat_toNat _ _
  rw [List.foldl_append, absorb_word (by simp), hword, crc32c_default, length_digits]
  generalize data.foldl (absorb crc32cPolynomial) 0 = register
  congr 1
  -- the checksum is the complement of the register, so every bit of their sum is set
  rw [BitVec.not_def, BitVec.xor_comm (BitVec.allOnes 32), ← BitVec.xor_assoc, BitVec.xor_self,
    BitVec.zero_xor]

/-- Two byte strings that carry their checksums do not differ in a window of four bytes only. -/
theorem crc32c_detects_window {data data' front window window' behind : Bytes}
    (h : front ++ window ++ behind = data ++ digits 4 (crc32c data).toNat)
    (h' : front ++ window' ++ behind = data' ++ digits 4 (crc32c data').toNat)
    (hlength : window.length = window'.length) (hfour : window.length ≤ 4) :
    window = window' := by
  have hresidue : (front ++ window ++ behind).foldl (absorb crc32cPolynomial) 0 =
      (front ++ window' ++ behind).foldl (absorb crc32cPolynomial) 0 := by
    rw [h, h', residue_of_checksum, residue_of_checksum]
  exact absorb_window_injective (by decide) hlength (by omega) hresidue

end Aethon.Codec
