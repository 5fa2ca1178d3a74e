import Aethon.Common.Error
import Aethon.Foundation.LittleEndian
import Aethon.Foundation.Parsing

/-!
# The binary reader

`codec::BinaryReader` over the unread bytes of its span. Every read checks that enough bytes
remain, so a read either returns a value and the shorter rest or throws `eof`. Each read is
exact: `u8_exact` to `string_exact` name the byte strings it accepts.
-/

namespace Aethon.Codec

open LittleEndian Parsing

/-- A computation over the unread bytes of a reader. -/
abbrev BinaryReader (α : Type) := Parser Error UInt8 α

namespace BinaryReader

/-- The exception of `BinaryReader::require`. -/
def endOfInput : Error := ⟨.eof, "binary reader reached end of input"⟩

/-- The 16-bit word of two bytes. -/
def word16 (b0 b1 : UInt8) : UInt16 :=
  b0.toUInt16 ||| (b1.toUInt16 <<< 8)

/-- The 32-bit word of four bytes. The stream parser and the repair scanner assemble their
words by the same expression. -/
def word32 (b0 b1 b2 b3 : UInt8) : UInt32 :=
  b0.toUInt32 ||| (b1.toUInt32 <<< 8) ||| (b2.toUInt32 <<< 16) ||| (b3.toUInt32 <<< 24)

/-- The 64-bit word of eight bytes. -/
def word64 (b0 b1 b2 b3 b4 b5 b6 b7 : UInt8) : UInt64 :=
  b0.toUInt64 ||| (b1.toUInt64 <<< 8) ||| (b2.toUInt64 <<< 16) ||| (b3.toUInt64 <<< 24)
    ||| (b4.toUInt64 <<< 32) ||| (b5.toUInt64 <<< 40) ||| (b6.toUInt64 <<< 48)
    ||| (b7.toUInt64 <<< 56)

/-- Read one byte. -/
def u8 : BinaryReader UInt8
  | b0 :: rest => .ok (b0, rest)
  | _ => .error endOfInput

/-- Read two bytes, the lower one first. -/
def u16 : BinaryReader UInt16
  | b0 :: b1 :: rest => .ok (word16 b0 b1, rest)
  | _ => .error endOfInput

/-- Read four bytes, the lowest one first. -/
def u32 : BinaryReader UInt32
  | b0 :: b1 :: b2 :: b3 :: rest => .ok (word32 b0 b1 b2 b3, rest)
  | _ => .error endOfInput

/-- Read eight bytes, the lowest one first. -/
def u64 : BinaryReader UInt64
  | b0 :: b1 :: b2 :: b3 :: b4 :: b5 :: b6 :: b7 :: rest =>
      .ok (word64 b0 b1 b2 b3 b4 b5 b6 b7, rest)
  | _ => .error endOfInput

/-- Read `n` raw bytes. -/
def bytes (n : Nat) : BinaryReader Bytes := fun unread =>
  if unread.length < n then .error endOfInput else .ok (unread.take n, unread.drop n)

/-- Read a 16-bit length and that many bytes, refusing a length above `maxLen`. -/
def string (maxLen : Nat := 4096) : BinaryReader Bytes := do
  let n ← u16
  rejectIf (n.toNat > maxLen) (Error.mk .malformedPacket "string exceeds configured limit")
  bytes n.toNat

/-! ## The words and their bytes -/

/-- A byte shifted inside a word of `width` bits loses nothing. -/
theorem byte_shift_mod {width k : Nat} (b : UInt8) (h : k + 8 ≤ width) :
    b.toNat <<< k % 2 ^ width = b.toNat <<< k := by
  have hb : b.toNat < 2 ^ 8 := b.toNat_lt
  apply Nat.mod_eq_of_lt
  calc b.toNat <<< k = b.toNat * 2 ^ k := Nat.shiftLeft_eq ..
    _ < 2 ^ 8 * 2 ^ k := Nat.mul_lt_mul_of_pos_right hb (Nat.two_pow_pos k)
    _ = 2 ^ (k + 8) := by rw [← Nat.pow_add, Nat.add_comm]
    _ ≤ 2 ^ width := Nat.pow_le_pow_right (by decide) h

/-- A word of 16 bits has the value of its bytes. -/
theorem word16_toNat (b0 b1 : UInt8) : (word16 b0 b1).toNat = value [b0, b1] := by
  have h0 := b0.toNat_lt
  simp only [word16, UInt16.toNat_or, UInt16.toNat_shiftLeft, UInt8.toNat_toUInt16,
    UInt16.reduceToNat, Nat.reduceMod]
  rw [byte_shift_mod b1 (by decide), or_shift _ h0]
  simp only [value_cons, value_nil]
  omega

/-- A word of 32 bits has the value of its bytes. -/
theorem word32_toNat (b0 b1 b2 b3 : UInt8) :
    (word32 b0 b1 b2 b3).toNat = value [b0, b1, b2, b3] := by
  have h0 := b0.toNat_lt
  have h1 := b1.toNat_lt
  have h2 := b2.toNat_lt
  simp only [word32, UInt32.toNat_or, UInt32.toNat_shiftLeft, UInt8.toNat_toUInt32,
    UInt32.reduceToNat, Nat.reduceMod]
  rw [byte_shift_mod b1 (by decide), byte_shift_mod b2 (by decide),
    byte_shift_mod b3 (by decide), or_shift b1.toNat h0, or_shift b2.toNat (by omega),
    or_shift b3.toNat (by omega)]
  simp only [value_cons, value_nil]
  omega

/-- A word of 64 bits has the value of its bytes. -/
theorem word64_toNat (b0 b1 b2 b3 b4 b5 b6 b7 : UInt8) :
    (word64 b0 b1 b2 b3 b4 b5 b6 b7).toNat = value [b0, b1, b2, b3, b4, b5, b6, b7] := by
  have h0 := b0.toNat_lt
  have h1 := b1.toNat_lt
  have h2 := b2.toNat_lt
  have h3 := b3.toNat_lt
  have h4 := b4.toNat_lt
  have h5 := b5.toNat_lt
  have h6 := b6.toNat_lt
  simp only [word64, UInt64.toNat_or, UInt64.toNat_shiftLeft, UInt8.toNat_toUInt64,
    UInt64.reduceToNat, Nat.reduceMod]
  rw [byte_shift_mod b1 (by decide), byte_shift_mod b2 (by decide),
    byte_shift_mod b3 (by decide), byte_shift_mod b4 (by decide),
    byte_shift_mod b5 (by decide), byte_shift_mod b6 (by decide),
    byte_shift_mod b7 (by decide), or_shift b1.toNat h0, or_shift b2.toNat (by omega),
    or_shift b3.toNat (by omega), or_shift b4.toNat (by omega), or_shift b5.toNat (by omega),
    or_shift b6.toNat (by omega), or_shift b7.toNat (by omega)]
  simp only [value_cons, value_nil]
  omega

/-! ## What each read accepts -/

theorem u8_exact : Exact u8 (fun v => [v]) (fun _ => True) := by
  refine ⟨fun input rest v => ?_⟩
  match input with
  | [] => simp [u8]
  | b0 :: tail => simp [u8]

/-- A word of 16 bits is read from exactly its digits. -/
theorem u16_exact : Exact u16 (fun v => digits 2 v.toNat) (fun _ => True) := by
  refine ⟨fun input rest v => ?_⟩
  match input with
  | [] | [_] => simp [u16, digits_succ]
  | b0 :: b1 :: tail =>
      have h := append_eq_digits_append [b0, b1] tail rest v.toNat
        (by simpa using v.toNat_lt)
      rw [← word16_toNat, UInt16.toNat_inj] at h
      simp only [u16, Except.ok.injEq, Prod.mk.injEq, and_true]
      exact h.symm

/-- A word of 32 bits is read from exactly its digits. -/
theorem u32_exact : Exact u32 (fun v => digits 4 v.toNat) (fun _ => True) := by
  refine ⟨fun input rest v => ?_⟩
  match input with
  | [] | [_] | [_, _] | [_, _, _] => simp [u32, digits_succ]
  | b0 :: b1 :: b2 :: b3 :: tail =>
      have h := append_eq_digits_append [b0, b1, b2, b3] tail rest v.toNat
        (by simpa using v.toNat_lt)
      rw [← word32_toNat, UInt32.toNat_inj] at h
      simp only [u32, Except.ok.injEq, Prod.mk.injEq, and_true]
      exact h.symm

/-- A word of 64 bits is read from exactly its digits. -/
theorem u64_exact : Exact u64 (fun v => digits 8 v.toNat) (fun _ => True) := by
  refine ⟨fun input rest v => ?_⟩
  match input with
  | [] | [_] | [_, _] | [_, _, _] | [_, _, _, _] | [_, _, _, _, _] | [_, _, _, _, _, _]
  | [_, _, _, _, _, _, _] => simp [u64, digits_succ]
  | b0 :: b1 :: b2 :: b3 :: b4 :: b5 :: b6 :: b7 :: tail =>
      have h := append_eq_digits_append [b0, b1, b2, b3, b4, b5, b6, b7] tail rest v.toNat
        (by simpa using v.toNat_lt)
      rw [← word64_toNat, UInt64.toNat_inj] at h
      simp only [u64, Except.ok.injEq, Prod.mk.injEq, and_true]
      exact h.symm

/-- Raw bytes are read from exactly themselves. -/
theorem bytes_exact (n : Nat) : Exact (bytes n) id (fun raw => raw.length = n) := by
  refine ⟨fun input rest raw => ?_⟩
  unfold bytes
  split
  · rename_i hshort
    simp only [reduceCtorEq, id_eq, false_iff, not_and]
    rintro rfl rfl
    rw [List.length_append] at hshort
    omega
  · rename_i hlong
    simp only [Except.ok.injEq, Prod.mk.injEq, id_eq]
    constructor
    · intro h
      obtain ⟨rfl, rfl⟩ := h
      exact ⟨(List.take_append_drop n input).symm, by simp; omega⟩
    · intro h
      obtain ⟨rfl, rfl⟩ := h
      simp

/-- Bytes behind their 16-bit length, which is refused above `maxLen`. -/
def sized (maxLen : Nat) (failure : Error) : BinaryReader Bytes := do
  let n ← u16
  rejectIf (n.toNat > maxLen) failure
  bytes n.toNat

/-- Sized bytes are their 16-bit length and the bytes, so their length also fits in 16 bits. -/
theorem sized_exact (maxLen : Nat) (failure : Error) :
    Exact (sized maxLen failure) (fun s => digits 2 s.length ++ s)
      (fun s => s.length ≤ maxLen ∧ s.length < 2 ^ 16) := by
  refine ⟨fun input rest s => ?_⟩
  simp only [sized, bind_ok_iff, u16_exact.ok_iff, rejectIf_ok_iff, (bytes_exact _).ok_iff,
    and_true, not_lt, id_eq]
  constructor
  · intro h
    obtain ⟨n, middle, rfl, u, last, ⟨hmax, rfl⟩, rfl, hlength⟩ := h
    rw [hlength]
    exact ⟨by simp, hmax, n.toNat_lt⟩
  · intro h
    obtain ⟨rfl, hmax, hwidth⟩ := h
    have hn : (UInt16.ofNat s.length).toNat = s.length := Nat.mod_eq_of_lt hwidth
    refine ⟨UInt16.ofNat s.length, s ++ rest, by simp [hn], (), s ++ rest, ?_, rfl, hn.symm⟩
    rw [hn]
    exact ⟨hmax, rfl⟩

theorem string_exact (maxLen : Nat) :
    Exact (string maxLen) (fun s => digits 2 s.length ++ s)
      (fun s => s.length ≤ maxLen ∧ s.length < 2 ^ 16) :=
  sized_exact maxLen _

end BinaryReader

end Aethon.Codec
