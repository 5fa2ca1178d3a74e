import Aethon.Common.Error
import Aethon.Foundation.LittleEndian
import Aethon.Foundation.Parsing

/-!
# The binary writer

`codec::BinaryWriter` appends to its buffer. A word is written byte by byte, least significant
first; `buffer_u16` to `buffer_string` say which bytes each write adds.
-/

namespace Aethon.Codec

open LittleEndian

/-- A writer is the buffer written so far. -/
@[ext]
structure BinaryWriter where
  buffer : Bytes := []
  deriving DecidableEq, Repr

namespace BinaryWriter

/-- Write one byte. -/
def u8 (w : BinaryWriter) (value : UInt8) : BinaryWriter :=
  { w with buffer := w.buffer ++ [value] }

/-- Write two bytes, the lower one first. -/
def u16 (w : BinaryWriter) (value : UInt16) : BinaryWriter :=
  (w.u8 (value &&& 0xff).toUInt8).u8 ((value >>> 8) &&& 0xff).toUInt8

/-- Write four bytes, the lowest one first. -/
def u32 (w : BinaryWriter) (value : UInt32) : BinaryWriter :=
  (List.range 4).foldl (fun w i => w.u8 ((value >>> UInt32.ofNat (8 * i)) &&& 0xff).toUInt8) w

/-- Write eight bytes, the lowest one first. -/
def u64 (w : BinaryWriter) (value : UInt64) : BinaryWriter :=
  (List.range 8).foldl (fun w i => w.u8 ((value >>> UInt64.ofNat (8 * i)) &&& 0xff).toUInt8) w

/-- Write bytes as they are. -/
def bytes (w : BinaryWriter) (value : Bytes) : BinaryWriter :=
  { w with buffer := w.buffer ++ value }

/-- Write a 16-bit length and the bytes of a string, refusing one that needs a wider length. -/
def string (w : BinaryWriter) (value : Bytes) : Except Error BinaryWriter :=
  if value.length > 65535 then .error ⟨.invalidArgument, "wire string is too large"⟩
  else .ok ((w.u16 (UInt16.ofNat value.length)).bytes value)

/-! ## The bytes each write adds -/

@[simp] theorem buffer_u8 (w : BinaryWriter) (value : UInt8) :
    (w.u8 value).buffer = w.buffer ++ [value] := rfl

@[simp] theorem buffer_bytes (w : BinaryWriter) (value : Bytes) :
    (w.bytes value).buffer = w.buffer ++ value := rfl

/-- A loop of single-byte writes adds the bytes in order. -/
theorem buffer_foldl_u8 (byteAt : Nat → UInt8) (indices : List Nat) (w : BinaryWriter) :
    (indices.foldl (fun w i => w.u8 (byteAt i)) w).buffer = w.buffer ++ indices.map byteAt := by
  induction indices generalizing w with
  | nil => simp
  | cons i indices ih => simp [ih]

/-- A byte that has the value of a number's low byte is that low byte. -/
private theorem eq_ofNat_mod {b : UInt8} {n : Nat} (h : b.toNat = n % 256) :
    b = UInt8.ofNat (n % 256) := by
  rw [← h, UInt8.ofNat_toNat]

@[simp] theorem buffer_u16 (w : BinaryWriter) (value : UInt16) :
    (w.u16 value).buffer = w.buffer ++ digits 2 value.toNat := by
  simp only [u16, buffer_u8, List.append_assoc, List.cons_append, List.nil_append, digits_succ,
    digits_zero, List.append_cancel_left_eq, List.cons.injEq, and_true]
  constructor <;> apply eq_ofNat_mod <;>
    simp [Nat.shiftRight_eq_div_pow, Nat.and_two_pow_sub_one_eq_mod _ 8]

@[simp] theorem buffer_u32 (w : BinaryWriter) (value : UInt32) :
    (w.u32 value).buffer = w.buffer ++ digits 4 value.toNat := by
  rw [u32, buffer_foldl_u8, digits_eq_map]
  refine congrArg (w.buffer ++ ·) (List.map_congr_left fun i hi => eq_ofNat_mod ?_)
  have hshift : 8 * i < 32 := by have := List.mem_range.mp hi; omega
  have hpow : 256 ^ i = 2 ^ (8 * i) := by rw [Nat.pow_mul]
  simp [Nat.shiftRight_eq_div_pow, Nat.and_two_pow_sub_one_eq_mod _ 8, hpow,
    Nat.mod_eq_of_lt hshift]

@[simp] theorem buffer_u64 (w : BinaryWriter) (value : UInt64) :
    (w.u64 value).buffer = w.buffer ++ digits 8 value.toNat := by
  rw [u64, buffer_foldl_u8, digits_eq_map]
  refine congrArg (w.buffer ++ ·) (List.map_congr_left fun i hi => eq_ofNat_mod ?_)
  have hshift : 8 * i < 64 := by have := List.mem_range.mp hi; omega
  have hpow : 256 ^ i = 2 ^ (8 * i) := by rw [Nat.pow_mul]
  simp [Nat.shiftRight_eq_div_pow, Nat.and_two_pow_sub_one_eq_mod _ 8, hpow,
    Nat.mod_eq_of_lt hshift]

/-- Writing a list of values, each of which is refused or appended, appends them all in order
or refuses one. -/
theorem foldlM_ok_iff {α : Type} {write : BinaryWriter → α → Except Error BinaryWriter}
    {encode : α → Bytes} {good : α → Prop}
    (hwrite : ∀ w a w', write w a = .ok w' ↔ good a ∧ w' = ⟨w.buffer ++ encode a⟩)
    (items : List α) (w w' : BinaryWriter) :
    items.foldlM write w = .ok w' ↔
      (∀ a ∈ items, good a) ∧ w' = ⟨w.buffer ++ items.flatMap encode⟩ := by
  induction items generalizing w with
  | nil =>
      rw [List.foldlM_nil, Parsing.except_pure_ok_iff, eq_comm]
      simp
  | cons a items ih =>
      simp only [List.foldlM_cons, Parsing.except_bind_ok_iff, hwrite, ih]
      constructor
      · intro h
        obtain ⟨_, ⟨ha, rfl⟩, hitems, rfl⟩ := h
        exact ⟨by simpa using ⟨ha, hitems⟩, by simp⟩
      · intro h
        obtain ⟨hall, rfl⟩ := h
        exact ⟨_, ⟨hall a (by simp), rfl⟩, fun b hb => hall b (by simp [hb]), by simp⟩

/-- A loop of 16-bit writes appends the words in order. -/
theorem buffer_foldl_u16 (values : List UInt16) (w : BinaryWriter) :
    (values.foldl u16 w).buffer = w.buffer ++ values.flatMap fun v => digits 2 v.toNat := by
  induction values generalizing w with
  | nil => simp
  | cons v values ih => simp [ih]

/-- A string write succeeds when the length fits in 16 bits, and adds the length and the
bytes. -/
theorem string_ok_iff {w w' : BinaryWriter} {value : Bytes} :
    w.string value = .ok w' ↔
      value.length < 2 ^ 16 ∧ w' = ⟨w.buffer ++ digits 2 value.length ++ value⟩ := by
  unfold string
  split
  · rename_i hlong
    simp only [reduceCtorEq, false_iff, not_and]
    omega
  · rename_i hshort
    have hlength : value.length < 2 ^ 16 := by omega
    have hn : (UInt16.ofNat value.length).toNat = value.length := Nat.mod_eq_of_lt hlength
    have hbuffer : (w.u16 (UInt16.ofNat value.length)).bytes value =
        ⟨w.buffer ++ digits 2 value.length ++ value⟩ := by
      rw [bytes, buffer_u16, hn]
    rw [hbuffer, Except.ok.injEq]
    exact ⟨fun h => ⟨hlength, h.symm⟩, fun h => h.2.symm⟩

end BinaryWriter

end Aethon.Codec
