import Mathlib.Tactic.Common
import Mathlib.Data.Nat.Bitwise

/-!
# Little-endian byte strings

`value` reads a byte string as a natural number, least significant byte first, and
`digits width n` writes the low `width` bytes of `n`. The two are mutually inverse on byte
strings of one width (`digits_value`, `value_digits`). `or_shift` turns the bitwise
assembly of a word into the sum that `value` computes.
-/

namespace LittleEndian

/-- The number whose little-endian base-256 digits are the given bytes. -/
def value : List UInt8 → Nat
  | [] => 0
  | byte :: bytes => byte.toNat + 256 * value bytes

/-- The `width` low bytes of a number, least significant first. -/
def digits : Nat → Nat → List UInt8
  | 0, _ => []
  | width + 1, n => UInt8.ofNat (n % 256) :: digits width (n / 256)

@[simp] theorem value_nil : value [] = 0 := rfl

@[simp] theorem value_cons (byte : UInt8) (bytes : List UInt8) :
    value (byte :: bytes) = byte.toNat + 256 * value bytes := rfl

@[simp] theorem digits_zero (n : Nat) : digits 0 n = [] := rfl

theorem digits_succ (width n : Nat) :
    digits (width + 1) n = UInt8.ofNat (n % 256) :: digits width (n / 256) := rfl

@[simp] theorem length_digits (width n : Nat) : (digits width n).length = width := by
  induction width generalizing n with
  | zero => rfl
  | succ width ih => simp [digits_succ, ih]

/-- A byte string has a value below the bound of its width. -/
theorem value_lt (bytes : List UInt8) : value bytes < 256 ^ bytes.length := by
  induction bytes with
  | nil => simp
  | cons byte bytes ih =>
      have hbyte : byte.toNat < 256 := byte.toNat_lt
      rw [value_cons, List.length_cons, Nat.pow_succ']
      omega

/-- Reading the written bytes gives the number modulo `256 ^ width`. -/
theorem value_digits_mod (width n : Nat) : value (digits width n) = n % 256 ^ width := by
  induction width generalizing n with
  | zero => simp [Nat.mod_one]
  | succ width ih =>
      have hbyte : (UInt8.ofNat (n % 256)).toNat = n % 256 := by
        simp [UInt8.toNat_ofNat']
      rw [digits_succ, value_cons, ih, hbyte, Nat.pow_succ', Nat.mod_mul]

/-- A number that fits in `width` bytes is read back exactly. -/
theorem value_digits {width n : Nat} (h : n < 256 ^ width) : value (digits width n) = n := by
  rw [value_digits_mod, Nat.mod_eq_of_lt h]

/-- Writing the value of a byte string at its own width gives the byte string back. -/
theorem digits_value (bytes : List UInt8) : digits bytes.length (value bytes) = bytes := by
  induction bytes with
  | nil => rfl
  | cons byte bytes ih =>
      have hbyte : byte.toNat < 256 := byte.toNat_lt
      have hlow : (byte.toNat + 256 * value bytes) % 256 = byte.toNat := by omega
      have hhigh : (byte.toNat + 256 * value bytes) / 256 = value bytes := by omega
      rw [List.length_cons, digits_succ, value_cons, hlow, hhigh, ih, UInt8.ofNat_toNat]

/-- The low bytes only see the number modulo `256 ^ width`. -/
theorem digits_mod (width n : Nat) : digits width (n % 256 ^ width) = digits width n := by
  have h := digits_value (digits width n)
  rwa [length_digits, value_digits_mod] at h

@[simp] theorem digits_two_mod (n : Nat) : digits 2 (n % 65536) = digits 2 n :=
  digits_mod 2 n

@[simp] theorem digits_four_mod (n : Nat) : digits 4 (n % 4294967296) = digits 4 n :=
  digits_mod 4 n

/-- A byte string begins with the digits of a number exactly when it has the number's value. -/
theorem append_eq_digits_append (bytes tail rest : List UInt8) (n : Nat)
    (h : n < 256 ^ bytes.length) :
    bytes ++ tail = digits bytes.length n ++ rest ↔ value bytes = n ∧ tail = rest := by
  constructor
  · intro happend
    obtain ⟨hbytes, htail⟩ := List.append_inj happend (by simp)
    exact ⟨by rw [hbytes, value_digits h], htail⟩
  · intro hequal
    obtain ⟨rfl, rfl⟩ := hequal
    rw [digits_value]

/-- The byte at index `i` is the `i`-th base-256 digit. -/
theorem digits_eq_map (width n : Nat) :
    digits width n = (List.range width).map fun i => UInt8.ofNat (n / 256 ^ i % 256) := by
  induction width generalizing n with
  | zero => rfl
  | succ width ih =>
      rw [digits_succ, ih, List.range_succ_eq_map, List.map_cons, List.map_map]
      simp only [Nat.pow_zero, Nat.div_one, Function.comp_def, Nat.pow_succ',
        Nat.div_div_eq_div_mul]

/-- Setting the bits above `shift` in a number below `2 ^ shift` is an addition. -/
theorem or_shift {low shift : Nat} (high : Nat) (h : low < 2 ^ shift) :
    low ||| high <<< shift = low + high * 2 ^ shift := by
  rw [Nat.or_comm, ← Nat.shiftLeft_add_eq_or_of_lt h, Nat.shiftLeft_eq, Nat.add_comm]

end LittleEndian
