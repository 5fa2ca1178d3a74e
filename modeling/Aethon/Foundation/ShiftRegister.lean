import Aethon.Foundation.LittleEndian
import Mathlib.Logic.Function.Iterate

/-!
# Cyclic redundancy checks as linear shift registers

A reflected CRC of any width, one bit at a time. `step` is linear (`step_xor`), and injective
when the polynomial has its top coefficient (`step_injective`). Absorbing bytes that fit into the
register is shifting their number through it (`absorb_word`), so two strings of one length that
differ only in a window no wider than the register leave different registers
(`absorb_window_injective`): every such burst of errors is detected.
-/

namespace ShiftRegister

open LittleEndian

variable {w : Nat} (polynomial : BitVec w)

/-- Shift the register down by one, and subtract the polynomial when a one falls out. -/
def step (register : BitVec w) : BitVec w :=
  (register >>> 1) ^^^ (if register.getLsbD 0 then polynomial else 0)

/-- Add a byte to the low end of the register and shift it through. -/
def absorb (register : BitVec w) (byte : UInt8) : BitVec w :=
  (step polynomial)^[8] (register ^^^ byte.toBitVec.setWidth w)

/-- The number of a little-endian byte string, as the register holds it. -/
def word (bytes : List UInt8) : BitVec w :=
  BitVec.ofNat w (value bytes)

variable {polynomial}

/-! ## One step -/

/-- A step moves each bit down, and adds the polynomial when a bit falls out. -/
theorem getLsbD_step (register : BitVec w) (i : Nat) :
    (step polynomial register).getLsbD i =
      (register.getLsbD (1 + i) ^^ (register.getLsbD 0 && polynomial.getLsbD i)) := by
  unfold step
  rw [BitVec.getLsbD_xor, BitVec.getLsbD_ushiftRight]
  cases register.getLsbD 0 <;> simp

/-- A step is linear over exclusive or. -/
theorem step_xor (a b : BitVec w) :
    step polynomial (a ^^^ b) = step polynomial a ^^^ step polynomial b := by
  apply BitVec.eq_of_getLsbD_eq
  intro i _
  simp only [getLsbD_step, BitVec.getLsbD_xor]
  cases a.getLsbD 0 <;> cases b.getLsbD 0 <;> cases polynomial.getLsbD i <;> simp

/-- The bit that fell out can be read off the top of the register, so a step loses nothing. -/
theorem step_injective (htop : polynomial.getLsbD (w - 1) = true) :
    Function.Injective (step polynomial) := by
  intro a b hstep
  have hbit (i : Nat) := congrArg (fun register : BitVec w => register.getLsbD i) hstep
  simp only [getLsbD_step] at hbit
  have hwidth : 0 < w := by
    by_contra hzero
    obtain rfl : w = 0 := by omega
    simp at htop
  have hlow : a.getLsbD 0 = b.getLsbD 0 := by
    have := hbit (w - 1)
    rw [htop, BitVec.getLsbD_of_ge a _ (by omega), BitVec.getLsbD_of_ge b _ (by omega)] at this
    simpa using this
  apply BitVec.eq_of_getLsbD_eq
  intro i _
  cases i with
  | zero => exact hlow
  | succ i =>
      have := hbit i
      rw [hlow, Bool.xor_left_inj] at this
      rwa [Nat.add_comm] at this

/-- A zero falls out of a number that was shifted up. -/
theorem step_shiftLeft_one {number : BitVec w} (h : number.getLsbD (w - 1) = false) :
    step polynomial (number <<< 1) = number := by
  apply BitVec.eq_of_getLsbD_eq
  intro i hi
  rw [getLsbD_step]
  by_cases hlast : i = w - 1
  · subst hlast
    simp [h]
  · have : 1 + i < w := by omega
    simp [this, BitVec.getLsbD_eq_getElem hi]

/-! ## Many steps -/

theorem iterate_step_xor (n : Nat) (a b : BitVec w) :
    (step polynomial)^[n] (a ^^^ b) = (step polynomial)^[n] a ^^^ (step polynomial)^[n] b := by
  induction n generalizing a b with
  | zero => rfl
  | succ n ih => rw [Function.iterate_succ_apply, step_xor, ih]; rfl

/-- Steps undo a shift whose number stays within the register. -/
theorem iterate_step_shiftLeft (n : Nat) {number : BitVec w}
    (h : ∀ i, w ≤ i + n → number.getLsbD i = false) :
    (step polynomial)^[n] (number <<< n) = number := by
  induction n with
  | zero => simp
  | succ n ih =>
      rw [BitVec.shiftLeft_add, Function.iterate_succ_apply, step_shiftLeft_one]
      · exact ih fun i hi => h i (by omega)
      · rw [BitVec.getLsbD_shiftLeft]
        by_cases hfar : w - 1 < n
        · simp [hfar]
        · rw [h _ (by omega)]
          simp

/-! ## Bytes as a number -/

theorem word_cons (byte : UInt8) (bytes : List UInt8) :
    (word (byte :: bytes) : BitVec w) = byte.toBitVec.setWidth w ^^^ (word bytes <<< 8) := by
  apply BitVec.eq_of_getLsbD_eq
  intro i hi
  have hbyte : byte.toNat < 2 ^ 8 := byte.toNat_lt
  have hvalue : (value (byte :: bytes)).testBit i =
      if i < 8 then byte.toNat.testBit i else (value bytes).testBit (i - 8) := by
    rw [value_cons, Nat.add_comm]
    exact Nat.testBit_two_pow_mul_add _ hbyte i
  simp only [word, BitVec.getLsbD_ofNat, BitVec.getLsbD_xor, BitVec.getLsbD_setWidth,
    BitVec.getLsbD_shiftLeft, hvalue, hi, decide_true, Bool.true_and]
  by_cases hlow : i < 8
  · simp [hlow, BitVec.getLsbD]
  · have hnone : byte.toBitVec.getLsbD i = false := BitVec.getLsbD_of_ge _ _ (by omega)
    simp [hlow, hnone, show i - 8 < w by omega]

/-- The value of `n` bits is below `2 ^ n`. -/
theorem value_lt_two_pow {bytes : List UInt8} {n : Nat} (h : 8 * bytes.length ≤ n) :
    value bytes < 2 ^ n := by
  have hbound : 256 ^ bytes.length ≤ 2 ^ n := by
    rw [show 256 = 2 ^ 8 by rfl, ← Nat.pow_mul]
    exact Nat.pow_le_pow_right (by decide) h
  exact (value_lt bytes).trans_le hbound

theorem getLsbD_word_of_ge {bytes : List UInt8} {i : Nat} (h : 8 * bytes.length ≤ i) :
    (word bytes : BitVec w).getLsbD i = false := by
  rw [word, BitVec.getLsbD_ofNat, Nat.testBit_lt_two_pow (value_lt_two_pow h), Bool.and_false]

/-- Bytes that fit into the register are determined by their number. -/
theorem word_injective {bytes bytes' : List UInt8} (hlength : bytes.length = bytes'.length)
    (hfits : 8 * bytes.length ≤ w) (hword : (word bytes : BitVec w) = word bytes') :
    bytes = bytes' := by
  have hfits' : 8 * bytes'.length ≤ w := by rwa [← hlength]
  have hvalue : value bytes = value bytes' := by
    have := congrArg BitVec.toNat hword
    rwa [word, word, BitVec.toNat_ofNat, BitVec.toNat_ofNat,
      Nat.mod_eq_of_lt (value_lt_two_pow hfits), Nat.mod_eq_of_lt (value_lt_two_pow hfits')]
      at this
  rw [← digits_value bytes, ← digits_value bytes', hvalue, hlength]

/-! ## Absorbing bytes -/

/-- Absorbing bytes that fit into the register is shifting their number through it. -/
theorem absorb_word {bytes : List UInt8} (hfits : 8 * bytes.length ≤ w) (register : BitVec w) :
    bytes.foldl (absorb polynomial) register =
      (step polynomial)^[8 * bytes.length] (register ^^^ word bytes) := by
  induction bytes generalizing register with
  | nil => simp [word]
  | cons byte bytes ih =>
      rw [List.length_cons] at hfits
      -- the bytes behind the first wait in the register until it has been shifted out
      have hshift : (step polynomial)^[8] (word bytes <<< 8) = word bytes :=
        iterate_step_shiftLeft 8 fun i hi => getLsbD_word_of_ge (by omega)
      rw [List.foldl_cons, ih (by omega), absorb, List.length_cons, Nat.mul_succ,
        Function.iterate_add_apply]
      congr 1
      rw [word_cons, ← BitVec.xor_assoc, iterate_step_xor 8 _ (word bytes <<< 8), hshift]

/-- Absorbing bytes loses nothing of the register before them. -/
theorem foldl_absorb_injective (htop : polynomial.getLsbD (w - 1) = true) (bytes : List UInt8) :
    Function.Injective fun register => bytes.foldl (absorb polynomial) register := by
  intro a b heq
  induction bytes generalizing a b with
  | nil => exact heq
  | cons byte bytes ih =>
      have habsorb : absorb polynomial a byte = absorb polynomial b byte := ih heq
      exact BitVec.xor_left_inj _ |>.mp ((step_injective htop).iterate 8 habsorb)

/-- Two strings that differ in a window no wider than the register leave different registers. -/
theorem absorb_window_injective (htop : polynomial.getLsbD (w - 1) = true)
    {front window window' behind : List UInt8} (hlength : window.length = window'.length)
    (hfits : 8 * window.length ≤ w) {register : BitVec w}
    (heq : (front ++ window ++ behind).foldl (absorb polynomial) register =
      (front ++ window' ++ behind).foldl (absorb polynomial) register) :
    window = window' := by
  simp only [List.foldl_append] at heq
  have hwindow := foldl_absorb_injective htop behind heq
  generalize front.foldl (absorb polynomial) register = before at hwindow
  have hfits' : 8 * window'.length ≤ w := by rwa [← hlength]
  rw [absorb_word hfits, absorb_word hfits', ← hlength] at hwindow
  have hxor := (step_injective htop).iterate _ hwindow
  exact word_injective hlength hfits ((BitVec.xor_right_inj _).mp hxor)

end ShiftRegister
