import Mathlib.Algebra.GroupWithZero.Nat
import Mathlib.Data.UInt
import Mathlib.Tactic.Common

/-!
# Words as naturals

Sums and products of machine words wrap, so as naturals they are at most the exact ones, and equal
to them where a bound says so.
-/

namespace Words

/-- A counter below a limit does not wrap. -/
theorem toNat_add_one {n limit : UInt32} (h : n < limit) : (n + 1).toNat = n.toNat + 1 := by
  have hlimit : n.toNat < limit.toNat := UInt32.lt_iff_toNat_lt.mp h
  have hwidth := limit.toNat_lt
  rw [UInt32.toNat_add]
  exact Nat.mod_eq_of_lt (by simp; omega)

theorem toNat_add_le (lhs rhs : UInt32) : (lhs + rhs).toNat ≤ lhs.toNat + rhs.toNat := by
  rw [UInt32.toNat_add]
  exact Nat.mod_le _ _

theorem toNat_mul_le (lhs rhs : UInt64) : (lhs * rhs).toNat ≤ lhs.toNat * rhs.toNat := by
  rw [UInt64.toNat_mul]
  exact Nat.mod_le _ _

/-- A sum that fits does not wrap. -/
theorem toNat_add_of_lt {lhs rhs : UInt64} (h : lhs.toNat + rhs.toNat < 2 ^ 64) :
    (lhs + rhs).toNat = lhs.toNat + rhs.toNat := by
  rw [UInt64.toNat_add]
  exact Nat.mod_eq_of_lt h

/-- A sum of words whose numbers add up to less than `2 ^ 64` does not wrap. -/
theorem toNat_sum {counts : List UInt64} (h : (counts.map UInt64.toNat).sum < 2 ^ 64) :
    counts.sum.toNat = (counts.map UInt64.toNat).sum := by
  induction counts with
  | nil => rfl
  | cons count counts ih =>
      rw [List.map_cons, List.sum_cons] at h
      have hrest := ih (by omega)
      rw [List.sum_cons, toNat_add_of_lt (by rwa [hrest]), hrest, List.map_cons, List.sum_cons]

/-- Counting up by one for each item counts the items. -/
theorem sum_ones {α : Type} (items : List α) :
    (items.map fun _ => (1 : UInt64)).sum = UInt64.ofNat items.length := by
  induction items with
  | nil => rfl
  | cons item items ih =>
      rw [List.map_cons, List.sum_cons, ih, List.length_cons, UInt64.ofNat_add, UInt64.add_comm]
      rfl

/-- Counting up one of the counters adds one to their sum. -/
theorem sum_modify {α : Type} {counter : α → UInt64} {change : α → α}
    (hchange : ∀ item, counter (change item) = counter item + 1) {items : List α} {place : ℕ}
    (hplace : place < items.length) :
    ((items.modify place change).map counter).sum = (items.map counter).sum + 1 := by
  induction items generalizing place with
  | nil => cases hplace
  | cons item items ih =>
      cases place with
      | zero =>
          rw [List.modify_zero_cons, List.map_cons, List.sum_cons, hchange, List.map_cons,
            List.sum_cons, UInt64.add_assoc, UInt64.add_comm 1, UInt64.add_assoc]
      | succ place =>
          rw [List.modify_succ_cons, List.map_cons, List.sum_cons,
            ih (Nat.lt_of_succ_lt_succ hplace), List.map_cons, List.sum_cons, UInt64.add_assoc]

instance lawfulOrderMax : Std.LawfulOrderMax UInt64 where
  max_eq_or first second := by
    by_cases h : first ≤ second
    · exact Or.inr (if_pos h)
    · exact Or.inl (if_neg h)
  max_le_iff first second bound := by
    show (if first ≤ second then second else first) ≤ bound ↔ _
    by_cases h : first ≤ second
    · rw [if_pos h]
      exact ⟨fun hsecond => ⟨UInt64.le_trans h hsecond, hsecond⟩, And.right⟩
    · rw [if_neg h]
      exact ⟨fun hfirst => ⟨hfirst, UInt64.le_trans (UInt64.le_of_lt (UInt64.not_le.mp h)) hfirst⟩,
        And.left⟩

/-- The order of words, with their own minimum and maximum. -/
scoped instance linearOrder : LinearOrder UInt64 where
  le_refl := UInt64.le_refl
  le_trans _ _ _ := UInt64.le_trans
  le_antisymm _ _ := UInt64.le_antisymm
  le_total := UInt64.le_total
  lt_iff_le_not_ge first second := by
    rw [UInt64.not_le]
    exact ⟨fun hlt => ⟨UInt64.le_of_lt hlt, hlt⟩, And.right⟩
  toMin := instMinUInt64
  toMax := instMaxUInt64
  toDecidableLE := inferInstance
  toDecidableLT := inferInstance
  toDecidableEq := inferInstance

theorem toNat_max (lhs rhs : UInt64) : (max lhs rhs).toNat = max lhs.toNat rhs.toNat := by
  rcases le_total lhs rhs with h | h
  · rw [max_eq_right h, Nat.max_eq_right (UInt64.le_iff_toNat_le.mp h)]
  · rw [max_eq_left h, Nat.max_eq_left (UInt64.le_iff_toNat_le.mp h)]

theorem toNat_min (lhs rhs : UInt64) : (min lhs rhs).toNat = min lhs.toNat rhs.toNat := by
  rcases le_total lhs rhs with h | h
  · rw [min_eq_left h, Nat.min_eq_left (UInt64.le_iff_toNat_le.mp h)]
  · rw [min_eq_right h, Nat.min_eq_right (UInt64.le_iff_toNat_le.mp h)]

end Words
