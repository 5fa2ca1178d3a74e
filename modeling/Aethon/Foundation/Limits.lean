import Mathlib.Data.List.TakeDrop
import Mathlib.Tactic.Common

/-!
# Limited results

A query with a limit stops at the limit, where the limit zero stands for none. `collect` is the
loop that pushes what passes and breaks off, and `collect_eq` says what it returns.
-/

namespace Limits

variable {α β : Type}

/-- As many elements from the front as the limit allows. -/
def firstOf (limit : Nat) (items : List α) : List α :=
  if limit = 0 then items else items.take limit

/-- The size of a result has reached the limit. -/
def Reached (limit : Nat) (found : List α) : Prop :=
  limit ≠ 0 ∧ limit ≤ found.length

instance (limit : Nat) (found : List α) : Decidable (Reached limit found) :=
  inferInstanceAs (Decidable (_ ∧ _))

/-- Push what passes until the limit is reached. -/
def collect (p : α → Bool) (limit : Nat) : List α → List α → List α
  | [], found => found
  | a :: items, found =>
      if p a then
        if Reached limit (found ++ [a]) then found ++ [a]
        else collect p limit items (found ++ [a])
      else collect p limit items found

theorem not_reached_nil (limit : Nat) : ¬Reached limit ([] : List α) :=
  fun h => h.1 (Nat.le_zero.mp h.2)

theorem firstOf_isPrefix (limit : Nat) (items : List α) : firstOf limit items <+: items := by
  unfold firstOf
  split
  · exact List.prefix_rfl
  · exact List.take_prefix limit items

theorem map_firstOf (f : α → β) (limit : Nat) (items : List α) :
    (firstOf limit items).map f = firstOf limit (items.map f) := by
  unfold firstOf
  split
  · rfl
  · exact List.map_take

/-- Within the limit nothing is cut off. -/
theorem firstOf_of_not_reached {limit : Nat} {found : List α} (h : ¬Reached limit found) :
    firstOf limit found = found := by
  unfold firstOf
  split
  · rfl
  · next hlimit => exact List.take_of_length_le (Nat.le_of_lt (by
      by_contra hle
      exact h ⟨hlimit, Nat.not_lt.mp hle⟩))

/-- A result that reaches the limit with its last element is complete. -/
theorem firstOf_append_of_reached {limit : Nat} {found : List α} {a : α}
    (hbefore : ¬Reached limit found) (hreached : Reached limit (found ++ [a])) (items : List α) :
    firstOf limit (found ++ [a] ++ items) = found ++ [a] := by
  have hlength : (found ++ [a]).length = limit := by
    have hle := hreached.2
    rw [List.length_append, List.length_singleton] at hle ⊢
    by_contra hne
    exact hbefore ⟨hreached.1, by omega⟩
  rw [firstOf, if_neg hreached.1, List.take_left' hlength]

/-- The loop collects the matching items up to the limit. -/
theorem collect_eq (p : α → Bool) (limit : Nat) (items : List α) {found : List α}
    (h : ¬Reached limit found) :
    collect p limit items found = firstOf limit (found ++ items.filter p) := by
  induction items generalizing found with
  | nil => rw [List.filter_nil, List.append_nil, firstOf_of_not_reached h]; rfl
  | cons a items ih =>
    unfold collect
    split
    · next hp =>
      rw [List.filter_cons_of_pos hp, List.append_cons found a (items.filter p)]
      split
      · next hreached => rw [firstOf_append_of_reached h hreached]
      · next hreached => exact ih hreached
    · next hp =>
      rw [List.filter_cons_of_neg hp]
      exact ih h

/-- A further property changes nothing exactly when all of the first elements have it. -/
theorem firstOf_filter_iff (p : α → Bool) (limit : Nat) (items : List α) :
    firstOf limit (items.filter p) = firstOf limit items ↔
      ∀ a ∈ firstOf limit items, p a = true := by
  constructor
  · intro h a ha
    rw [← h] at ha
    exact (List.mem_filter.mp ((firstOf_isPrefix limit _).subset ha)).2
  · intro h
    unfold firstOf at h ⊢
    split
    · next hlimit =>
      rw [if_pos hlimit] at h
      exact List.filter_eq_self.mpr h
    · next hlimit =>
      rw [if_neg hlimit] at h
      have hsplit : items.filter p = items.take limit ++ (items.drop limit).filter p := by
        conv_lhs => rw [← List.take_append_drop limit items]
        rw [List.filter_append, List.filter_eq_self.mpr h]
      rw [hsplit]
      rcases Nat.le_total limit items.length with hlength | hlength
      · exact List.take_left' (by rw [List.length_take, Nat.min_eq_left hlength])
      · rw [List.drop_of_length_le hlength, List.filter_nil, List.append_nil,
          List.take_take, Nat.min_self]

theorem length_firstOf {limit : Nat} (hlimit : limit ≠ 0) (items : List α) :
    (firstOf limit items).length = min limit items.length := by
  rw [firstOf, if_neg hlimit, List.length_take]

/-- Limiting each part of a result does not keep the whole from the limit. -/
theorem length_flatMap_firstOf {limit : Nat} (hlimit : limit ≠ 0) (f : α → List β)
    (items : List α) :
    min limit (items.flatMap fun a => firstOf limit (f a)).length =
      min limit (items.flatMap f).length := by
  induction items with
  | nil => rfl
  | cons a items ih =>
    rw [List.flatMap_cons, List.flatMap_cons, List.length_append, List.length_append,
      length_firstOf hlimit]
    omega

/-- The first parts of a result, each limited, reach what the limit asks of all parts exactly when
they reach the limit or the other parts are empty. -/
theorem first_parts_enough_iff {limit : Nat} (hlimit : limit ≠ 0) (f : α → List β)
    (items : List α) :
    min limit (items.flatMap f).length ≤
        ((firstOf limit items).flatMap fun a => firstOf limit (f a)).length ↔
      limit ≤ ((items.take limit).flatMap f).length ∨ ∀ a ∈ items.drop limit, f a = [] := by
  have hfirst : firstOf limit items = items.take limit := if_neg hlimit
  have hlimited := length_flatMap_firstOf hlimit f (items.take limit)
  have hsplit : (items.flatMap f).length =
      ((items.take limit).flatMap f).length + ((items.drop limit).flatMap f).length := by
    rw [← List.length_append, ← List.flatMap_append, List.take_append_drop]
  have hempty : (∀ a ∈ items.drop limit, f a = []) ↔
      ((items.drop limit).flatMap f).length = 0 := by
    rw [List.length_eq_zero_iff, List.flatMap_eq_nil_iff]
  rw [hfirst, hempty, hsplit]
  omega

end Limits
