import Mathlib.Data.List.Basic
import Mathlib.Data.List.Induction

/-!
# Walks from both ends of a list

`fromBothEnds` takes the elements of a list by turns from its front and from its back, each once:
`fromBothEnds_perm`. A walk by two indices takes them so from the elements between its indices,
which `window` names: `window_low` and `window_high` say what is left behind a step.
-/

namespace BothEnds

variable {α : Type}

/-- The elements by turns from the front and from the back, first from the front if `front` says
so. -/
def fromBothEnds (front : Bool) (items : List α) : List α :=
  match front, items with
  | _, [] => []
  | true, first :: rest => first :: fromBothEnds false rest
  | false, first :: rest =>
      (first :: rest).getLast (List.cons_ne_nil first rest) ::
        fromBothEnds true (first :: rest).dropLast
  termination_by items.length

@[simp] theorem fromBothEnds_nil (front : Bool) : fromBothEnds front ([] : List α) = [] := by
  unfold fromBothEnds
  rfl

@[simp] theorem fromBothEnds_cons (first : α) (rest : List α) :
    fromBothEnds true (first :: rest) = first :: fromBothEnds false rest := by
  rw [fromBothEnds]

theorem fromBothEnds_back {items : List α} (h : items ≠ []) :
    fromBothEnds false items = items.getLast h :: fromBothEnds true items.dropLast := by
  cases items with
  | nil => exact absurd rfl h
  | cons first rest => rw [fromBothEnds]

@[simp] theorem fromBothEnds_concat (rest : List α) (last : α) :
    fromBothEnds false (rest ++ [last]) = last :: fromBothEnds true rest := by
  rw [fromBothEnds_back (List.append_ne_nil_of_right_ne_nil _ (List.cons_ne_nil _ _)),
    List.getLast_append_singleton, List.dropLast_concat]

/-- Taking from both ends takes every item once. -/
theorem fromBothEnds_perm (front : Bool) (items : List α) :
    (fromBothEnds front items).Perm items := by
  induction hlength : items.length generalizing front items with
  | zero =>
    rw [List.length_eq_zero_iff.mp hlength, fromBothEnds_nil]
  | succ n ih =>
    cases front with
    | true =>
      obtain ⟨first, rest, rfl⟩ := List.exists_cons_of_length_eq_add_one hlength
      rw [fromBothEnds_cons]
      exact (ih false rest (Nat.succ.inj hlength)).cons first
    | false =>
      rcases List.eq_nil_or_concat items with rfl | ⟨rest, last, rfl⟩
      · cases hlength
      · rw [List.concat_eq_append] at hlength ⊢
        rw [List.length_append] at hlength
        rw [fromBothEnds_concat]
        exact ((ih true rest (Nat.succ.inj hlength)).cons last).trans
          (List.perm_append_singleton last rest).symm

/-- The elements from one index up to, and not with, another one. -/
def window (items : List α) (low high : ℕ) : List α :=
  (items.take high).drop low

theorem window_all (items : List α) : window items 0 items.length = items := by
  rw [window, List.take_length, List.drop_zero]

theorem window_empty {items : List α} {low high : ℕ} (h : high ≤ low) :
    window items low high = [] :=
  List.drop_eq_nil_of_le (Nat.le_trans (List.length_take_le _ _) h)

/-- The window without its first element. -/
theorem window_low {items : List α} {low high : ℕ} (hlow : low < high)
    (hhigh : high ≤ items.length) :
    ∃ a, items[low]? = some a ∧ window items low high = a :: window items (low + 1) high := by
  have hlength : low < (items.take high).length := by rw [List.length_take]; omega
  refine ⟨items[low], List.getElem?_eq_getElem (by omega), ?_⟩
  rw [window, List.drop_eq_getElem_cons hlength, List.getElem_take]
  rfl

/-- The window without its last element. -/
theorem window_high {items : List α} {low high : ℕ} (hlow : low ≤ high)
    (hhigh : high < items.length) :
    ∃ a, items[high]? = some a ∧ window items low (high + 1) = window items low high ++ [a] := by
  refine ⟨items[high], List.getElem?_eq_getElem hhigh, ?_⟩
  rw [window, List.take_succ_eq_append_getElem hhigh, List.drop_append_of_le_length
    (by rw [List.length_take]; omega)]
  rfl

end BothEnds
