import Mathlib.Tactic.Common

/-!
# Lower bounds

`std::lower_bound` halves the positions of a list until one is left. Where what is before the value
stands in front of everything else, as in a sorted list, that is the first element that is not
before it: `get_lower_bound`.
-/

namespace BinarySearch

variable {α : Type}

/-! ## The loop over positions -/

/-- The first of the `length` positions from `first` on that is not before the value. -/
def lowerBoundFrom (before : ℕ → Bool) (first length : ℕ) : ℕ :=
  if length = 0 then first
  else
    let half := length / 2
    if before (first + half) then lowerBoundFrom before (first + half + 1) (length - half - 1)
    else lowerBoundFrom before first half
termination_by length

/-- With the positions before the value in front, those in front of the interval all before it and
those behind it not, the loop ends at the border between the two. -/
theorem lower_bound_from_spec {before : ℕ → Bool}
    (hfront : ∀ i j, i ≤ j → before j = true → before i = true) (first length : ℕ)
    (hbelow : ∀ i, i < first → before i = true)
    (habove : ∀ i, first + length ≤ i → before i = false) (i : ℕ) :
    before i = true ↔ i < lowerBoundFrom before first length := by
  induction first, length using lowerBoundFrom.induct before with
  | case1 first =>
      rw [lowerBoundFrom, if_pos rfl]
      refine ⟨fun hbefore => ?_, hbelow i⟩
      by_contra hge
      rw [habove i (by omega)] at hbefore
      cases hbefore
  | case2 first length hlength half hmiddle ih =>
      rw [lowerBoundFrom, if_neg hlength]
      show _ ↔ i < if before (first + half) = true then _ else _
      rw [if_pos hmiddle]
      have hhalf : half < length := by omega
      refine ih (fun i hi => ?_) fun i hi => habove i (by omega)
      exact hfront i (first + half) (by omega) hmiddle
  | case3 first length hlength half hmiddle ih =>
      rw [lowerBoundFrom, if_neg hlength]
      show _ ↔ i < if before (first + half) = true then _ else _
      rw [if_neg hmiddle]
      refine ih hbelow fun i hi => ?_
      by_contra hbefore
      exact hmiddle (hfront (first + half) i hi (by simpa using hbefore))

/-- The loop stays in its interval. -/
theorem lower_bound_from_le (before : ℕ → Bool) (first length : ℕ) :
    lowerBoundFrom before first length ≤ first + length := by
  induction first, length using lowerBoundFrom.induct before with
  | case1 first =>
      rw [lowerBoundFrom, if_pos rfl]
      exact Nat.le_add_right first 0
  | case2 first length hlength half hmiddle ih =>
      rw [lowerBoundFrom, if_neg hlength]
      show (if before (first + half) = true then _ else _) ≤ _
      rw [if_pos hmiddle]
      exact Nat.le_trans ih (by omega)
  | case3 first length hlength half hmiddle ih =>
      rw [lowerBoundFrom, if_neg hlength]
      show (if before (first + half) = true then _ else _) ≤ _
      rw [if_neg hmiddle]
      exact Nat.le_trans ih (by omega)

/-! ## Lists -/

/-- The position that `std::lower_bound` returns, that of the end included. -/
def lowerBound (before : α → Bool) (items : List α) : ℕ :=
  lowerBoundFrom (fun i => items[i]?.any before) 0 items.length

theorem lower_bound_le_length (before : α → Bool) (items : List α) :
    lowerBound before items ≤ items.length :=
  Nat.le_trans (lower_bound_from_le _ 0 items.length) (Nat.le_of_eq (Nat.zero_add _))

/-- What is before the value stands in front of what is not. -/
def Partitioned (before : α → Bool) (items : List α) : Prop :=
  items.Pairwise fun earlier later => before later = true → before earlier = true

/-- What is before the key is at the front. -/
theorem any_getElem?_of_le {before : α → Bool} {items : List α} (h : Partitioned before items)
    (i j : ℕ) (hle : i ≤ j) (hj : items[j]?.any before = true) :
    items[i]?.any before = true := by
  rw [Option.any_eq_true] at hj
  obtain ⟨later, hlater, hbefore⟩ := hj
  obtain ⟨hlength, rfl⟩ := List.getElem?_eq_some_iff.mp hlater
  have hi : i < items.length := by omega
  rw [List.getElem?_eq_getElem hi, Option.any_some]
  rcases Nat.lt_or_eq_of_le hle with hlt | rfl
  · exact List.pairwise_iff_getElem.mp h i j hi hlength hlt hbefore
  · exact hbefore

/-- The search splits a partitioned list: what is in front of the result is before the key, and
nothing else is. -/
theorem lt_lower_bound_iff {before : α → Bool} {items : List α} (h : Partitioned before items)
    (i : ℕ) : items[i]?.any before = true ↔ i < lowerBound before items := by
  refine lower_bound_from_spec (any_getElem?_of_le h) 0 items.length (fun i hi => ?_)
    (fun i hi => ?_) i
  · omega
  · rw [List.getElem?_eq_none (by omega)]
    rfl

/-- The lower bound is not in front of a position where the last element in front of it is before
the value. -/
theorem le_lower_bound_iff {before : α → Bool} {front behind : List α}
    (h : Partitioned before (front ++ behind)) :
    front.length ≤ lowerBound before (front ++ behind) ↔
      ∀ item ∈ front.getLast?, before item = true := by
  rcases List.eq_nil_or_concat front with rfl | ⟨front, item, rfl⟩
  · exact iff_of_true (Nat.zero_le _) fun item hitem => absurd hitem (Option.not_mem_none _)
  · rw [List.concat_eq_append] at h ⊢
    have hitem : (front ++ [item] ++ behind)[front.length]? = some item := by simp
    have hplace := lt_lower_bound_iff h front.length
    rw [hitem, Option.any_some] at hplace
    rw [List.length_append, List.length_singleton, Nat.succ_le_iff, ← hplace,
      List.getLast?_concat]
    exact ⟨fun hbefore other hother => Option.some.inj hother ▸ hbefore, fun hall => hall item rfl⟩

/-- The search of a list finds the position that the search of what it is looked at by finds. -/
theorem lower_bound_map {β : Type} (before : β → Bool) (f : α → β) (items : List α) :
    lowerBound (fun item => before (f item)) items = lowerBound before (items.map f) := by
  simp only [lowerBound, List.length_map, List.getElem?_map, Option.any_map]

/-- The element at the lower bound is the first one that is not before the value. -/
theorem get_lower_bound {before : α → Bool} {items : List α} (h : Partitioned before items) :
    items[lowerBound before items]? = items.find? fun item => !before item := by
  have hborder := lt_lower_bound_iff h
  generalize lowerBound before items = border at hborder ⊢
  have hfront : ∀ item ∈ items.take border, before item = true := by
    intro item hitem
    obtain ⟨i, hi, hget⟩ := List.mem_take_iff_getElem.mp hitem
    have hbefore := (hborder i).mpr (by omega)
    rwa [List.getElem?_eq_getElem (by omega), hget, Option.any_some] at hbefore
  have hbehind : items[border]?.any before = false := by
    rw [← Bool.not_eq_true, hborder border]
    exact Nat.lt_irrefl border
  rcases hitem : items[border]? with _ | item
  · -- the whole list is before the value
    have hshort := List.getElem?_eq_none_iff.mp hitem
    rw [List.take_of_length_le hshort] at hfront
    refine (List.find?_eq_none.mpr fun item hmem => ?_).symm
    rw [hfront item hmem]
    exact Bool.false_ne_true
  · obtain ⟨hlength, rfl⟩ := List.getElem?_eq_some_iff.mp hitem
    rw [hitem, Option.any_some] at hbehind
    refine (List.find?_eq_some_iff_append.mpr ⟨?_, items.take border, items.drop (border + 1),
      ?_, fun other hother => ?_⟩).symm
    · rw [hbehind]
      rfl
    · rw [← List.drop_eq_getElem_cons hlength, List.take_append_drop]
    · rw [hfront other hother]
      rfl

/-- In a list that increases by `R`, the first element with a property is the one that no other with
the property comes before. -/
theorem find?_eq_some_iff_of_pairwise {R : α → α → Prop} (hasymm : ∀ a b, R a b → ¬R b a)
    {items : List α} (h : items.Pairwise R) {p : α → Bool} {item : α} :
    items.find? p = some item ↔
      item ∈ items ∧ p item = true ∧ ∀ other ∈ items, p other = true → ¬R other item := by
  have hfirst : ∀ found, items.find? p = some found →
      ∀ other ∈ items, p other = true → other = found ∨ R found other := by
    intro found hfound other hother hp
    obtain ⟨-, front, behind, rfl, hfront⟩ := List.find?_eq_some_iff_append.mp hfound
    rcases List.mem_append.mp hother with hother | hother
    · have hno := hfront other hother
      rw [hp] at hno
      cases hno
    · rcases List.mem_cons.mp hother with rfl | hother
      · exact .inl rfl
      · have hbehind := (List.pairwise_append.mp h).2.1
        exact .inr ((List.pairwise_cons.mp hbehind).1 other hother)
  constructor
  · intro hfound
    refine ⟨List.mem_of_find?_eq_some hfound, List.find?_some hfound, fun other hother hp hr => ?_⟩
    rcases hfirst item hfound other hother hp with rfl | hbefore
    · exact hasymm other other hr hr
    · exact hasymm item other hbefore hr
  · rintro ⟨hitem, hp, hothers⟩
    obtain ⟨found, hfound⟩ := Option.isSome_iff_exists.mp
      (List.find?_isSome.mpr ⟨item, hitem, hp⟩)
    rcases hfirst found hfound item hitem hp with heq | hbefore
    · rw [hfound, heq]
    · exact absurd hbefore
        (hothers found (List.mem_of_find?_eq_some hfound) (List.find?_some hfound))

end BinarySearch
