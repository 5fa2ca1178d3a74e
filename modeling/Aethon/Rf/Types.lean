import Mathlib.Order.Interval.Set.LinearOrder
import Aethon.Foundation.Words

/-!
# Frequency ranges

Ranges of frequencies from `rf/types.hpp`, which hold their lower end and not their upper one. What
a range stands for is a set of numbers, and the operations of `rf/types.cpp` are those of the sets:
`frequencies_intersect` and `frequencies_merge`. A range with its ends the wrong way is empty, but
`overlaps` does not know.
-/

namespace Aethon.Rf

/-- What a band is used for. -/
inductive RfService where
  | unknown
  | amateur
  | broadcast
  | cellular
  | navigation
  | satellite
  | aeronautical
  | maritime
  | landMobile
  | ism
  | radar
  | publicSafety
  | weather
  | telemetry
  deriving DecidableEq, Repr

/-- The frequencies from a lower one up to, but without, an upper one. -/
structure FrequencyRange where
  lowerHz : UInt64 := 0
  upperHz : UInt64 := 0
  deriving DecidableEq, Repr

namespace FrequencyRange

/-- No frequency is in the range. -/
def empty (range : FrequencyRange) : Bool :=
  range.upperHz ≤ range.lowerHz

/-- The number of frequencies in the range. -/
def widthHz (range : FrequencyRange) : UInt64 :=
  if range.upperHz > range.lowerHz then range.upperHz - range.lowerHz else 0

/-- The frequency in the middle of the range. -/
def centerHz (range : FrequencyRange) : UInt64 :=
  range.lowerHz + range.widthHz / 2

/-- The frequency is in the range. -/
def contains (range : FrequencyRange) (frequencyHz : UInt64) : Bool :=
  frequencyHz ≥ range.lowerHz && frequencyHz < range.upperHz

/-- The bounds of the ranges cross; an empty range may do so too. -/
def overlaps (range other : FrequencyRange) : Bool :=
  range.lowerHz < other.upperHz && other.lowerHz < range.upperHz

end FrequencyRange

/-- The part that two ranges share, unless it is empty. -/
def intersect (left right : FrequencyRange) : Option FrequencyRange :=
  let result : FrequencyRange :=
    ⟨max left.lowerHz right.lowerHz, min left.upperHz right.upperHz⟩
  if result.empty then none else some result

/-- The smallest range around two that are not empty. -/
def merge (left right : FrequencyRange) : FrequencyRange :=
  if left.empty then right
  else if right.empty then left
  else ⟨min left.lowerHz right.lowerHz, max left.upperHz right.upperHz⟩

/-! ## The frequencies of a range -/

namespace FrequencyRange

/-- The frequencies of a range. -/
def frequencies (range : FrequencyRange) : Set Nat :=
  Set.Ico range.lowerHz.toNat range.upperHz.toNat

variable {range left right : FrequencyRange}

theorem contains_iff {frequencyHz : UInt64} :
    range.contains frequencyHz = true ↔ frequencyHz.toNat ∈ range.frequencies := by
  simp only [contains, Bool.and_eq_true, decide_eq_true_eq, ge_iff_le, UInt64.le_iff_toNat_le,
    UInt64.lt_iff_toNat_lt, frequencies, Set.mem_Ico]

theorem empty_iff : range.empty = true ↔ range.frequencies = ∅ := by
  rw [empty, decide_eq_true_eq, UInt64.le_iff_toNat_le, frequencies, Set.Ico_eq_empty_iff, not_lt]

theorem not_empty_iff : range.empty = false ↔ range.lowerHz.toNat < range.upperHz.toNat := by
  rw [empty, decide_eq_false_iff_not, UInt64.not_le, UInt64.lt_iff_toNat_lt]

/-- The width of a range is the distance of its ends. -/
theorem toNat_width_hz : range.widthHz.toNat = range.upperHz.toNat - range.lowerHz.toNat := by
  unfold widthHz
  split
  · next h => exact UInt64.toNat_sub_of_le _ _ (UInt64.le_of_lt h)
  · next h =>
    have hle := UInt64.le_iff_toNat_le.mp (UInt64.not_lt.mp h)
    rw [Nat.sub_eq_zero_of_le hle]
    rfl

theorem overlaps_iff :
    left.overlaps right = true ↔
      left.lowerHz.toNat < right.upperHz.toNat ∧ right.lowerHz.toNat < left.upperHz.toNat := by
  simp only [overlaps, Bool.and_eq_true, decide_eq_true_eq, UInt64.lt_iff_toNat_lt]

/-- Ranges that share a frequency overlap. -/
theorem overlaps_of_meet (h : (left.frequencies ∩ right.frequencies).Nonempty) :
    left.overlaps right = true := by
  obtain ⟨frequency, hleft, hright⟩ := h
  exact overlaps_iff.mpr ⟨Nat.lt_of_le_of_lt hleft.1 hright.2, Nat.lt_of_le_of_lt hright.1 hleft.2⟩

/-- Ranges that are not empty overlap exactly when they share a frequency. -/
theorem overlaps_iff_meet (hleft : left.empty = false) (hright : right.empty = false) :
    left.overlaps right = true ↔ (left.frequencies ∩ right.frequencies).Nonempty := by
  refine ⟨fun h => ?_, overlaps_of_meet⟩
  have hends := overlaps_iff.mp h
  have hleft := not_empty_iff.mp hleft
  have hright := not_empty_iff.mp hright
  refine ⟨max left.lowerHz.toNat right.lowerHz.toNat, ?_, ?_⟩
  · exact ⟨Nat.le_max_left _ _, Nat.max_lt.mpr ⟨hleft, hends.2⟩⟩
  · exact ⟨Nat.le_max_right _ _, Nat.max_lt.mpr ⟨hends.1, hright⟩⟩

end FrequencyRange

open FrequencyRange

section Operations

variable {left right : FrequencyRange}

/-- An intersection holds the frequencies of both, and there is none when they share none. -/
theorem frequencies_intersect :
    ((intersect left right).getD {}).frequencies = left.frequencies ∩ right.frequencies := by
  have hboth : (⟨max left.lowerHz right.lowerHz, min left.upperHz right.upperHz⟩ :
      FrequencyRange).frequencies = left.frequencies ∩ right.frequencies := by
    simp only [frequencies, Words.toNat_max, Words.toNat_min, Set.Ico_inter_Ico]
  unfold intersect
  dsimp only
  split
  · next hempty =>
    rw [← hboth, empty_iff.mp hempty]
    exact empty_iff.mp rfl
  · exact hboth

/-- A merged range holds the frequencies of both. -/
theorem frequencies_merge_superset :
    left.frequencies ∪ right.frequencies ⊆ (merge left right).frequencies := by
  unfold merge
  split
  · next hempty => rw [empty_iff.mp hempty, Set.empty_union]
  · split
    · next hempty => rw [empty_iff.mp hempty, Set.union_empty]
    · simp only [frequencies, Words.toNat_max, Words.toNat_min]
      refine Set.union_subset (Set.Ico_subset_Ico ?_ ?_) (Set.Ico_subset_Ico ?_ ?_)
      · exact Nat.min_le_left _ _
      · exact Nat.le_max_left _ _
      · exact Nat.min_le_right _ _
      · exact Nat.le_max_right _ _

/-- Two ranges that are not empty are merged to the range between their outer ends. -/
theorem merge_of_not_empty (hleft : left.empty = false) (hright : right.empty = false) :
    merge left right =
      ⟨min left.lowerHz right.lowerHz, max left.upperHz right.upperHz⟩ := by
  rw [merge, hleft, hright, if_neg Bool.false_ne_true, if_neg Bool.false_ne_true]

/-- Two ranges that are not empty and meet or touch are merged to their union. -/
theorem frequencies_merge (hleft : left.empty = false) (hright : right.empty = false)
    (htouch : right.lowerHz.toNat ≤ left.upperHz.toNat)
    (htouch' : left.lowerHz.toNat ≤ right.upperHz.toNat) :
    (merge left right).frequencies = left.frequencies ∪ right.frequencies := by
  rw [merge_of_not_empty hleft hright]
  simp only [frequencies, Words.toNat_max, Words.toNat_min]
  exact (Set.Ico_union_Ico' htouch htouch').symm

end Operations

end Aethon.Rf
