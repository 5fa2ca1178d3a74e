import Aethon.Foundation.StableSort
import Aethon.Foundation.Sweeping
import Aethon.Foundation.Words

/-!
# Sets of times

A `TimeRangeSet` keeps ranges of times by their starts and joins those that touch, after
`storage/range_set.cpp`. What it stands for is a set of times, and `add` is the union with a range:
`time_range_set_spec`.
-/

namespace Aethon.Storage

open StableSort Sweeping

/-! ## Ranges -/

/-- A range of times, both ends included. -/
structure TimeRange where
  startNs : UInt64 := 0
  endNs : UInt64 := 0
  deriving DecidableEq, Repr

namespace TimeRange

/-- The range with its ends put right. -/
def ordered (range : TimeRange) : TimeRange :=
  if range.endNs < range.startNs then ⟨range.endNs, range.startNs⟩ else range

/-- The comparison of the sort. -/
def startsBefore (left right : TimeRange) : Bool :=
  left.startNs < right.startNs

/-- The sum wraps behind a range up to the last time. -/
def apart (back range : TimeRange) : Bool :=
  range.startNs > back.endNs + 1

/-- A range made longer by one that overlaps it. -/
def extend (back range : TimeRange) : TimeRange :=
  { back with endNs := max back.endNs range.endNs }

end TimeRange

/-! ## Sets -/

/-- A set of times, as ranges. -/
structure TimeRangeSet where
  ranges : List TimeRange := []
  deriving DecidableEq, Repr

namespace TimeRangeSet

section Sorts

-- `std::sort`, which may leave ranges of one start in any order
variable (sort : List TimeRange → List TimeRange)

/-- Sort the ranges, and join those that are not apart. -/
def normalize (set : TimeRangeSet) : TimeRangeSet where
  ranges := sweep TimeRange.apart TimeRange.extend (sort set.ranges)

/-- Add a range, its ends put in order. -/
def add (set : TimeRangeSet) (range : TimeRange) : TimeRangeSet :=
  normalize sort { ranges := set.ranges ++ [range.ordered] }

end Sorts

/-- A time is in one of the ranges. -/
def contains (set : TimeRangeSet) (timeNs : UInt64) : Bool :=
  set.ranges.any fun range => timeNs ≥ range.startNs && timeNs ≤ range.endNs

/-- A range meets one of the ranges. -/
def overlaps (set : TimeRangeSet) (range : TimeRange) : Bool :=
  let range := range.ordered
  set.ranges.any fun existing => range.startNs ≤ existing.endNs && range.endNs ≥ existing.startNs

end TimeRangeSet

/-! ## The points of a set -/

open scoped Words

/-- The times of a range. -/
def TimeRange.points (range : TimeRange) : Set UInt64 :=
  Set.Icc range.startNs range.endNs

namespace TimeRange

variable {back range next : TimeRange}

theorem ordered_le (range : TimeRange) : range.ordered.startNs ≤ range.ordered.endNs := by
  unfold ordered
  split
  · next h => exact UInt64.le_of_lt h
  · next h => exact UInt64.not_lt.mp h

/-- The ends that are put right are the lesser and the greater one. -/
theorem points_ordered (range : TimeRange) : range.ordered.points =
    Set.Icc (min range.startNs range.endNs) (max range.startNs range.endNs) := by
  unfold ordered points
  split
  · next h => rw [min_eq_right h.le, max_eq_left h.le]
  · next h => rw [min_eq_left (not_lt.mp h), max_eq_right (not_lt.mp h)]

/-- Ranges that are not apart have no time between them. -/
theorem touching_of_not_apart (h : back.apart range = false) (timeNs : UInt64)
    (htime : back.endNs < timeNs) : range.startNs ≤ timeNs := by
  simp only [apart, decide_eq_false_iff_not, UInt64.not_lt, gt_iff_lt] at h
  -- a time behind the range means that its end is not the last one, so the sum does not wrap
  have hsum : (back.endNs + 1).toNat = back.endNs.toNat + 1 := by
    have htop := timeNs.toNat_lt
    rw [UInt64.lt_iff_toNat_lt] at htime
    exact Words.toNat_add_of_lt (by show back.endNs.toNat + 1 < 2 ^ 64; omega)
  rw [UInt64.le_iff_toNat_le] at h ⊢
  rw [UInt64.lt_iff_toNat_lt] at htime
  omega

theorem points_extend (hstart : back.startNs ≤ range.startNs) (h : back.apart range = false) :
    (back.extend range).points = back.points ∪ range.points :=
  Icc_union_of_touching hstart (touching_of_not_apart h)

end TimeRange

namespace TimeRangeSet

/-- The times that a set stands for. -/
def points (set : TimeRangeSet) : Set UInt64 :=
  cover TimeRange.points set.ranges

/-- Every range of the set has its ends in order. -/
def WellFormed (set : TimeRangeSet) : Prop :=
  ∀ range ∈ set.ranges, range.startNs ≤ range.endNs

theorem contains_iff {set : TimeRangeSet} {timeNs : UInt64} :
    set.contains timeNs = true ↔ timeNs ∈ set.points := by
  simp [contains, points, mem_cover, TimeRange.points, List.any_eq_true]

/-- A range overlaps a set when they share a point. -/
theorem overlaps_iff {set : TimeRangeSet} (h : set.WellFormed) {range : TimeRange} :
    set.overlaps range = true ↔ (range.ordered.points ∩ set.points).Nonempty := by
  have hmeet : ∀ existing ∈ set.ranges,
      ((range.ordered.startNs ≤ existing.endNs && range.ordered.endNs ≥ existing.startNs) = true ↔
        (range.ordered.points ∩ existing.points).Nonempty) := by
    intro existing hexisting
    rw [Bool.and_eq_true, decide_eq_true_iff, decide_eq_true_iff]
    exact (Icc_meet_iff range.ordered_le (h existing hexisting)).symm
  rw [overlaps, List.any_eq_true]
  constructor
  · rintro ⟨existing, hexisting, htouch⟩
    obtain ⟨timeNs, hrange, htime⟩ := (hmeet existing hexisting).mp htouch
    exact ⟨timeNs, hrange, existing, hexisting, htime⟩
  · rintro ⟨timeNs, hrange, existing, hexisting, htime⟩
    exact ⟨existing, hexisting, (hmeet existing hexisting).mpr ⟨timeNs, hrange, htime⟩⟩

variable {sort : List TimeRange → List TimeRange}

/-- Adding a range keeps the set well formed. -/
theorem WellFormed.add (hsort : Sorts TimeRange.startsBefore sort) {set : TimeRangeSet}
    (h : set.WellFormed) (range : TimeRange) : (set.add sort range).WellFormed := by
  refine forall_mem_foldl_push _ _ (fun back next _ hback _ => ?_) (fun _ hnone => nomatch hnone)
    fun next hnext => ?_
  · exact hback.trans (le_max_left _ _)
  · rcases List.mem_append.mp ((hsort.perm _).mem_iff.mp hnext) with hheld | hadded
    · exact h next hheld
    · rw [List.mem_singleton.mp hadded]
      exact range.ordered_le

/-- Adding a range is the union with its times. -/
theorem points_add (hsort : Sorts TimeRange.startsBefore sort) (set : TimeRangeSet)
    (range : TimeRange) :
    (set.add sort range).points = set.points ∪ range.ordered.points := by
  have hsorted : (sort (set.ranges ++ [range.ordered])).Pairwise fun left right =>
      left.startNs ≤ right.startNs := by
    refine (hsort.pairwise _).imp fun hless => ?_
    simpa [TimeRange.startsBefore] using hless
  calc (set.add sort range).points
      = cover TimeRange.points (sort (set.ranges ++ [range.ordered])) :=
        cover_sweep (fun _ _ => TimeRange.points_extend) (fun _ _ _ => id) hsorted
    _ = cover TimeRange.points (set.ranges ++ [range.ordered]) := cover_perm (hsort.perm _)
    _ = set.points ∪ range.ordered.points := by rw [cover_append, cover_singleton, points]

/-- After any ranges were added, the set stands for all of their times. -/
theorem added_spec (hsort : Sorts TimeRange.startsBefore sort) (added : List TimeRange) :
    (added.foldl (TimeRangeSet.add sort) {}).WellFormed ∧
      (added.foldl (TimeRangeSet.add sort) {}).points =
        cover (fun range => range.ordered.points) added := by
  induction added using List.reverseRecOn with
  | nil => exact ⟨(fun _ hnone => nomatch hnone), cover_nil.trans cover_nil.symm⟩
  | append_singleton added range ih =>
    obtain ⟨hwell, hpoints⟩ := ih
    rw [List.foldl_append, List.foldl_cons, List.foldl_nil, points_add hsort, hpoints, cover_append,
      cover_singleton]
    exact ⟨hwell.add hsort range, rfl⟩

/-- Whatever ranges were added, in any order and with their ends in any order, a set contains just
the times of these ranges, and it overlaps a range just where it contains a time of it. -/
theorem time_range_set_spec (hsort : Sorts TimeRange.startsBefore sort) (added : List TimeRange) :
    let set := added.foldl (TimeRangeSet.add sort) {}
    (∀ timeNs, set.contains timeNs = true ↔ ∃ range ∈ added,
      min range.startNs range.endNs ≤ timeNs ∧ timeNs ≤ max range.startNs range.endNs) ∧
    ∀ range, set.overlaps range = true ↔ ∃ timeNs,
      min range.startNs range.endNs ≤ timeNs ∧ timeNs ≤ max range.startNs range.endNs ∧
        set.contains timeNs = true := by
  intro set
  obtain ⟨hwell, hpoints⟩ := added_spec hsort added
  refine ⟨fun timeNs => ?_, fun range => ?_⟩
  · rw [contains_iff, hpoints, mem_cover]
    simp only [TimeRange.points_ordered, Set.mem_Icc]
  · rw [overlaps_iff hwell]
    simp only [contains_iff, TimeRange.points_ordered, Set.Nonempty, Set.mem_inter_iff,
      Set.mem_Icc, and_assoc]
    rfl

theorem starts_before_compares : Compares TimeRange.startsBefore TimeRange.startNs :=
  fun _ _ => decide_eq_true_iff

/-- A reversed range, a range up to the last time, and one that touches the first. -/
theorem time_range_set_of_added :
    let added : List TimeRange := [⟨9, 5⟩, ⟨100, 0xffffffffffffffff⟩, ⟨10, 20⟩]
    let set := added.foldl (TimeRangeSet.add (stableSort TimeRange.startsBefore)) {}
    (∀ timeNs, set.contains timeNs = true ↔ ∃ range ∈ added,
      min range.startNs range.endNs ≤ timeNs ∧ timeNs ≤ max range.startNs range.endNs) ∧
    ∀ range, set.overlaps range = true ↔ ∃ timeNs,
      min range.startNs range.endNs ≤ timeNs ∧ timeNs ≤ max range.startNs range.endNs ∧
        set.contains timeNs = true :=
  time_range_set_spec starts_before_compares.stable_sort_sorts
    [⟨9, 5⟩, ⟨100, 0xffffffffffffffff⟩, ⟨10, 20⟩]

end TimeRangeSet

end Aethon.Storage
