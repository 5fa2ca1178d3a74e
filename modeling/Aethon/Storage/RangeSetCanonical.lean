import Aethon.Foundation.Runs
import Aethon.Storage.RangeSet
import Mathlib.Data.List.Permutation

/-!
# The canonical form of a set of times

The ranges of a set are sorted with a time between each two, so that the times of the set leave no
choice of its ranges. The sum in the comparison of `normalize` wraps behind a range up to the last
time, and a range that should be joined to it is put behind it: `canonical_iff_along`.
-/

namespace Aethon.Storage

open StableSort Sweeping Runs

open scoped Words

namespace TimeRange

/-- The next range starts behind the time after the previous one. -/
def Separated (prev next : TimeRange) : Prop :=
  prev.endNs.toNat + 1 < next.startNs.toNat

/-- The first range goes up to the last time, and the second one starts in it, but not at the first
time of all. -/
def Clash (back range : TimeRange) : Prop :=
  back.endNs = 0xffffffffffffffff ∧ back.startNs ≤ range.startNs ∧ 0 < range.startNs

instance (back range : TimeRange) : Decidable (Clash back range) :=
  inferInstanceAs (Decidable (_ ∧ _ ∧ _))

/-- The order of a list whose ranges do not clash. -/
def Before (back range : TimeRange) : Prop :=
  back.startNs ≤ range.startNs ∧ (back.endNs = 0xffffffffffffffff → range.startNs = 0)

variable {front prev back range next : TimeRange}

/-- A range with another behind it does not end at the last time. -/
theorem end_ne_of_separated (h : prev.Separated next) : prev.endNs ≠ 0xffffffffffffffff := by
  intro hend
  have htop := next.startNs.toNat_lt
  unfold Separated at h
  rw [hend] at h
  simp at h
  omega

theorem le_last_time (timeNs : UInt64) : timeNs ≤ 0xffffffffffffffff := by
  have htop := timeNs.toNat_lt
  rw [UInt64.le_iff_toNat_le]
  exact Nat.le_of_lt_succ htop

/-- Ranges that are apart are separated, when they are in order. -/
theorem separated_of_apart (hbefore : back.Before range) (hapart : back.apart range = true) :
    back.Separated range := by
  have hapart : back.endNs + 1 < range.startNs := of_decide_eq_true hapart
  rw [UInt64.lt_iff_toNat_lt] at hapart
  have htop := back.endNs.toNat_lt
  have hne : back.endNs.toNat ≠ 2 ^ 64 - 1 := by
    intro hend
    have hlast : back.endNs = 0xffffffffffffffff := UInt64.toNat_inj.mp (by rw [hend]; rfl)
    rw [hbefore.2 hlast] at hapart
    exact Nat.not_lt_zero _ hapart
  have hsum : (back.endNs + 1).toNat = back.endNs.toNat + 1 :=
    Words.toNat_add_of_lt (by show back.endNs.toNat + 1 < 2 ^ 64; omega)
  rwa [hsum] at hapart

theorem Separated.behind (h : front.Separated back) (hbefore : back.Before range) :
    front.Separated range :=
  h.trans_le (UInt64.le_iff_toNat_le.mp hbefore.1)

/-- An extended range stays in front of the next. -/
theorem Before.extend (hback : back.Before next) (hrange : range.Before next) :
    (back.extend range).Before next := by
  refine ⟨hback.1, fun hend => ?_⟩
  rcases max_choice back.endNs range.endNs with hmax | hmax
  · exact hback.2 (hmax.symm.trans hend)
  · exact hrange.2 (hmax.symm.trans hend)

/-- A sweep of ranges in order that do not clash leaves them with times between them. -/
theorem pairwise_separated {ranges : List TimeRange} (hranges : ranges.Pairwise Before) :
    (sweep apart extend ranges).Pairwise Separated := by
  refine pairwise_sweep ?_ ?_ ?_ ?_ hranges
  · exact fun back range => separated_of_apart
  · exact fun front back range => Separated.behind
  · exact fun front back range => id
  · exact fun back range next => Before.extend

end TimeRange

/-! ## Sweeps of ranges that clash -/

/-- A range that is not the last one goes up to the last time. -/
def Overrun (merged : List TimeRange) : Prop :=
  ∃ range ∈ merged.dropLast, range.endNs = 0xffffffffffffffff

namespace Overrun

open TimeRange

variable {merged ranges : List TimeRange} {range : TimeRange}

/-- An overrun list is not separated. -/
theorem not_pairwise (h : Overrun merged) : ¬merged.Pairwise Separated := by
  obtain ⟨range, hrange, hend⟩ := h
  intro hsep
  rcases List.eq_nil_or_concat merged with rfl | ⟨front, back, rfl⟩
  · exact absurd hrange List.not_mem_nil
  · rw [List.concat_eq_append] at hrange hsep
    rw [List.dropLast_concat] at hrange
    exact end_ne_of_separated
      ((List.pairwise_append.mp hsep).2.2 range hrange back (List.mem_singleton_self back)) hend

/-- One more range leaves the list overrun. -/
theorem push (h : Overrun merged) (range : TimeRange) :
    Overrun (push apart extend merged range) := by
  obtain ⟨held, hheld, hend⟩ := h
  rcases List.eq_nil_or_concat merged with rfl | ⟨front, back, rfl⟩
  · exact absurd hheld List.not_mem_nil
  · rw [List.concat_eq_append] at hheld ⊢
    rw [List.dropLast_concat] at hheld
    refine ⟨held, ?_, hend⟩
    rw [push_concat]
    split
    · rw [List.dropLast_concat]
      exact List.mem_append_left _ hheld
    · rwa [List.dropLast_concat]

theorem foldl_push (h : Overrun merged) (ranges : List TimeRange) :
    Overrun (ranges.foldl (Sweeping.push apart extend) merged) := by
  induction ranges generalizing merged with
  | nil => exact h
  | cons range ranges ih => exact ih (h.push range)

/-- A range behind one up to the last time is not joined to it. -/
theorem of_push (h : ∃ held ∈ merged, held.endNs = 0xffffffffffffffff)
    (hstart : 0 < range.startNs) :
    Overrun (Sweeping.push apart extend merged range) := by
  obtain ⟨held, hheld, hend⟩ := h
  rcases List.eq_nil_or_concat merged with rfl | ⟨front, back, rfl⟩
  · exact absurd hheld List.not_mem_nil
  · rw [List.concat_eq_append] at hheld ⊢
    rw [push_concat]
    rcases List.mem_append.mp hheld with hfront | hback
    · refine ⟨held, ?_, hend⟩
      split <;> rw [List.dropLast_concat]
      · exact List.mem_append_left _ hfront
      · exact hfront
    · rw [List.mem_singleton.mp hback] at hend
      have hapart : back.apart range = true := by
        rw [apart, hend]
        exact decide_eq_true hstart
      rw [if_pos hapart]
      exact ⟨back, by simp, hend⟩

/-- Once a range goes up to the last time, some range always does. -/
theorem exists_end_push
    (h : range.endNs = 0xffffffffffffffff ∨ ∃ held ∈ merged, held.endNs = 0xffffffffffffffff) :
    ∃ held ∈ Sweeping.push apart extend merged range, held.endNs = 0xffffffffffffffff := by
  rcases List.eq_nil_or_concat merged with rfl | ⟨front, back, rfl⟩
  · rcases h with hend | ⟨held, hheld, -⟩
    · exact ⟨range, List.mem_singleton_self range, hend⟩
    · exact absurd hheld List.not_mem_nil
  · rw [List.concat_eq_append] at h ⊢
    rw [push_concat]
    split
    · rcases h with hend | ⟨held, hheld, hend⟩
      · exact ⟨range, List.mem_append_right _ (List.mem_singleton_self range), hend⟩
      · exact ⟨held, List.mem_append_left _ hheld, hend⟩
    · have hjoined (hend : range.endNs = 0xffffffffffffffff ∨ back.endNs = 0xffffffffffffffff) :
          ∃ held ∈ front ++ [back.extend range], held.endNs = 0xffffffffffffffff := by
        refine ⟨_, List.mem_append_right _ (List.mem_singleton_self _), ?_⟩
        rcases hend with hend | hend
        · exact (max_eq_right (hend ▸ le_last_time _)).trans hend
        · exact (max_eq_left (hend ▸ le_last_time _)).trans hend
      rcases h with hend | ⟨held, hheld, hend⟩
      · exact hjoined (.inl hend)
      · rcases List.mem_append.mp hheld with hfront | hback
        · exact ⟨held, List.mem_append_left _ hfront, hend⟩
        · exact hjoined (.inr (List.mem_singleton.mp hback ▸ hend))

/-- A range behind one at the last time overruns the list. -/
theorem of_mem (h : ∃ held ∈ merged, held.endNs = 0xffffffffffffffff) (hrange : range ∈ ranges)
    (hstart : 0 < range.startNs) : Overrun (ranges.foldl (Sweeping.push apart extend) merged) := by
  induction ranges generalizing merged with
  | nil => exact absurd hrange List.not_mem_nil
  | cons next ranges ih =>
    rcases List.mem_cons.mp hrange with rfl | hrange
    · exact (of_push h hstart).foldl_push ranges
    · exact ih (exists_end_push (.inr h)) hrange

/-- Two ranges that clash overrun the list. -/
theorem of_clash (hsub : [back, range].Sublist ranges) (hclash : Clash back range) :
    Overrun (ranges.foldl (Sweeping.push apart extend) merged) := by
  induction ranges generalizing merged with
  | nil => nomatch hsub
  | cons next ranges ih =>
    cases hsub with
    | cons _ hsub => exact ih hsub
    | cons_cons _ hsub =>
      rw [List.foldl_cons]
      exact of_mem (exists_end_push (.inl hclash.1)) (List.singleton_sublist.mp hsub) hclash.2.2

end Overrun

/-! ## Sorts that put the wider range first -/

/-- A comparison by the start, and then the other way by the end. -/
def TimeRange.widerFirst (left right : TimeRange) : Bool :=
  left.startNs < right.startNs || left.startNs == right.startNs && right.endNs < left.endNs

open TimeRange

theorem wider_first_compares :
    Compares widerFirst fun range => toLex (range.startNs, OrderDual.toDual range.endNs) := by
  refine compares_lex fun left right => ?_
  simp [widerFirst, StableSort.Before]

/-- Sorting the longer range first sorts by the starts. -/
theorem wider_first_sorts : Sorts startsBefore (stableSort widerFirst) where
  perm := stable_sort_perm widerFirst
  pairwise items := by
    refine (wider_first_compares.stable_sort_sorts.pairwise items).imp fun hle => ?_
    simp only [widerFirst, Bool.not_eq_true', Bool.or_eq_false_iff] at hle
    rw [startsBefore, hle.1]
    rfl

/-- The range up to the last time comes first. -/
theorem sublist_of_clash {ranges : List TimeRange} {back range : TimeRange}
    (hsub : [back, range].Subperm ranges) (hclash : Clash back range) :
    [back, range].Sublist (stableSort widerFirst ranges) := by
  obtain ⟨pair, hpair, hsub⟩ := hsub.trans (stable_sort_perm widerFirst ranges).symm.subperm
  rcases List.perm_pair.mp hpair with rfl | rfl
  · exact hsub
  · -- the other order is kept only by ranges that are the same
    have hle := List.pairwise_iff_forall_sublist.mp
      (pairwise_key wider_first_compares ranges) hsub
    obtain ⟨hend, hstart, -⟩ := hclash
    rw [Prod.Lex.toLex_le_toLex] at hle
    have hsame : range = back := by
      rcases hle with hless | ⟨heq, hends⟩
      · exact absurd hless hstart.not_gt
      · have hends : range.endNs = back.endNs :=
          (hend ▸ le_last_time _).antisymm (OrderDual.toDual_le_toDual.mp hends)
        cases range
        cases back
        simp_all
    rwa [hsame] at hsub ⊢

namespace TimeRangeSet

/-- The ranges are valid and sorted, with a time between each two. -/
def Canonical (set : TimeRangeSet) : Prop :=
  set.WellFormed ∧ set.ranges.Pairwise TimeRange.Separated

/-- The range clashes with none of the set. -/
def Fits (set : TimeRangeSet) (range : TimeRange) : Prop :=
  ∀ held ∈ set.ranges, ¬Clash held range.ordered ∧ ¬Clash range.ordered held

instance (set : TimeRangeSet) (range : TimeRange) : Decidable (Fits set range) :=
  inferInstanceAs (Decidable (∀ held ∈ set.ranges, _ ∧ _))

variable {sort sort' : List TimeRange → List TimeRange} {set set' : TimeRangeSet}

/-- The times of a set determine its canonical form. -/
theorem Canonical.eq (h : set.Canonical) (h' : set'.Canonical)
    (hpoints : set.points = set'.points) : set = set' := by
  have hgap : ∀ {x y : TimeRange}, x.Separated y → ∃ t, x.endNs < t ∧ t < y.startNs := by
    intro x y hsep
    have htop := y.startNs.toNat_lt
    unfold TimeRange.Separated at hsep
    have hsum : (x.endNs + 1).toNat = x.endNs.toNat + 1 :=
      Words.toNat_add_of_lt (by show x.endNs.toNat + 1 < 2 ^ 64; omega)
    refine ⟨x.endNs + 1, ?_, ?_⟩ <;> rw [UInt64.lt_iff_toNat_lt, hsum] <;> omega
  have hranges : set.ranges = set'.ranges :=
    @eq_of_cover _ _ _ TimeRange.startNs TimeRange.endNs
      (fun x y hlo hhi => by cases x; cases y; simp_all) _ _ (h.2.imp hgap) (h'.2.imp hgap)
      h.1 h'.1 hpoints
  cases set
  cases set'
  exact congrArg TimeRangeSet.mk hranges

/-- Adding a range that fits keeps the set canonical. -/
theorem Canonical.add (hsort : Sorts startsBefore sort) (h : set.Canonical) {range : TimeRange}
    (hfits : set.Fits range) : (set.add sort range).Canonical := by
  refine ⟨h.1.add hsort range, TimeRange.pairwise_separated ?_⟩
  -- in whatever order they come, no two of the ranges clash
  have hfree : (set.ranges ++ [range.ordered]).Pairwise fun x y => ¬Clash x y ∧ ¬Clash y x := by
    refine List.pairwise_append.mpr ⟨?_, List.pairwise_singleton _ _, ?_⟩
    · refine h.2.imp_of_mem fun {x y} hx _ hsep => ⟨fun hclash => ?_, fun hclash => ?_⟩
      · exact TimeRange.end_ne_of_separated hsep hclash.1
      · have hvalid := UInt64.le_iff_toNat_le.mp (h.1 x hx)
        have hstart := UInt64.le_iff_toNat_le.mp hclash.2.1
        unfold TimeRange.Separated at hsep
        omega
    · intro held hheld other hother
      rw [List.mem_singleton.mp hother]
      exact hfits held hheld
  have hsorted := ((hsort.perm _).pairwise_iff fun h => h.symm).mpr hfree
  refine ((hsort.pairwise _).and hsorted).imp ?_
  rintro x y ⟨hle, hclash, -⟩
  have hstart : x.startNs ≤ y.startNs := starts_before_compares.not_less_iff.mp hle
  refine ⟨hstart, fun hend => ?_⟩
  by_contra hne
  exact hclash ⟨hend, hstart, UInt64.pos_iff_ne_zero.mpr hne⟩

/-- A range that clashes is not joined, if the wider range comes first. -/
theorem fits_of_canonical {range : TimeRange}
    (hadd : (set.add (stableSort widerFirst) range).Canonical) : set.Fits range := by
  have hnone : ∀ back next, [back, next].Subperm (set.ranges ++ [range.ordered]) →
      ¬Clash back next := fun back next hsub hclash =>
    (Overrun.of_clash (sublist_of_clash hsub hclash) hclash).not_pairwise hadd.2
  intro held hheld
  have hsub : [held, range.ordered].Subperm (set.ranges ++ [range.ordered]) :=
    ((List.singleton_sublist.mpr hheld).append (List.Sublist.refl _)).subperm
  exact ⟨hnone _ _ hsub, hnone _ _ ((List.Perm.swap _ _ _).subperm.trans hsub)⟩

/-- For every list of ranges and every order of it: whatever the sort does with equal starts, all
sets on the way are canonical and both orders end in the same ranges, exactly when no range that is
added clashes with one of the set. -/
theorem canonical_iff_along {added other : List TimeRange} (hperm : added.Perm other) :
    (∀ sort sort', Sorts startsBefore sort → Sorts startsBefore sort' →
      (∀ n, (run (TimeRangeSet.add sort) {} (added.take n)).Canonical) ∧
      (∀ n, (run (TimeRangeSet.add sort') {} (other.take n)).Canonical) ∧
      (run (TimeRangeSet.add sort) {} added).ranges =
        (run (TimeRangeSet.add sort') {} other).ranges) ↔
    Along (TimeRangeSet.add (stableSort startsBefore)) Fits {} added ∧
      Along (TimeRangeSet.add (stableSort startsBefore)) Fits {} other := by
  have hstable := starts_before_compares.stable_sort_sorts
  have hempty : Canonical {} := ⟨fun _ hnone => absurd hnone List.not_mem_nil, List.Pairwise.nil⟩
  have hall (added : List TimeRange) :
      (∀ sort, Sorts startsBefore sort →
        ∀ n, (run (TimeRangeSet.add sort) {} (added.take n)).Canonical) ↔
      Along (TimeRangeSet.add (stableSort startsBefore)) Fits {} added :=
    states_iff_along_choices (fun _ _ _ hsort h hfits => h.add hsort hfits)
      (fun sort sort' set range hsort hsort' h h' => h.eq h'
        (by rw [points_add hsort, points_add hsort']))
      (fun _ _ _ (h : ∀ sort, Sorts startsBefore sort → _) =>
        fits_of_canonical (h _ wider_first_sorts))
      hstable hempty added
  rw [← hall added, ← hall other]
  constructor
  · intro h
    exact ⟨fun sort hsort => (h sort sort hsort hsort).1,
      fun sort hsort => (h sort sort hsort hsort).2.1⟩
  · rintro ⟨hadded, hother⟩ sort sort' hsort hsort'
    refine ⟨hadded sort hsort, hother sort' hsort', ?_⟩
    have hend := hadded sort hsort added.length
    have hend' := hother sort' hsort' other.length
    rw [List.take_length] at hend hend'
    refine congrArg ranges (hend.eq hend' ?_)
    exact (added_spec hsort added).2.trans
      ((cover_perm hperm).trans (added_spec hsort' other).2.symm)

/-- A range with its ends the wrong way, and one that touches it, in both orders. -/
theorem canonical_iff_along_swapped :
    (∀ sort sort', Sorts startsBefore sort → Sorts startsBefore sort' →
      (∀ n, (run (TimeRangeSet.add sort) {}
        (List.take n [(⟨9, 5⟩ : TimeRange), ⟨10, 20⟩])).Canonical) ∧
      (∀ n, (run (TimeRangeSet.add sort') {}
        (List.take n [(⟨10, 20⟩ : TimeRange), ⟨9, 5⟩])).Canonical) ∧
      (run (TimeRangeSet.add sort) {} [⟨9, 5⟩, ⟨10, 20⟩]).ranges =
        (run (TimeRangeSet.add sort') {} [⟨10, 20⟩, ⟨9, 5⟩]).ranges) ↔
    Along (TimeRangeSet.add (stableSort startsBefore)) Fits {} [⟨9, 5⟩, ⟨10, 20⟩] ∧
      Along (TimeRangeSet.add (stableSort startsBefore)) Fits {} [⟨10, 20⟩, ⟨9, 5⟩] :=
  canonical_iff_along (List.Perm.swap (⟨10, 20⟩ : TimeRange) ⟨9, 5⟩ [])

/-- A range up to the last time is put in front of one that starts with it, and joined to it in the
other order. -/
theorem canonical_order_dependent :
    let range : TimeRange := ⟨5, 0xffffffffffffffff⟩
    let sort := stableSort startsBefore
    Sorts startsBefore sort ∧
      (run (TimeRangeSet.add sort) {} [range, ⟨5, 10⟩]).ranges = [range, ⟨5, 10⟩] ∧
      (run (TimeRangeSet.add sort) {} [⟨5, 10⟩, range]).ranges = [range] ∧
      ¬(run (TimeRangeSet.add sort) {} [range, ⟨5, 10⟩]).Canonical := by
  intro range sort
  have hsorted : ∀ ranges : List TimeRange,
      ranges.Pairwise (fun left right => left.startNs ≤ right.startNs) → sort ranges = ranges :=
    fun _ => stable_sort_of_pairwise starts_before_compares
  have hfirst : (run (TimeRangeSet.add sort) {} [range, ⟨5, 10⟩]).ranges = [range, ⟨5, 10⟩] := by
    simp only [run_cons, run_nil, TimeRangeSet.add, normalize, List.nil_append]
    rw [hsorted [range.ordered] (by decide), hsorted _ (by decide)]
    decide
  refine ⟨starts_before_compares.stable_sort_sorts, hfirst, ?_, fun hcanonical => ?_⟩
  · simp only [run_cons, run_nil, TimeRangeSet.add, normalize, List.nil_append]
    rw [hsorted [TimeRange.ordered ⟨5, 10⟩] (by decide), hsorted _ (by decide)]
    decide
  · have hpair := hcanonical.2
    rw [hfirst] at hpair
    exact end_ne_of_separated (List.pairwise_pair.mp hpair) rfl

end TimeRangeSet

end Aethon.Storage
