import Mathlib.Data.Set.Card
import Mathlib.Order.Interval.Finset.Nat
import Aethon.Rf.SweepPlanner

/-!
# Optimised sweep plans

`optimize_sweep_plan` sorts the segments, merges neighbours into ranges that hold both, and measures
what the segments cover. `optimize_sweep_plan_spec` says that no frequency gets lost, that a merged
segment fits the span, and that the measure is exact.
-/

namespace Aethon.Rf

open FrequencyRange StableSort Sweeping

/-! ## The comparisons -/

section Comparisons

open scoped Words

theorem lower_first_compares : Compares lowerFirst fun range => range.lowerHz := by
  intro left right
  rw [lowerFirst, decide_eq_true_eq]

/-- Segments are compared by falling weight of the priority and then by the lower end. -/
theorem segment_first_compares :
    Compares segmentFirst fun segment =>
      toLex (OrderDual.toDual (priorityWeight segment.priority), segment.range.lowerHz) := by
  refine compares_lex fun left right => ?_
  unfold segmentFirst Before
  by_cases hweight : priorityWeight left.priority = priorityWeight right.priority
  · rw [if_neg (not_not.mpr hweight)]
    simp [hweight]
  · rw [if_pos hweight]
    simp [hweight]

end Comparisons

/-! ## Merging -/

section Merging

variable {span : UInt64} {left right : SweepSegment}

/-- Segments are only merged into one that fits the span. -/
theorem width_of_can_merge (h : canMerge span left right = true) :
    (mergedSegment left right).range.widthHz ≤ span := by
  unfold canMerge at h
  split_ifs at h
  exact of_decide_eq_true h

/-- Every segment of a merged list is one of the list, or fits the span. -/
theorem merge_segments_width (segments : List SweepSegment) :
    ∀ segment ∈ mergeSegments span segments,
      segment ∈ segments ∨ segment.range.widthHz ≤ span := by
  have hjoin : ∀ left right, (!canMerge span left right) = false →
      (mergedSegment left right).range.widthHz ≤ span := fun left right happart =>
    width_of_can_merge (by simpa using happart)
  exact forall_mem_foldl_push (p := fun segment => segment ∈ segments ∨ _) _ _
    (fun left right happart _ _ => Or.inr (hjoin left right happart)) (List.forall_mem_nil _)
    fun segment hmem => Or.inl (List.mem_filter.mp hmem).1

/-- The frequencies of a list of segments. -/
def covered (segments : List SweepSegment) : Set Nat :=
  cover (fun segment => segment.range.frequencies) segments

/-- Segments without a frequency may go. -/
theorem covered_filter (segments : List SweepSegment) :
    covered (segments.filter fun segment => !segment.range.empty) = covered segments := by
  ext frequency
  simp only [covered, mem_cover, List.mem_filter, Bool.not_eq_true']
  constructor
  · rintro ⟨segment, ⟨hmem, -⟩, hfrequency⟩
    exact ⟨segment, hmem, hfrequency⟩
  · rintro ⟨segment, hmem, hfrequency⟩
    refine ⟨segment, ⟨hmem, ?_⟩, hfrequency⟩
    exact not_empty_iff.mpr (Nat.lt_of_le_of_lt hfrequency.1 hfrequency.2)

/-- Merging loses no frequency. -/
theorem covered_merge_segments (segments : List SweepSegment) :
    covered segments ⊆ covered (mergeSegments span segments) := by
  rw [← covered_filter]
  refine Set.subset_union_right.trans (cover_subset_foldl_push ?_ [] _)
  exact fun left right => frequencies_merge_superset

end Merging

/-! ## Measuring -/

/-- The total and the current range measure a set: what is in front of the current range is counted
in the total. -/
structure Measures (points : Set Nat) (state : UInt64 × FrequencyRange) (done : Set Nat) :
    Prop where
  points_eq : points = done ∪ state.2.frequencies
  total : state.1.toNat = done.ncard
  before : ∀ frequency ∈ done, frequency < state.2.lowerHz.toNat
  start : state.2.empty = true → done = ∅

theorem ncard_ico (lower upper : Nat) : (Set.Ico lower upper).ncard = upper - lower := by
  rw [← Finset.coe_Ico, Set.ncard_coe_finset, Nat.card_Ico]

section Measuring

variable {points done : Set Nat} {total : UInt64} {current range : FrequencyRange}

/-- A total and a current range measure their set when the width is added. -/
theorem Measures.ncard (h : Measures points (total, current) done) :
    (safeAdd total current.widthHz).toNat = points.ncard := by
  have hupper := current.upperHz.toNat_lt
  have hlower := current.lowerHz.toNat_lt
  have hinside : done ⊆ Set.Ico 0 current.lowerHz.toNat := fun frequency hmem =>
    ⟨Nat.zero_le _, h.before frequency hmem⟩
  have hdone := Set.ncard_le_ncard hinside (Set.finite_Ico _ _)
  have hdisjoint : Disjoint done current.frequencies := by
    refine Set.disjoint_left.mpr fun frequency hmem hcurrent => ?_
    exact absurd hcurrent.1 (Nat.not_le.mpr (h.before frequency hmem))
  have hunion : points.ncard = done.ncard + (current.upperHz.toNat - current.lowerHz.toNat) := by
    rw [h.points_eq, Set.ncard_union_eq hdisjoint ((Set.finite_Ico _ _).subset hinside)
      (Set.finite_Ico _ _), frequencies, ncard_ico]
  have htotal : total.toNat = done.ncard := h.total
  rw [ncard_ico] at hdone
  rw [toNat_safe_add, toNat_width_hz, hunion, htotal]
  omega

/-- Nothing is measured before the first range. -/
theorem Measures.first (h : Measures points (total, current) done) (hcurrent : current.empty = true)
    (hrange : range.empty = false) : Measures (points ∪ range.frequencies) (total, range) done := by
  have hdone : done = ∅ := h.start hcurrent
  rw [h.points_eq, empty_iff.mp hcurrent, Set.union_empty]
  refine ⟨rfl, h.total, ?_, fun hempty => ?_⟩
  · rw [hdone]
    exact fun _ hnone => absurd hnone (Set.notMem_empty _)
  · rw [hrange] at hempty
    exact absurd hempty Bool.false_ne_true

/-- A range that meets or touches the current one is merged with it. -/
theorem Measures.widen (h : Measures points (total, current) done)
    (hcurrent : current.empty = false) (hrange : range.empty = false)
    (hlead : current.lowerHz.toNat ≤ range.lowerHz.toNat)
    (hmeets : range.lowerHz.toNat ≤ current.upperHz.toNat) :
    Measures (points ∪ range.frequencies) (total, merge current range) done ∧
      (merge current range).lowerHz.toNat ≤ range.lowerHz.toNat := by
  have hupper := not_empty_iff.mp hrange
  have hunion := frequencies_merge hcurrent hrange hmeets (by omega)
  have hlower : (merge current range).lowerHz.toNat = current.lowerHz.toNat := by
    rw [merge_of_not_empty hcurrent hrange, Words.toNat_min]
    exact Nat.min_eq_left hlead
  refine ⟨⟨?_, h.total, fun frequency hmem => ?_, fun hempty => ?_⟩, ?_⟩
  · rw [hunion, h.points_eq, Set.union_assoc]
  · rw [hlower]
    exact h.before frequency hmem
  · rw [empty_iff, hunion, Set.union_empty_iff, ← empty_iff, hcurrent] at hempty
    exact absurd hempty.1 Bool.false_ne_true
  · rw [hlower]
    exact hlead

/-- Behind the current range all that was measured is in the total. -/
theorem Measures.close (h : Measures points (total, current) done)
    (hcurrent : current.empty = false) (hrange : range.empty = false)
    (hapart : current.upperHz.toNat ≤ range.lowerHz.toNat) :
    Measures (points ∪ range.frequencies) (safeAdd total current.widthHz, range) points := by
  have hupper := not_empty_iff.mp hcurrent
  refine ⟨rfl, h.ncard, fun frequency hmem => ?_, fun hempty => ?_⟩
  · rw [h.points_eq] at hmem
    rcases hmem with hmem | hmem
    · have hbefore : frequency < current.lowerHz.toNat := h.before frequency hmem
      show frequency < range.lowerHz.toNat
      omega
    · exact Nat.lt_of_lt_of_le hmem.2 hapart
  · rw [hrange] at hempty
    exact absurd hempty Bool.false_ne_true

/-- One round of the loop measures one more range. -/
theorem Measures.step (h : Measures points (total, current) done)
    (hlead : current.empty = false → current.lowerHz.toNat ≤ range.lowerHz.toNat) :
    (∃ done', Measures (points ∪ range.frequencies) (occupyStep (total, current) range) done') ∧
      ((occupyStep (total, current) range).2.empty = false →
        (occupyStep (total, current) range).2.lowerHz.toNat ≤ range.lowerHz.toNat) := by
  unfold occupyStep
  dsimp only
  cases hrange : range.empty with
  | true =>
      rw [if_pos rfl, empty_iff.mp hrange, Set.union_empty]
      exact ⟨⟨done, h⟩, hlead⟩
  | false =>
      rw [if_neg Bool.false_ne_true]
      cases hcurrent : current.empty with
      | true =>
          rw [if_pos rfl]
          exact ⟨⟨done, h.first hcurrent hrange⟩, fun _ => Nat.le_refl _⟩
      | false =>
          rw [if_neg Bool.false_ne_true]
          have hupper := not_empty_iff.mp hcurrent
          have hupper' := not_empty_iff.mp hrange
          by_cases htouch : current.overlaps range = true ∨ current.upperHz = range.lowerHz
          · rw [if_pos htouch]
            have hmeets : range.lowerHz.toNat ≤ current.upperHz.toNat := by
              rcases htouch with hoverlaps | hends
              · exact (overlaps_iff.mp hoverlaps).2.le
              · rw [hends]
            obtain ⟨hmerged, hlower⟩ := h.widen hcurrent hrange (hlead hcurrent) hmeets
            exact ⟨⟨done, hmerged⟩, fun _ => hlower⟩
          · rw [if_neg htouch]
            obtain ⟨hoverlaps, hends⟩ := not_or.mp htouch
            have hapart : current.upperHz.toNat ≤ range.lowerHz.toNat := by
              by_contra hless
              have := hlead hcurrent
              exact hoverlaps (overlaps_iff.mpr ⟨by omega, by omega⟩)
            exact ⟨⟨points, h.close hcurrent hrange hapart⟩, fun _ => Nat.le_refl _⟩

/-- The loop measures the ranges of a sorted list. -/
theorem measures_foldl {ranges : List FrequencyRange} {state : UInt64 × FrequencyRange}
    (h : ∃ done, Measures points state done)
    (hlead : ∀ range ∈ ranges, state.2.empty = false →
      state.2.lowerHz.toNat ≤ range.lowerHz.toNat)
    (hsorted : ranges.Pairwise fun left right => left.lowerHz.toNat ≤ right.lowerHz.toNat) :
    ∃ done, Measures (points ∪ cover frequencies ranges) (ranges.foldl occupyStep state) done := by
  induction ranges generalizing points state with
  | nil =>
      rw [cover_nil, Set.union_empty]
      exact h
  | cons range ranges ih =>
      obtain ⟨hrange, hsorted⟩ := List.pairwise_cons.mp hsorted
      obtain ⟨done, h⟩ := h
      obtain ⟨hstep, hnext⟩ := h.step (hlead range List.mem_cons_self)
      rw [cover_cons, ← Set.union_assoc]
      exact ih hstep (fun next hmem hempty => (hnext hempty).trans (hrange next hmem)) hsorted

end Measuring

open scoped Words in
/-- The occupied width is the number of frequencies that the segments cover. -/
theorem occupied_width_eq {sort : List FrequencyRange → List FrequencyRange}
    (hsort : Sorts lowerFirst sort) (segments : List SweepSegment) :
    (occupiedWidth sort segments).toNat = (covered segments).ncard := by
  have hpoints : cover frequencies (sort (segments.map (·.range))) = covered segments := by
    rw [cover_perm (hsort.perm _), cover_map]
    rfl
  have hsorted : (sort (segments.map (·.range))).Pairwise fun left right =>
      left.lowerHz.toNat ≤ right.lowerHz.toNat :=
    (hsort.pairwise _).imp fun hle =>
      UInt64.le_iff_toNat_le.mp (lower_first_compares.not_less_iff.mp hle)
  have hstart : Measures ∅ (0, {}) ∅ :=
    ⟨by rw [empty_iff.mp rfl, Set.union_empty], by rw [Set.ncard_empty]; rfl,
      fun _ hnone => absurd hnone (Set.notMem_empty _), fun _ => rfl⟩
  obtain ⟨done, h⟩ := measures_foldl ⟨_, hstart⟩ (fun _ _ hnone => absurd hnone (by decide)) hsorted
  rw [Set.empty_union, hpoints] at h
  unfold occupiedWidth
  generalize (sort (segments.map (·.range))).foldl occupyStep (0, {}) = state at h ⊢
  obtain ⟨total, current⟩ := state
  dsimp only
  cases hempty : current.empty with
  | false =>
      rw [Bool.not_false, if_pos rfl]
      exact h.ncard
  | true =>
      rw [Bool.not_true, if_neg Bool.false_ne_true]
      have hdone : done = ∅ := h.start hempty
      have hnone : covered segments = done := by
        rw [h.points_eq, empty_iff.mp hempty, Set.union_empty]
      rw [hnone]
      exact h.total

/-! ## Optimising -/

/-- A frequency of some segment, as the code sees it. -/
theorem mem_covered_iff {segments : List SweepSegment} {frequencyHz : UInt64} :
    frequencyHz.toNat ∈ covered segments ↔
      ∃ segment ∈ segments, segment.range.contains frequencyHz = true := by
  simp only [covered, mem_cover, contains_iff]

/-- For every plan, receiver and span, whatever the sorts do with segments that compare equal: every
frequency in a segment is in one afterwards, a segment that is not one of the plan is no wider than
the span, and `covered_hz` is the number of frequencies in the segments. -/
theorem optimize_sweep_plan_spec (sort : List SweepSegment → List SweepSegment)
    (sortRanges : List FrequencyRange → List FrequencyRange) (span : UInt64) (plan : SweepPlan)
    (receiver : ReceiverProfile) (hsort : Sorts segmentFirst sort)
    (hranges : Sorts lowerFirst sortRanges) :
    let result := optimizeSweepPlan sort sortRanges span plan receiver
    (∀ frequencyHz, (∃ segment ∈ plan.segments, segment.range.contains frequencyHz = true) →
      ∃ segment ∈ result.segments, segment.range.contains frequencyHz = true) ∧
    (∀ segment ∈ result.segments, segment ∈ plan.segments ∨ segment.range.widthHz ≤ span) ∧
    result.coveredHz.toNat =
      (cover (fun segment => segment.range.frequencies) result.segments).ncard := by
  intro result
  refine ⟨fun frequencyHz hbefore => ?_, fun segment hmem => ?_,
    occupied_width_eq hranges result.segments⟩
  · rw [← mem_covered_iff] at hbefore ⊢
    have hperm : covered plan.segments = covered (sort plan.segments) :=
      (cover_perm (hsort.perm plan.segments)).symm
    exact covered_merge_segments _ (hperm ▸ hbefore)
  · exact (merge_segments_width _ segment hmem).imp_left (hsort.perm plan.segments).mem_iff.mp

open scoped Words in
/-- Two segments with a gap between them, of one priority. -/
theorem optimize_sweep_plan_gap :
    let plan : SweepPlan := { segments := [
      { range := ⟨30, 40⟩, binWidthHz := 10 }, { range := ⟨0, 20⟩, binWidthHz := 10 }] }
    let result := optimizeSweepPlan (stableSort segmentFirst) (stableSort lowerFirst) 50 plan {}
    result.coveredHz.toNat =
      (cover (fun segment => segment.range.frequencies) result.segments).ncard := by
  intro plan result
  exact (optimize_sweep_plan_spec _ _ 50 plan {} segment_first_compares.stable_sort_sorts
    lower_first_compares.stable_sort_sorts).2.2

end Aethon.Rf
