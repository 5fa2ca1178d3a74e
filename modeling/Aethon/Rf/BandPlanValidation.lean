import Aethon.Rf.BandPlan

/-!
# What band plan validation reports

`validate` compares neighbours in the order of the plan, and a conflict of two allocations need not
be one of neighbours. `validation_complete_iff` says for which plans the reports are those of all
pairs, with ranges that overlap read as ranges that share a frequency or as `overlaps` has it. The
two differ where a range is empty.
-/

namespace Aethon.Rf

open FrequencyRange BandPlan

/-- The ranges share a frequency. -/
def Meet (left right : FrequencyRange) : Prop :=
  (left.frequencies ∩ right.frequencies).Nonempty

/-- The ranges overlap for the code. -/
def Overlap (left right : FrequencyRange) : Prop :=
  left.overlaps right = true

/-- Two primary allocations of different services with overlapping ranges. -/
def Conflict (overlapping : FrequencyRange → FrequencyRange → Prop) (left right : BandAllocation) :
    Prop :=
  left.status = .primary ∧ right.status = .primary ∧ left.service ≠ right.service ∧
    overlapping left.range right.range

/-- The frequencies that two allocations share. -/
def shared (left right : BandAllocation) : Set Nat :=
  left.range.frequencies ∩ right.range.frequencies

/-- Every two allocations in conflict are reported with the frequencies that they share, and every
report is one of those. -/
def Complete (overlapping : FrequencyRange → FrequencyRange → Prop) (plan : BandPlan) : Prop :=
  (∀ left right, [left, right].Sublist plan.allocations → Conflict overlapping left right →
    ∃ issue ∈ plan.validate, issue.code = "band.primary.overlap" ∧
      issue.range.frequencies = shared left right) ∧
  ∀ issue ∈ plan.validate, issue.code = "band.primary.overlap" →
    ∃ left right, [left, right].Sublist plan.allocations ∧ Conflict overlapping left right ∧
      issue.range.frequencies = shared left right

/-- Every two allocations in conflict share the same frequencies as two neighbours in conflict. -/
def NeighboursSuffice (overlapping : FrequencyRange → FrequencyRange → Prop) (plan : BandPlan) :
    Prop :=
  ∀ left right, [left, right].Sublist plan.allocations → Conflict overlapping left right →
    ∃ previous current, [previous, current] <:+: plan.allocations ∧
      Conflict overlapping previous current ∧ shared previous current = shared left right

variable {plan : BandPlan} {left right previous current : BandAllocation}

theorem clash_iff : clash previous current = true ↔ Conflict Overlap previous current := by
  unfold clash Conflict Overlap
  rw [decide_eq_true_eq]
  tauto

theorem frequencies_overlap_issue :
    (overlapIssue previous current).range.frequencies = shared previous current :=
  frequencies_intersect

/-- Allocations that share a frequency are in conflict for the code. -/
theorem Conflict.overlap (h : Conflict Meet left right) : Conflict Overlap left right :=
  ⟨h.1, h.2.1, h.2.2.1, overlaps_of_meet h.2.2.2⟩

/-- Allocations in conflict for the code are in conflict when they share a frequency. -/
theorem Conflict.meet (h : Conflict Overlap left right) (hshared : (shared left right).Nonempty) :
    Conflict Meet left right :=
  ⟨h.1, h.2.1, h.2.2.1, hshared⟩

/-- The reports, by the neighbours that they are about. -/
theorem report_iff {frequencies : Set Nat} :
    (∃ issue ∈ plan.validate, issue.code = "band.primary.overlap" ∧
        issue.range.frequencies = frequencies) ↔
      ∃ previous current, [previous, current] <:+: plan.allocations ∧
        Conflict Overlap previous current ∧ shared previous current = frequencies := by
  constructor
  · rintro ⟨issue, hissue, hcode, rfl⟩
    obtain ⟨previous, current, hpair, hclash, rfl⟩ := mem_validate_iff.mp ⟨hissue, hcode⟩
    exact ⟨previous, current, hpair, clash_iff.mp hclash, frequencies_overlap_issue.symm⟩
  · rintro ⟨previous, current, hpair, hconflict, rfl⟩
    obtain ⟨hissue, hcode⟩ :=
      mem_validate_iff.mpr ⟨previous, current, hpair, clash_iff.mpr hconflict, rfl⟩
    exact ⟨_, hissue, hcode, frequencies_overlap_issue⟩

/-- The reports are complete when the neighbours in conflict for the code stand for all pairs in
conflict. -/
theorem complete_iff_neighbours {overlapping : FrequencyRange → FrequencyRange → Prop} :
    Complete overlapping plan ↔
      (∀ left right, [left, right].Sublist plan.allocations → Conflict overlapping left right →
        ∃ previous current, [previous, current] <:+: plan.allocations ∧
          Conflict Overlap previous current ∧ shared previous current = shared left right) ∧
      ∀ previous current, [previous, current] <:+: plan.allocations →
        Conflict Overlap previous current →
          ∃ left right, [left, right].Sublist plan.allocations ∧ Conflict overlapping left right ∧
            shared previous current = shared left right := by
  unfold Complete
  simp only [report_iff]
  refine and_congr_right fun _ => ?_
  constructor
  · intro hissues previous current hpair hconflict
    obtain ⟨hissue, hcode⟩ :=
      mem_validate_iff.mpr ⟨previous, current, hpair, clash_iff.mpr hconflict, rfl⟩
    rw [← frequencies_overlap_issue]
    exact hissues _ hissue hcode
  · intro hneighbours issue hissue hcode
    obtain ⟨previous, current, hpair, hclash, rfl⟩ := mem_validate_iff.mp ⟨hissue, hcode⟩
    rw [frequencies_overlap_issue]
    exact hneighbours previous current hpair (clash_iff.mp hclash)

/-- For every plan: with ranges that share a frequency, the reports are complete exactly when
neighbours suffice and no neighbours overlap for the code alone; with ranges that overlap for the
code, exactly when neighbours suffice. -/
theorem validation_complete_iff (plan : BandPlan) :
    (Complete Meet plan ↔ NeighboursSuffice Meet plan ∧
      ∀ previous current, [previous, current] <:+: plan.allocations →
        Conflict Overlap previous current → Meet previous.range current.range) ∧
    (Complete Overlap plan ↔ NeighboursSuffice Overlap plan) := by
  rw [complete_iff_neighbours, complete_iff_neighbours]
  refine ⟨⟨?_, ?_⟩, ⟨And.left, fun hsuffice => ⟨hsuffice, ?_⟩⟩⟩
  · rintro ⟨hreported, hjustified⟩
    refine ⟨fun left right hpair hconflict => ?_, fun previous current hpair hconflict => ?_⟩
    · obtain ⟨previous, current, hneighbours, hclash, hshared⟩ := hreported _ _ hpair hconflict
      have hmeet : (shared left right).Nonempty := hconflict.2.2.2
      exact ⟨previous, current, hneighbours, hclash.meet (hshared ▸ hmeet), hshared⟩
    · obtain ⟨left, right, -, hmeet, hshared⟩ := hjustified _ _ hpair hconflict
      show (shared previous current).Nonempty
      rw [hshared]
      exact hmeet.2.2.2
  · rintro ⟨hsuffice, hmeet⟩
    refine ⟨fun left right hpair hconflict => ?_, fun previous current hpair hconflict => ?_⟩
    · obtain ⟨previous, current, hneighbours, hclash, hshared⟩ := hsuffice _ _ hpair hconflict
      exact ⟨previous, current, hneighbours, hclash.overlap, hshared⟩
    · exact ⟨previous, current, hpair.sublist, hconflict.meet (hmeet _ _ hpair hconflict), rfl⟩
  · intro previous current hpair hconflict
    exact ⟨previous, current, hpair.sublist, hconflict, rfl⟩

/-- A wide allocation, one of the same service in it, and behind that one of another service. -/
def nestedPlan : BandPlan where
  allocations := [
    { name := "wide", range := ⟨0, 100⟩, service := .cellular },
    { name := "nested", range := ⟨10, 20⟩, service := .cellular },
    { name := "radar", range := ⟨30, 40⟩, service := .radar }]
  sorted := by decide

/-- The conflict of the wide allocation with the last one is not reported. -/
theorem nested_conflict_missed :
    nestedPlan.validate = [] ∧ ¬Complete Meet nestedPlan ∧ ¬Complete Overlap nestedPlan := by
  have hnone : nestedPlan.validate = [] := by decide
  let wide : BandAllocation := { name := "wide", range := ⟨0, 100⟩, service := .cellular }
  let radar : BandAllocation := { name := "radar", range := ⟨30, 40⟩, service := .radar }
  have hpair : [wide, radar].Sublist nestedPlan.allocations := by decide
  have hconflict : Conflict Meet wide radar :=
    ⟨rfl, rfl, by decide, 30, ⟨by decide, by decide⟩, by decide, by decide⟩
  refine ⟨hnone, fun hcomplete => ?_, fun hcomplete => ?_⟩
  · obtain ⟨issue, hissue, -⟩ := hcomplete.1 wide radar hpair hconflict
    rw [hnone] at hissue
    exact absurd hissue List.not_mem_nil
  · obtain ⟨issue, hissue, -⟩ := hcomplete.1 wide radar hpair hconflict.overlap
    rw [hnone] at hissue
    exact absurd hissue List.not_mem_nil

end Aethon.Rf
