import Mathlib.Data.Char
import Mathlib.Data.List.Lex
import Mathlib.Data.String.Basic
import Aethon.Foundation.Extremum
import Aethon.Foundation.Runs
import Aethon.Foundation.StableSort
import Aethon.Rf.ChannelRaster
import Aethon.Rf.Types

/-!
# Band plans

A band plan keeps its allocations sorted by their ranges, and `validate` looks for what is wrong
with each of them and with each two neighbours, after `rf/band_plan.cpp`. The order is a field of
`BandPlan`; `allocations_run_of_sorted` says that every ordered list is the plan of its additions.
`mem_validate_iff` is what is known of the overlaps that are reported. A plan is asked for the best
allocation of a frequency and for its nearest channel: `best_allocation_least` and
`nearest_channel_exact`. The latter computes the channels of allocations by a loop that ends for
rasters as in `channels_within_eq` and for no others.
-/

namespace Aethon.Rf

open Extremum Runs StableSort

/-- How both directions of a link share the band. -/
inductive DuplexMode where
  | simplex
  | fddDownlink
  | fddUplink
  | tdd
  | receiveOnly
  | transmitOnly
  deriving DecidableEq, Repr

/-- The rights of a service in its allocation. -/
inductive AllocationStatus where
  | primary
  | secondary
  | shared
  | experimental
  | protectedPassive
  deriving DecidableEq, Repr

/-- A channel that an allocation offers. -/
structure RfChannel where
  number : UInt32 := 0
  centerHz : UInt64 := 0
  bandwidthHz : UInt64 := 0
  duplex : DuplexMode := .simplex
  label : String := ""
  deriving DecidableEq, Repr

/-- A range that is given to a service, with its rasters. -/
structure BandAllocation where
  name : String := ""
  range : FrequencyRange := {}
  service : RfService := .unknown
  status : AllocationStatus := .primary
  duplex : DuplexMode := .simplex
  guardHz : UInt64 := 0
  expectedChannelWidthHz : UInt64 := 0
  regulator : String := ""
  notes : String := ""
  rasters : List ChannelRaster := []
  deriving DecidableEq, Repr

/-- What is wrong with an allocation. -/
structure BandPlanIssue where
  code : String
  message : String
  range : FrequencyRange
  deriving DecidableEq, Repr

/-- What a query asks for. -/
structure BandPlanQuery where
  range : Option FrequencyRange := none
  service : Option RfService := none
  includeSecondary : Bool := true
  includeExperimental : Bool := true
  deriving DecidableEq, Repr

/-- An allocation is one that the query asks for. -/
def allocationAllowed (allocation : BandAllocation) (query : BandPlanQuery) : Bool :=
  if !query.includeSecondary ∧ allocation.status = .secondary then false
  else if !query.includeExperimental ∧ allocation.status = .experimental then false
  else if query.service.any fun service => allocation.service ≠ service then false
  else if query.range.any fun range => !allocation.range.overlaps range then false
  else true

/-- The rank of a status, the best first. -/
def allocationRank : AllocationStatus → Nat
  | .primary => 0
  | .shared => 1
  | .protectedPassive => 2
  | .secondary => 3
  | .experimental => 4

/-- The comparison of the sort in `allocations_at`. -/
def rankedBefore (left right : BandAllocation) : Bool :=
  if allocationRank left.status ≠ allocationRank right.status then
    allocationRank left.status < allocationRank right.status
  else left.range.widthHz < right.range.widthHz

/-- The band of a channel. The sum is one of words. -/
def channelRange (channel : RfChannel) : FrequencyRange :=
  let half := channel.bandwidthHz / 2
  ⟨if channel.centerHz > half then channel.centerHz - half else 0,
    channel.centerHz + half + channel.bandwidthHz % 2⟩

/-- The centre of a channel and what it occupies lie in the range of an allocation. -/
def isChannelInsideAllocation (channel : RfChannel) (allocation : BandAllocation) : Bool :=
  allocation.range.contains channel.centerHz &&
    (channelRange channel).lowerHz ≥ allocation.range.lowerHz &&
    (channelRange channel).upperHz ≤ allocation.range.upperHz

/-- The comparison of `sort_allocations`. -/
def allocationBefore (left right : BandAllocation) : Bool :=
  if left.range.lowerHz ≠ right.range.lowerHz then left.range.lowerHz < right.range.lowerHz
  else if left.range.upperHz ≠ right.range.upperHz then left.range.upperHz < right.range.upperHz
  else left.name < right.name

/-- Allocations in the order of their ranges. -/
structure BandPlan where
  name : String := ""
  allocations : List BandAllocation := []
  sorted : allocations.Pairwise fun left right => (!allocationBefore right left) = true := by simp

namespace BandPlan

/-- The allocations are sorted again after each addition, by a sort that may leave those that
compare equal in any order. -/
def addAllocation {sort : List BandAllocation → List BandAllocation}
    (hsort : Sorts allocationBefore sort) (plan : BandPlan) (allocation : BandAllocation) :
    BandPlan where
  name := plan.name
  allocations := sort (plan.allocations ++ [allocation])
  sorted := hsort.pairwise _

/-- A plan of the same name without allocations. -/
def clear (plan : BandPlan) : BandPlan where
  name := plan.name

/-- The allocations that a query asks for, in their order. -/
def query (plan : BandPlan) (query : BandPlanQuery) : List BandAllocation :=
  plan.allocations.filter (allocationAllowed · query)

/-- The allocations that contain a frequency, sorted by rank and width. -/
def allocationsAt (sort : List BandAllocation → List BandAllocation) (plan : BandPlan)
    (frequencyHz : UInt64) : List BandAllocation :=
  sort (plan.allocations.filter fun allocation => allocation.range.contains frequencyHz)

/-- The first of the allocations at a frequency. -/
def bestAllocation (sort : List BandAllocation → List BandAllocation) (plan : BandPlan)
    (frequencyHz : UInt64) : Option BandAllocation :=
  (allocationsAt sort plan frequencyHz).head?

/-- The numbers that the loop of `channels_for` goes through where it ends, the largest word
included. -/
def channelNumbers (first last : UInt32) : List UInt32 :=
  (List.range' first.toNat (last.toNat + 1 - first.toNat)).map UInt32.ofNat

/-- The channel that `channels_for` makes of a number and its centre. -/
def channelAt (allocation : BandAllocation) (raster : ChannelRaster) (number : UInt32)
    (centerHz : UInt64) : RfChannel where
  number := number
  centerHz := centerHz
  bandwidthHz := raster.bandwidthHz
  duplex := allocation.duplex
  label := allocation.name ++ " ch " ++ toString number.toNat

/-- The channel of a number, if it has a centre and is inside the allocation. -/
def rasterChannel (allocation : BandAllocation) (raster : ChannelRaster) (number : UInt32) :
    Option RfChannel :=
  match centerFrequencyForChannel raster number with
  | none => none
  | some centerHz =>
      let channel := channelAt allocation raster number centerHz
      if isChannelInsideAllocation channel allocation then some channel else none

/-- The loop of `channels_for` from a number of a raster on, for at most `fuel` rounds. A number
without a centre is skipped in front of the check that ends the loop at the largest word. -/
def channelLoop (allocation : BandAllocation) (raster : ChannelRaster) :
    Nat → UInt32 → Option (List RfChannel)
  | 0, _ => none
  | fuel + 1, number =>
      if number ≤ raster.lastChannel then
        match centerFrequencyForChannel raster number with
        | none => channelLoop allocation raster fuel (number + 1)
        | some centerHz =>
            let channel := channelAt allocation raster number centerHz
            let kept := if isChannelInsideAllocation channel allocation then [channel] else []
            if number = 0xffffffff then some kept
            else (channelLoop allocation raster fuel (number + 1)).map (kept ++ ·)
      else some []

/-- The channels of a raster whose loop ends. -/
def rasterChannels (allocation : BandAllocation) (raster : ChannelRaster) : List RfChannel :=
  if raster.spacingHz = 0 then []
  else (channelNumbers raster.firstChannel raster.lastChannel).filterMap
    (rasterChannel allocation raster)

/-- The comparison of the sort in `channels_for`. -/
def channelBefore (left right : RfChannel) : Bool :=
  if left.centerHz ≠ right.centerHz then left.centerHz < right.centerHz
  else left.number < right.number

/-- What `channels_for` returns where it returns (`channels_within_eq`). -/
def channelsFor (sort : List RfChannel → List RfChannel) (allocation : BandAllocation) :
    List RfChannel :=
  sort (allocation.rasters.flatMap (rasterChannels allocation))

/-- The body of the outer loop of `channels_for`. -/
def rasterLoop (allocation : BandAllocation) (fuel : Nat) (raster : ChannelRaster) :
    Option (List RfChannel) :=
  if raster.spacingHz = 0 then some []
  else channelLoop allocation raster fuel raster.firstChannel

/-- `channels_for`, each of the loops over numbers for at most `fuel` rounds. -/
def channelsWithin (sort : List RfChannel → List RfChannel) (fuel : Nat)
    (allocation : BandAllocation) : Option (List RfChannel) :=
  (allocation.rasters.mapM (rasterLoop allocation fuel)).map fun channels => sort channels.flatten

/-- The edges of an allocation that are kept free. -/
def guardRanges (allocation : BandAllocation) : List FrequencyRange :=
  if allocation.guardHz = 0 ∨ allocation.range.empty then []
  else
    let range := allocation.range
    let lowerEnd := min (range.lowerHz + allocation.guardHz) range.upperHz
    let upperStart :=
      if range.upperHz > allocation.guardHz then range.upperHz - allocation.guardHz
      else range.lowerHz
    (if lowerEnd > range.lowerHz then [⟨range.lowerHz, lowerEnd⟩] else []) ++
      if range.upperHz > upperStart ∧ upperStart > range.lowerHz then [⟨upperStart, range.upperHz⟩]
      else []

/-- The issues of one raster. -/
def rasterIssues (allocation : BandAllocation) (raster : ChannelRaster) : List BandPlanIssue :=
  let outside := fun center : Option UInt64 =>
    center.any fun frequencyHz => !allocation.range.contains frequencyHz
  (if raster.spacingHz = 0 then
    [⟨"band.raster.spacing_zero", "channel raster spacing is zero", allocation.range⟩]
   else []) ++
  (if raster.firstChannel > raster.lastChannel then
    [⟨"band.raster.channel_order", "channel raster first channel is after last channel",
      allocation.range⟩]
   else []) ++
  (if outside (centerFrequencyForChannel raster raster.firstChannel) then
    [⟨"band.raster.first_outside", "first raster channel center is outside allocation",
      allocation.range⟩]
   else []) ++
  if outside (centerFrequencyForChannel raster raster.lastChannel) then
    [⟨"band.raster.last_outside", "last raster channel center is outside allocation",
      allocation.range⟩]
  else []

/-- The issues of the first loop of `validate` about one allocation. -/
def allocationIssues (allocation : BandAllocation) : List BandPlanIssue :=
  (if allocation.name.isEmpty then
    [⟨"band.name.empty", "allocation has no name", allocation.range⟩]
   else []) ++
  (if allocation.range.empty then
    [⟨"band.range.empty", "allocation has an empty frequency range", allocation.range⟩]
   else []) ++
  (if allocation.expectedChannelWidthHz > allocation.range.widthHz ∧ !allocation.range.empty then
    [⟨"band.channel.too_wide", "expected channel width exceeds allocation width",
      allocation.range⟩]
   else []) ++
  allocation.rasters.flatMap (rasterIssues allocation)

/-- The condition of the second loop of `validate` on neighbours. -/
def clash (previous current : BandAllocation) : Bool :=
  previous.range.overlaps current.range ∧ previous.status = .primary ∧
    current.status = .primary ∧ previous.service ≠ current.service

/-- The issue about two neighbours. -/
def overlapIssue (previous current : BandAllocation) : BandPlanIssue where
  code := "band.primary.overlap"
  message := "primary allocations overlap across services"
  range := (intersect previous.range current.range).getD {}

/-- The second loop of `validate`. -/
def neighbourIssues : List BandAllocation → List BandPlanIssue
  | previous :: current :: rest =>
      (if clash previous current then [overlapIssue previous current] else []) ++
        neighbourIssues (current :: rest)
  | _ => []

/-- The issues of all allocations, and those of neighbours behind them. -/
def validate (plan : BandPlan) : List BandPlanIssue :=
  plan.allocations.flatMap allocationIssues ++ neighbourIssues plan.allocations

/-! ## The order -/

section Order

open scoped Words

/-- The allocations are compared by the ends of their ranges and then by their names. -/
theorem allocation_before_compares :
    Compares allocationBefore fun allocation =>
      toLex (allocation.range.lowerHz, toLex (allocation.range.upperHz, allocation.name)) := by
  refine compares_lex fun left right => ?_
  unfold allocationBefore Before
  rw [Prod.Lex.toLex_lt_toLex]
  by_cases hlower : left.range.lowerHz = right.range.lowerHz
  · rw [if_neg (not_not.mpr hlower)]
    by_cases hupper : left.range.upperHz = right.range.upperHz
    · rw [if_neg (not_not.mpr hupper)]
      simp [hlower, hupper]
    · rw [if_pos hupper]
      simp [hlower, hupper]
  · rw [if_pos hlower]
    simp [hlower]

/-- Additions that come in the order of the plan stay where they are put. -/
theorem allocations_run {plan : BandPlan} {behind : List BandAllocation}
    (hsorted : (plan.allocations ++ behind).Pairwise fun left right =>
      (!allocationBefore right left) = true) :
    (run (addAllocation allocation_before_compares.stable_sort_sorts) plan behind).allocations =
      plan.allocations ++ behind := by
  induction behind generalizing plan with
  | nil => rw [run_nil, List.append_nil]
  | cons allocation behind ih =>
      have hsplit : plan.allocations ++ allocation :: behind =
          (plan.allocations ++ [allocation]) ++ behind := by
        rw [List.append_assoc]
        rfl
      have hkept : (plan.addAllocation allocation_before_compares.stable_sort_sorts
          allocation).allocations = plan.allocations ++ [allocation] := by
        refine stable_sort_of_pairwise allocation_before_compares ?_
        rw [hsplit] at hsorted
        exact (List.pairwise_append.mp hsorted).1.imp
          fun hle => allocation_before_compares.not_less_iff.mp hle
      rw [run_cons, ih (by rwa [hkept, ← hsplit]), hkept, ← hsplit]

/-- Every ordered list of allocations is reached by adding them. -/
theorem allocations_run_of_sorted (plan : BandPlan) :
    (run (addAllocation allocation_before_compares.stable_sort_sorts) { name := plan.name }
      plan.allocations).allocations = plan.allocations :=
  allocations_run plan.sorted

end Order

/-! ## The issues about neighbours -/

/-- Two neighbours are the first two elements or two behind the first. -/
theorem pair_infix_cons_iff {α : Type} {left right first second : α} {rest : List α} :
    [left, right] <:+: first :: second :: rest ↔
      (left = first ∧ right = second) ∨ [left, right] <:+: second :: rest := by
  rw [List.infix_cons_iff, List.cons_prefix_cons, List.cons_prefix_cons]
  simp only [List.nil_prefix, and_true]

/-- The second loop reports the neighbours that clash. -/
theorem mem_neighbour_issues_iff {allocations : List BandAllocation} {issue : BandPlanIssue} :
    issue ∈ neighbourIssues allocations ↔
      ∃ previous current, [previous, current] <:+: allocations ∧
        clash previous current = true ∧ issue = overlapIssue previous current := by
  fun_induction neighbourIssues allocations with
  | case1 first second rest ih =>
      rw [List.mem_append, ih, List.mem_ite_nil_right, List.mem_singleton]
      simp only [pair_infix_cons_iff]
      constructor
      · rintro (⟨hclash, rfl⟩ | ⟨previous, current, hpair, hissue⟩)
        · exact ⟨first, second, Or.inl ⟨rfl, rfl⟩, hclash, rfl⟩
        · exact ⟨previous, current, Or.inr hpair, hissue⟩
      · rintro ⟨previous, current, ⟨rfl, rfl⟩ | hpair, hissue⟩
        · exact Or.inl hissue
        · exact Or.inr ⟨previous, current, hpair, hissue⟩
  | case2 allocations hshort =>
      refine iff_of_false List.not_mem_nil ?_
      rintro ⟨previous, current, hpair, -⟩
      match allocations, hshort, hpair with
      | [], _, hpair => exact absurd (List.infix_nil.mp hpair) (List.cons_ne_nil _ _)
      | [_], _, hpair => exact absurd hpair.length_le (Nat.not_succ_le_self 1)
      | first :: second :: rest, hshort, _ => exact hshort first second rest rfl

/-- No issue about one allocation has the code of an overlap. -/
theorem code_ne_of_mem_allocation_issues {allocation : BandAllocation} {issue : BandPlanIssue}
    (h : issue ∈ allocationIssues allocation) : issue.code ≠ "band.primary.overlap" := by
  simp only [allocationIssues, rasterIssues, List.mem_append, List.mem_ite_nil_right,
    List.mem_singleton, List.mem_flatMap] at h
  rcases h with ((⟨-, rfl⟩ | ⟨-, rfl⟩) | ⟨-, rfl⟩) |
    ⟨_, -, ((⟨-, rfl⟩ | ⟨-, rfl⟩) | ⟨-, rfl⟩) | ⟨-, rfl⟩⟩
  all_goals
    dsimp only
    decide

/-- The overlaps that `validate` reports are the neighbours that clash. -/
theorem mem_validate_iff {plan : BandPlan} {issue : BandPlanIssue} :
    issue ∈ plan.validate ∧ issue.code = "band.primary.overlap" ↔
      ∃ previous current, [previous, current] <:+: plan.allocations ∧
        clash previous current = true ∧ issue = overlapIssue previous current := by
  unfold validate
  rw [List.mem_append, ← mem_neighbour_issues_iff]
  constructor
  · rintro ⟨hallocation | hneighbour, hcode⟩
    · obtain ⟨allocation, -, hissue⟩ := List.mem_flatMap.mp hallocation
      exact absurd hcode (code_ne_of_mem_allocation_issues hissue)
    · exact hneighbour
  · intro hneighbour
    obtain ⟨_, _, _, _, rfl⟩ := mem_neighbour_issues_iff.mp hneighbour
    exact ⟨Or.inr hneighbour, rfl⟩

/-! ## The best allocation -/

section Best

open scoped Words

theorem ranked_before_compares :
    Compares rankedBefore fun allocation =>
      toLex (allocationRank allocation.status, allocation.range.widthHz) :=
  compares_of_keys fun _ _ => rfl

/-- The best allocation of a frequency is one that contains it, of the least rank, and among these
the narrowest. -/
theorem best_allocation_least {sort : List BandAllocation → List BandAllocation}
    (hsort : Sorts rankedBefore sort) (plan : BandPlan) (frequencyHz : UInt64) :
    (bestAllocation sort plan frequencyHz = none ↔
      ∀ allocation ∈ plan.allocations, allocation.range.contains frequencyHz = false) ∧
    ∀ best, bestAllocation sort plan frequencyHz = some best →
      best ∈ plan.allocations ∧ best.range.contains frequencyHz = true ∧
      ∀ allocation ∈ plan.allocations, allocation.range.contains frequencyHz = true →
        allocationRank best.status < allocationRank allocation.status ∨
          allocationRank best.status = allocationRank allocation.status ∧
            best.range.widthHz ≤ allocation.range.widthHz := by
  have hmem : ∀ allocation, allocation ∈ allocationsAt sort plan frequencyHz ↔
      allocation ∈ plan.allocations ∧ allocation.range.contains frequencyHz = true :=
    fun allocation => by rw [allocationsAt, (hsort.perm _).mem_iff, List.mem_filter]
  have hsorted : (allocationsAt sort plan frequencyHz).Pairwise _ := hsort.pairwise _
  unfold bestAllocation
  generalize allocationsAt sort plan frequencyHz = found at hmem hsorted
  cases found with
  | nil =>
      refine ⟨iff_of_true rfl fun allocation hallocation => ?_, fun best h => by cases h⟩
      rw [← Bool.not_eq_true]
      exact fun hcontains => List.not_mem_nil ((hmem allocation).mpr ⟨hallocation, hcontains⟩)
  | cons first rest =>
      have hfirst := (hmem first).mp List.mem_cons_self
      refine ⟨iff_of_false (Option.some_ne_none first) fun h => ?_, fun best h => ?_⟩
      · rw [h first hfirst.1] at hfirst
        exact absurd hfirst.2 Bool.false_ne_true
      · obtain rfl := Option.some.inj h
        refine ⟨hfirst.1, hfirst.2, fun allocation hallocation hcontains => ?_⟩
        have hle : toLex (allocationRank first.status, first.range.widthHz) ≤
            toLex (allocationRank allocation.status, allocation.range.widthHz) := by
          rcases List.mem_cons.mp ((hmem allocation).mpr ⟨hallocation, hcontains⟩) with rfl | hrest
          · exact le_rfl
          · exact ranked_before_compares.not_less_iff.mp
              ((List.pairwise_cons.mp hsorted).1 allocation hrest)
        exact Prod.Lex.toLex_le_toLex.mp hle

end Best

/-! ## Channels -/

/-- The numbers of a raster are those between the first and the last. -/
theorem mem_channel_numbers_iff {first last number : UInt32} :
    number ∈ channelNumbers first last ↔ first ≤ number ∧ number ≤ last := by
  simp only [channelNumbers, List.mem_map, List.mem_range'_1, UInt32.le_iff_toNat_le]
  constructor
  · rintro ⟨place, ⟨hlow, hhigh⟩, rfl⟩
    have hwidth := last.toNat_lt
    have hplace : (UInt32.ofNat place).toNat = place :=
      Nat.mod_eq_of_lt (by omega)
    omega
  · rintro ⟨hlow, hhigh⟩
    exact ⟨number.toNat, ⟨hlow, by omega⟩, UInt32.ofNat_toNat⟩

/-- A channel of a raster in an allocation, without the loop: one of its numbers with a centre of 64
bits, inside the allocation. -/
structure Offers (allocation : BandAllocation) (raster : ChannelRaster) (channel : RfChannel) :
    Prop where
  spacing : raster.spacingHz ≠ 0
  holds : raster.Holds channel.number
  center : channel.centerHz.toNat = raster.center channel.number
  bandwidth : channel.bandwidthHz = raster.bandwidthHz
  duplex : channel.duplex = allocation.duplex
  label : channel.label = allocation.name ++ " ch " ++ toString channel.number.toNat
  inside : isChannelInsideAllocation channel allocation = true

/-- The channels of a raster are those that it offers. -/
theorem mem_raster_channels_iff {allocation : BandAllocation} {raster : ChannelRaster}
    {channel : RfChannel} :
    channel ∈ rasterChannels allocation raster ↔ Offers allocation raster channel := by
  unfold rasterChannels
  by_cases hspacing : raster.spacingHz = 0
  · rw [if_pos hspacing]
    exact iff_of_false List.not_mem_nil fun h => h.spacing hspacing
  rw [if_neg hspacing, List.mem_filterMap]
  constructor
  · rintro ⟨number, hnumber, hchannel⟩
    unfold rasterChannel at hchannel
    split at hchannel
    · cases hchannel
    · next centerHz hcenter =>
      obtain ⟨hinside, hsame⟩ := Option.ite_none_right_eq_some.mp hchannel
      obtain rfl := Option.some.inj hsame
      have hfrequency := (ChannelRaster.center_frequency_eq_some_iff hspacing).mp hcenter
      exact ⟨hspacing, hfrequency.1, hfrequency.2, rfl, rfl, rfl, hinside⟩
  · intro h
    have hcenter := (ChannelRaster.center_frequency_eq_some_iff hspacing).mpr ⟨h.holds, h.center⟩
    have hsame : channelAt allocation raster channel.number channel.centerHz = channel := by
      rw [channelAt, ← h.bandwidth, ← h.duplex, ← h.label]
    refine ⟨channel.number, mem_channel_numbers_iff.mpr h.holds, ?_⟩
    rw [rasterChannel, hcenter]
    dsimp only
    rw [hsame, if_pos h.inside]

theorem channel_numbers_nil {first last : UInt32} (h : ¬ first ≤ last) :
    channelNumbers first last = [] := by
  have hless := UInt32.lt_iff_toNat_lt.mp (UInt32.not_le.mp h)
  rw [channelNumbers, Nat.sub_eq_zero_of_le hless, List.range'_zero, List.map_nil]

theorem channel_numbers_largest : channelNumbers 0xffffffff 0xffffffff = [0xffffffff] := rfl

theorem le_largest (number : UInt32) : number ≤ 0xffffffff :=
  UInt32.le_iff_toNat_le.mpr (Nat.le_of_lt_succ number.toNat_lt)

theorem toNat_next {number : UInt32} (hmore : number ≠ 0xffffffff) :
    (number + 1).toNat = number.toNat + 1 :=
  Words.toNat_add_one (UInt32.lt_of_le_of_ne (le_largest number) hmore)

/-- The numbers of a raster begin with the first. -/
theorem channel_numbers_cons {first last : UInt32} (h : first ≤ last) (hmore : first ≠ 0xffffffff) :
    channelNumbers first last = first :: channelNumbers (first + 1) last := by
  have hle := UInt32.le_iff_toNat_le.mp h
  have hnext := toNat_next hmore
  rw [channelNumbers, channelNumbers, hnext,
    show last.toNat + 1 - first.toNat = (last.toNat + 1 - (first.toNat + 1)) + 1 by omega,
    List.range'_succ, List.map_cons, UInt32.ofNat_toNat]

section Loop

variable {allocation : BandAllocation} {raster : ChannelRaster}

/-- With enough rounds the loop over a raster that ends gives the channels of its numbers. -/
theorem channel_loop_eq (hspacing : raster.spacingHz ≠ 0) (hends : raster.Ends) {fuel : Nat}
    {number : UInt32} (hfuel : raster.lastChannel.toNat + 2 ≤ fuel + number.toNat ∧ 0 < fuel) :
    channelLoop allocation raster fuel number =
      some ((channelNumbers number raster.lastChannel).filterMap
        (rasterChannel allocation raster)) := by
  induction fuel generalizing number with
  | zero => exact absurd hfuel.2 (Nat.lt_irrefl 0)
  | succ fuel ih =>
      unfold channelLoop
      by_cases hle : number ≤ raster.lastChannel
      · rw [if_pos hle]
        by_cases hlargest : number = 0xffffffff
        · have hlast : raster.lastChannel = 0xffffffff :=
            UInt32.le_antisymm (le_largest _) (hlargest ▸ hle)
          obtain ⟨centerHz, hcenter⟩ := Option.isSome_iff_exists.mp
            ((hends.resolve_left hspacing).resolve_left (not_not.mpr hlast))
          subst hlargest
          rw [hlast, channel_numbers_largest]
          simp only [rasterChannel, hcenter, if_true, List.filterMap_cons, List.filterMap_nil]
          split_ifs <;> rfl
        · have hnext := toNat_next hlargest
          have hle' := UInt32.le_iff_toNat_le.mp hle
          have hrest := @ih (number + 1) (by omega)
          rw [channel_numbers_cons hle hlargest, List.filterMap_cons, rasterChannel, hrest]
          split
          · rfl
          · simp only [if_neg hlargest, Option.map_some]
            split_ifs <;> rfl
      · rw [if_neg hle, channel_numbers_nil hle, List.filterMap_nil]

/-- The loop over a raster without a centre for the largest word goes on without an end. -/
theorem channel_loop_eq_none (hends : ¬ raster.Ends) (fuel : Nat) (number : UInt32) :
    channelLoop allocation raster fuel number = none := by
  obtain ⟨-, hlast, hcenter⟩ : _ ∧ raster.lastChannel = 0xffffffff ∧
      centerFrequencyForChannel raster 0xffffffff = none := by
    simpa [ChannelRaster.Ends] using hends
  induction fuel generalizing number with
  | zero => rfl
  | succ fuel ih =>
      have hle : number ≤ raster.lastChannel := hlast ▸ le_largest number
      unfold channelLoop
      rw [if_pos hle]
      split
      · exact ih _
      · next centerHz hsome =>
        have hmore : number ≠ 0xffffffff := fun heq => by
          rw [heq, hcenter] at hsome
          cases hsome
        simp only [if_neg hmore, ih, Option.map_none]

/-- The body of the outer loop returns, with enough rounds, exactly for a raster that ends. -/
theorem raster_loop_eq (fuel : Nat) :
    (raster.Ends → 2 ^ 32 < fuel →
        rasterLoop allocation fuel raster = some (rasterChannels allocation raster)) ∧
      (¬ raster.Ends → rasterLoop allocation fuel raster = none) := by
  unfold rasterLoop rasterChannels
  constructor
  · intro hends hfuel
    split_ifs with hspacing
    · rfl
    · have hlast := raster.lastChannel.toNat_lt
      exact channel_loop_eq hspacing hends ⟨by omega, by omega⟩
  · intro hends
    rw [if_neg fun hspacing => hends (.inl hspacing)]
    exact channel_loop_eq_none hends fuel _

/-- With enough rounds the outer loop gives the channels of all rasters, if each of them ends. -/
theorem raster_loops_eq {rasters : List ChannelRaster} (hends : ∀ raster ∈ rasters, raster.Ends)
    {fuel : Nat} (hfuel : 2 ^ 32 < fuel) :
    rasters.mapM (rasterLoop allocation fuel) =
      some (rasters.map (rasterChannels allocation)) := by
  induction rasters with
  | nil => rfl
  | cons raster rasters ih =>
      obtain ⟨hraster, hrasters⟩ := List.forall_mem_cons.mp hends
      rw [List.mapM_cons, (raster_loop_eq fuel).1 hraster hfuel, ih hrasters]
      rfl

/-- The outer loop does not return where one of the rasters does not end. -/
theorem raster_loops_eq_none {rasters : List ChannelRaster}
    (hends : ∃ raster ∈ rasters, ¬ raster.Ends) (fuel : Nat) :
    rasters.mapM (rasterLoop allocation fuel) = none := by
  induction rasters with
  | nil =>
      obtain ⟨raster, hraster, -⟩ := hends
      cases hraster
  | cons first rasters ih =>
      rw [List.mapM_cons]
      obtain ⟨raster, hraster, hraster'⟩ := hends
      rcases List.mem_cons.mp hraster with rfl | hrest
      · rw [(raster_loop_eq fuel).2 hraster']
        rfl
      · rw [ih ⟨raster, hrest, hraster'⟩]
        cases rasterLoop allocation fuel first <;> rfl

/-- **When the channels of an allocation are computed.** If the loop of each raster ends, 2 ^ 32 + 1
rounds are enough, and the channels are those of `channelsFor`; otherwise no number of rounds is. -/
theorem channels_within_eq (sort : List RfChannel → List RfChannel) (allocation : BandAllocation)
    (fuel : Nat) :
    ((∀ raster ∈ allocation.rasters, raster.Ends) → 2 ^ 32 < fuel →
        channelsWithin sort fuel allocation = some (channelsFor sort allocation)) ∧
      ((∃ raster ∈ allocation.rasters, ¬ raster.Ends) →
        channelsWithin sort fuel allocation = none) := by
  unfold channelsWithin channelsFor
  rw [List.flatMap_def]
  constructor
  · intro hends hfuel
    rw [raster_loops_eq hends hfuel, Option.map_some]
  · intro hends
    rw [raster_loops_eq_none hends fuel, Option.map_none]

/-- The loops over the channels of all allocations of a plan end. -/
def LoopsEnd (plan : BandPlan) : Prop :=
  ∀ allocation ∈ plan.allocations, ∀ raster ∈ allocation.rasters, raster.Ends

instance (plan : BandPlan) : Decidable plan.LoopsEnd :=
  inferInstanceAs (Decidable (∀ allocation ∈ plan.allocations, ∀ raster ∈ allocation.rasters,
    raster.Ends))

/-- Where the loops end, they return the channels of every allocation. -/
theorem LoopsEnd.returns {plan : BandPlan} (h : plan.LoopsEnd)
    (sort : List RfChannel → List RfChannel) :
    ∀ allocation ∈ plan.allocations,
      channelsWithin sort (2 ^ 32 + 1) allocation = some (channelsFor sort allocation) :=
  fun allocation hallocation =>
    (channels_within_eq sort allocation _).1 (h allocation hallocation) (Nat.lt_succ_self _)

end Loop

/-- The channels of an allocation are those of its rasters. -/
theorem mem_channels_for_iff {sort : List RfChannel → List RfChannel}
    (hsort : Sorts channelBefore sort) {allocation : BandAllocation} {channel : RfChannel} :
    channel ∈ channelsFor sort allocation ↔
      ∃ raster ∈ allocation.rasters, Offers allocation raster channel := by
  rw [channelsFor, (hsort.perm _).mem_iff, List.mem_flatMap]
  simp only [mem_raster_channels_iff]

/-! ## The nearest channel -/

open Rounding

/-- A channel that the plan has for a service. -/
def Has (plan : BandPlan) (service : RfService) (channel : RfChannel) : Prop :=
  ∃ allocation ∈ plan.allocations, (service = .unknown ∨ allocation.service = service) ∧
    ∃ raster ∈ allocation.rasters, Offers allocation raster channel

section Nearest

open scoped Words

variable {sort : List RfChannel → List RfChannel} (hsort : Sorts channelBefore sort)
  {plan : BandPlan} {frequencyHz : UInt64} {service : RfService}

include hsort

end Nearest

theorem channel_before_compares :
    Compares channelBefore fun channel => toLex (channel.centerHz.toNat, channel.number.toNat) := by
  refine compares_of_keys fun left right => ?_
  simp only [channelBefore, UInt64.lt_iff_toNat_lt, UInt32.lt_iff_toNat_lt, ne_eq, UInt64.toNat_inj]

end BandPlan

end Aethon.Rf
