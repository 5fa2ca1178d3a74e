import Aethon.Rf.SweepOptimization
import Aethon.Rf.SweepSegments

/-!
# What a planned sweep covers

`plan_sweep` makes segments of every request, of known channels or of the whole range, adds the
guard ranges, clips to the receiver, sorts and merges. `plan_sweep_exact` says what is left of the
requests after all of it: everything that is asked for and can be tuned to is covered, and what is
covered beside it is a gap of at most two bins behind something asked for.
-/

namespace Aethon.Rf

open BandPlan FrequencyRange StableSort Sweeping Tiling

/-! ## What a request asks for -/

/-- The frequencies that a receiver can be tuned to. -/
def ReceiverProfile.tunable (receiver : ReceiverProfile) : Set Nat :=
  Set.Ico receiver.minFrequencyHz.toNat receiver.maxFrequencyHz.toNat

/-- An allocation of the plan that meets a range and has the service, if one is given. -/
structure Asked (bandPlan : BandPlan) (range : FrequencyRange) (service : Option RfService)
    (allocation : BandAllocation) : Prop where
  mem : allocation ∈ bandPlan.allocations
  service : ∀ wish ∈ service, allocation.service = wish
  overlaps : allocation.range.overlaps range = true

/-- A channel of such an allocation whose band meets the request and the receiver. -/
structure Known (bandPlan : BandPlan) (receiver : ReceiverProfile) (request : SweepRequest)
    (channel : RfChannel) : Prop where
  offered : ∃ allocation, Asked bandPlan request.range request.service allocation ∧
    ∃ raster ∈ allocation.rasters, Offers allocation raster channel
  overlaps : (channelRange channel).overlaps request.range = true
  reached : ((channelRange channel).frequencies ∩ receiver.tunable).Nonempty

/-- A frequency that a request asks for: in the band of a known channel, in the whole range where
channels are not preferred or none is known, or in a guard range. -/
inductive Wanted (bandPlan : BandPlan) (receiver : ReceiverProfile) (request : SweepRequest)
    (frequency : Nat) : Prop
  | channel {channel : RfChannel} (hprefer : request.preferKnownChannels = true)
      (hknown : Known bandPlan receiver request channel)
      (hband : frequency ∈ (channelRange channel).frequencies)
  | survey (hnone : request.preferKnownChannels = true →
        ∀ channel, ¬Known bandPlan receiver request channel)
      (hrange : frequency ∈ request.range.frequencies)
  | guarded {allocation : BandAllocation} {range : FrequencyRange}
      (hguards : request.includeGuardRanges = true)
      (hasked : Asked bandPlan (receiverClip request.range receiver) request.service allocation)
      (hguard : range ∈ guardRanges allocation) (hin : frequency ∈ range.frequencies)
      (hrange : frequency ∈ request.range.frequencies)

/-- What can be swept of a request; nothing of one that the receiver does not reach. -/
def swept (bandPlan : BandPlan) (receiver : ReceiverProfile) (request : SweepRequest) : Set Nat :=
  {frequency | frequency ∈ receiver.tunable ∧
    (request.range.frequencies ∩ receiver.tunable).Nonempty ∧
    Wanted bandPlan receiver request frequency}

/-! ## The segments of a request -/

section Requests

variable {bandPlan : BandPlan} {receiver : ReceiverProfile} {request : SweepRequest}
  {range : FrequencyRange} {span : UInt64}

theorem frequencies_clip :
    (receiverClip range receiver).frequencies = range.frequencies ∩ receiver.tunable := by
  simp only [receiverClip, frequencies, ReceiverProfile.tunable, Words.toNat_max, Words.toNat_min,
    Set.Ico_inter_Ico]

theorem clip_empty_iff : (receiverClip range receiver).empty = true ↔
    ¬(range.frequencies ∩ receiver.tunable).Nonempty := by
  rw [empty_iff, frequencies_clip, Set.not_nonempty_iff_eq_empty]

/-- A query finds the allocations that meet its range and serve it. -/
theorem mem_query_iff {service : Option RfService} {allocation : BandAllocation} :
    allocation ∈ bandPlan.query { range := some range, service := service } ↔
      Asked bandPlan range service allocation := by
  have hallowed : allocationAllowed allocation { range := some range, service := service } = true ↔
      (∀ wish ∈ service, allocation.service = wish) ∧ allocation.range.overlaps range = true := by
    cases service <;> simp [allocationAllowed]
  rw [BandPlan.query, List.mem_filter, hallowed]
  exact ⟨fun ⟨hmem, hservice, hoverlaps⟩ => ⟨hmem, hservice, hoverlaps⟩,
    fun h => ⟨h.mem, h.service, h.overlaps⟩⟩

/-- Clipping keeps what can be tuned to. -/
theorem covered_clip_segments (segments : List SweepSegment) :
    covered (clipSegments receiver segments) = covered segments ∩ receiver.tunable := by
  rw [clipSegments, covered_filter]
  ext frequency
  simp only [covered, cover_map, mem_cover, Set.mem_inter_iff, frequencies_clip]
  constructor
  · rintro ⟨segment, hmem, hfrequency, htunable⟩
    exact ⟨⟨segment, hmem, hfrequency⟩, htunable⟩
  · rintro ⟨⟨segment, hmem, hfrequency⟩, htunable⟩
    exact ⟨segment, hmem, hfrequency, htunable⟩

/-! ### Known channels -/

/-- The segment of a channel covers what the receiver reaches of it. -/
theorem channel_segment_spec {allocation : BandAllocation} {channel : RfChannel}
    {segment : SweepSegment}
    (h : channelSegment receiver request allocation channel = some segment) :
    (channelRange channel).overlaps request.range = true ∧
      segment.range = receiverClip (channelRange channel) receiver ∧
      segment.range.empty = false ∧
      segment.binWidthHz = binWidth receiver request.resolutionHz := by
  simp only [channelSegment, Option.ite_none_left_eq_some, Option.some.injEq, Bool.not_eq_true',
    Bool.not_eq_false, Bool.not_eq_true] at h
  obtain ⟨hoverlaps, hempty, rfl⟩ := h
  exact ⟨hoverlaps, rfl, hempty, rfl⟩

/-- A channel that the receiver reaches has a segment. -/
theorem exists_channel_segment {allocation : BandAllocation} {channel : RfChannel}
    (hoverlaps : (channelRange channel).overlaps request.range = true)
    (hreached : ((channelRange channel).frequencies ∩ receiver.tunable).Nonempty) :
    ∃ segment, channelSegment receiver request allocation channel = some segment := by
  have hempty : ¬(receiverClip (channelRange channel) receiver).empty = true :=
    fun h => clip_empty_iff.mp h hreached
  unfold channelSegment
  rw [hoverlaps, if_neg (by decide)]
  dsimp only
  rw [if_neg hempty]
  exact ⟨_, rfl⟩

variable {sorts : SweepSorts} (hsorts : sorts.Sorted)

include hsorts

/-- The segments of the channels are those of the channels that were asked for. -/
theorem mem_channel_segments_iff {segment : SweepSegment} :
    segment ∈ channelSegments sorts bandPlan receiver request ↔
      ∃ allocation channel, Asked bandPlan request.range request.service allocation ∧
        (∃ raster ∈ allocation.rasters, Offers allocation raster channel) ∧
        channelSegment receiver request allocation channel = some segment := by
  simp only [channelSegments, List.mem_flatMap, List.mem_filterMap, mem_query_iff,
    mem_channels_for_iff hsorts.channels]
  constructor
  · rintro ⟨allocation, hasked, channel, hoffered, hsegment⟩
    exact ⟨allocation, channel, hasked, hoffered, hsegment⟩
  · rintro ⟨allocation, channel, hasked, hoffered, hsegment⟩
    exact ⟨allocation, hasked, channel, hoffered, hsegment⟩

/-- There are segments of channels where channels are known. -/
theorem channel_segments_eq_nil_iff :
    channelSegments sorts bandPlan receiver request = [] ↔
      ∀ channel, ¬Known bandPlan receiver request channel := by
  rw [List.eq_nil_iff_forall_not_mem]
  constructor
  · intro hnone channel hknown
    obtain ⟨allocation, hasked, hoffered⟩ := hknown.offered
    obtain ⟨segment, hsegment⟩ := @exists_channel_segment _ _ allocation _
      hknown.overlaps hknown.reached
    exact hnone segment ((mem_channel_segments_iff hsorts).mpr
      ⟨allocation, channel, hasked, hoffered, hsegment⟩)
  · intro hnone segment hmem
    obtain ⟨allocation, channel, hasked, hoffered, hsegment⟩ :=
      (mem_channel_segments_iff hsorts).mp hmem
    obtain ⟨hoverlaps, hrange, hempty, -⟩ := channel_segment_spec hsegment
    refine hnone channel ⟨⟨allocation, hasked, hoffered⟩, hoverlaps, ?_⟩
    by_contra hreached
    rw [← clip_empty_iff, ← hrange, hempty] at hreached
    exact Bool.false_ne_true hreached

/-- The segments of the channels cover what the receiver reaches of them. -/
theorem covered_channel_segments :
    covered (channelSegments sorts bandPlan receiver request) =
      {frequency | frequency ∈ receiver.tunable ∧ ∃ channel,
        Known bandPlan receiver request channel ∧
          frequency ∈ (channelRange channel).frequencies} := by
  ext frequency
  simp only [covered, mem_cover, mem_channel_segments_iff hsorts, Set.mem_ofPred_eq]
  constructor
  · rintro ⟨segment, ⟨allocation, channel, hasked, hoffered, hsegment⟩, hfrequency⟩
    obtain ⟨hoverlaps, hrange, -, -⟩ := channel_segment_spec hsegment
    rw [hrange, frequencies_clip] at hfrequency
    exact ⟨hfrequency.2, channel,
      ⟨⟨allocation, hasked, hoffered⟩, hoverlaps, ⟨frequency, hfrequency⟩⟩, hfrequency.1⟩
  · rintro ⟨htunable, channel, hknown, hband⟩
    obtain ⟨allocation, hasked, hoffered⟩ := hknown.offered
    obtain ⟨segment, hsegment⟩ := @exists_channel_segment _ _ allocation _
      hknown.overlaps hknown.reached
    refine ⟨segment, ⟨allocation, channel, hasked, hoffered, hsegment⟩, ?_⟩
    rw [(channel_segment_spec hsegment).2.1, frequencies_clip]
    exact ⟨hband, htunable⟩

omit hsorts

/-! ### Ranges -/

/-- Every segment of the loop is one that `segment` makes. -/
theorem mem_segment_loop {segment : FrequencyRange → SweepSegment}
    {upperHz binWidth cursor : UInt64} {made : SweepSegment}
    (h : made ∈ segmentLoop segment upperHz span binWidth cursor) :
    ∃ part, made = segment part := by
  fun_induction segmentLoop segment upperHz span binWidth cursor with
  | case1 cursor hmore ih =>
      rcases List.mem_cons.mp h with rfl | hrest
      · exact ⟨_, rfl⟩
      · split at hrest
        · cases hrest
        · next hstuck => exact ih hstuck hrest
  | case2 cursor hend => cases h

/-- The segments of a range have the width of its bins. -/
theorem segment_range_bin {resolutionHz dwellUs : UInt64} {priority : SweepPriority}
    {intent : SweepIntent} :
    ∀ segment ∈ segmentRange span range receiver resolutionHz dwellUs priority intent,
      segment.binWidthHz = binWidth receiver resolutionHz := by
  intro segment hmem
  unfold segmentRange at hmem
  dsimp only at hmem
  split at hmem
  · cases hmem
  · obtain ⟨part, rfl⟩ := mem_segment_loop hmem
    rfl

/-- Where the alignment cannot wrap, the segments of a range cover what of it can be tuned to. -/
theorem covered_segment_range {resolutionHz dwellUs : UInt64} {priority : SweepPriority}
    {intent : SweepIntent} (hspan : 1 ≤ span)
    (hfits : (receiverClip range receiver).upperHz.toNat +
      (binWidth receiver resolutionHz).toNat < 2 ^ 64) :
    covered (segmentRange span range receiver resolutionHz dwellUs priority intent) =
      range.frequencies ∩ receiver.tunable := by
  rw [← frequencies_clip]
  unfold segmentRange
  dsimp only
  split
  · next hempty =>
    rw [empty_iff.mp hempty]
    exact cover_nil
  · next hempty =>
    have hlt := not_empty_iff.mp (Bool.not_eq_true _ ▸ hempty)
    have htiles := tiles_segment_loop (fun part => rfl : ∀ part, (makeSegment part
      (binWidth receiver resolutionHz) dwellUs priority intent "range survey").range = part) hspan
      hfits (UInt64.le_iff_toNat_le.mpr hlt.le)
    exact htiles.cover

/-! ### Guard ranges -/

/-- A change of the other fields covers the same. -/
theorem covered_map {change : SweepSegment → SweepSegment}
    (hchange : ∀ segment, (change segment).range = segment.range) (segments : List SweepSegment) :
    covered (segments.map change) = covered segments := by
  simp only [covered, cover_map, hchange]

/-- The segments of a guard cover what the receiver reaches of it. -/
theorem covered_guard_segments {allocation : BandAllocation} {guardRange : FrequencyRange}
    (hspan : 1 ≤ span)
    (hfits : (receiverClip request.range receiver).upperHz.toNat +
      (binWidth receiver request.resolutionHz).toNat < 2 ^ 64) :
    covered (guardSegments span receiver request allocation guardRange) =
      guardRange.frequencies ∩ (request.range.frequencies ∩ receiver.tunable) := by
  have hmeet := @frequencies_intersect guardRange (receiverClip request.range receiver)
  rw [frequencies_clip] at hmeet
  unfold guardSegments
  split
  · next hnone =>
    rw [hnone] at hmeet
    rw [← hmeet, covered, cover_nil]
    exact (empty_iff.mp (rfl : ({} : FrequencyRange).empty = true)).symm
  · next clippedGuard hsome =>
    rw [hsome, Option.getD_some] at hmeet
    have hupper : (receiverClip clippedGuard receiver).upperHz.toNat ≤
        (receiverClip request.range receiver).upperHz.toNat := by
      have hends : clippedGuard.upperHz =
          min guardRange.upperHz (receiverClip request.range receiver).upperHz := by
        unfold intersect at hsome
        obtain ⟨-, hsame⟩ := Option.ite_none_left_eq_some.mp hsome
        rw [← Option.some.inj hsame]
      simp only [receiverClip, Words.toNat_min] at hends ⊢
      rw [hends, Words.toNat_min, Words.toNat_min]
      omega
    refine Eq.trans (covered_map ?_ _) ?_
    · exact fun _ => rfl
    · rw [covered_segment_range hspan (by omega), hmeet, Set.inter_assoc, Set.inter_assoc,
        Set.inter_self]

/-- The segments of the guards cover what the receiver reaches of them. -/
theorem covered_guards_segments (hspan : 1 ≤ span)
    (hfits : (receiverClip request.range receiver).upperHz.toNat +
      (binWidth receiver request.resolutionHz).toNat < 2 ^ 64) :
    covered (guardsSegments span bandPlan receiver request) =
      {frequency | frequency ∈ request.range.frequencies ∩ receiver.tunable ∧ ∃ allocation,
        Asked bandPlan (receiverClip request.range receiver) request.service allocation ∧
          ∃ range ∈ guardRanges allocation, frequency ∈ range.frequencies} := by
  have hguard : ∀ allocation range frequency,
      (∃ segment ∈ guardSegments span receiver request allocation range,
        frequency ∈ segment.range.frequencies) ↔
      frequency ∈ range.frequencies ∧ frequency ∈ request.range.frequencies ∩ receiver.tunable := by
    intro allocation range frequency
    rw [← Set.mem_inter_iff, ← @covered_guard_segments _ _ _ allocation range hspan hfits]
    rfl
  ext frequency
  simp only [covered, mem_cover, guardsSegments, List.mem_flatMap, mem_query_iff,
    Set.mem_ofPred_eq]
  constructor
  · rintro ⟨segment, ⟨allocation, hasked, range, hrange, hmem⟩, hfrequency⟩
    obtain ⟨hin, hboth⟩ := (hguard allocation range frequency).mp ⟨segment, hmem, hfrequency⟩
    exact ⟨hboth, allocation, hasked, range, hrange, hin⟩
  · rintro ⟨hboth, allocation, hasked, range, hrange, hin⟩
    obtain ⟨segment, hmem, hfrequency⟩ := (hguard allocation range frequency).mpr ⟨hin, hboth⟩
    exact ⟨segment, ⟨allocation, hasked, range, hrange, hmem⟩, hfrequency⟩

/-! ### All segments of a request -/

/-- Before they are clipped, the segments of channels or of the range cover what is asked for
without guard ranges. -/
theorem covered_wished_segments (hsorts : sorts.Sorted) (hspan : 1 ≤ span)
    (hfits : (receiverClip request.range receiver).upperHz.toNat +
      (binWidth receiver request.resolutionHz).toNat < 2 ^ 64) {frequency : Nat} :
    frequency ∈ covered (wishedSegments sorts span bandPlan receiver request) ↔
      frequency ∈ receiver.tunable ∧
        ((request.preferKnownChannels = true ∧ ∃ channel, Known bandPlan receiver request channel ∧
            frequency ∈ (channelRange channel).frequencies) ∨
          (request.preferKnownChannels = true →
            ∀ channel, ¬Known bandPlan receiver request channel) ∧
          frequency ∈ request.range.frequencies) := by
  have hclip : (receiverClip (receiverClip request.range receiver) receiver).upperHz.toNat ≤
      (receiverClip request.range receiver).upperHz.toNat := by
    simp only [receiverClip, Words.toNat_min]
    omega
  have hsurvey : frequency ∈ covered (segmentRange span (receiverClip request.range receiver)
      receiver request.resolutionHz request.dwellUs request.priority request.intent) ↔
      frequency ∈ receiver.tunable ∧ frequency ∈ request.range.frequencies := by
    rw [covered_segment_range hspan (by omega), frequencies_clip, Set.inter_assoc, Set.inter_self,
      Set.mem_inter_iff, and_comm]
  unfold wishedSegments
  dsimp only
  cases hprefer : request.preferKnownChannels with
  | false =>
      rw [if_neg Bool.false_ne_true, List.isEmpty_nil, if_pos rfl, hsurvey]
      simp
  | true =>
      rw [if_pos rfl]
      by_cases hnone : ∀ channel, ¬Known bandPlan receiver request channel
      · rw [(channel_segments_eq_nil_iff hsorts).mpr hnone, List.isEmpty_nil, if_pos rfl, hsurvey]
        simp [hnone]
      · have hsome := fun h => hnone ((channel_segments_eq_nil_iff hsorts).mp h)
        rw [if_neg (by rwa [List.isEmpty_iff]), covered_channel_segments hsorts, Set.mem_ofPred_eq]
        simp only [true_and, forall_const, hnone, false_and, or_false]

/-- The segments of a request that the receiver reaches cover what can be swept of it. -/
theorem covered_request_segments (hsorts : sorts.Sorted) (hspan : 1 ≤ span)
    (hfits : (receiverClip request.range receiver).upperHz.toNat +
      (binWidth receiver request.resolutionHz).toNat < 2 ^ 64)
    (hreached : (request.range.frequencies ∩ receiver.tunable).Nonempty) :
    covered (requestSegments sorts span bandPlan receiver request) =
      swept bandPlan receiver request := by
  have hguards : ∀ frequency, frequency ∈ covered (if request.includeGuardRanges = true then
      guardsSegments span bandPlan receiver request else []) ↔
      request.includeGuardRanges = true ∧
        (frequency ∈ request.range.frequencies ∩ receiver.tunable ∧ ∃ allocation,
          Asked bandPlan (receiverClip request.range receiver) request.service allocation ∧
            ∃ range ∈ guardRanges allocation, frequency ∈ range.frequencies) := by
    intro frequency
    cases request.includeGuardRanges with
    | false =>
        rw [if_neg Bool.false_ne_true, covered, cover_nil]
        exact iff_of_false (Set.notMem_empty _) fun h => absurd h.1 Bool.false_ne_true
    | true =>
        rw [if_pos rfl, covered_guards_segments hspan hfits]
        exact (and_iff_right rfl).symm
  ext frequency
  rw [requestSegments, covered, cover_append, Set.mem_union, ← covered, ← covered,
    covered_clip_segments, Set.mem_inter_iff, covered_wished_segments hsorts hspan hfits, hguards]
  constructor
  · rintro (⟨⟨htunable, hwished⟩, -⟩ | ⟨hinclude, hboth, allocation, hasked, range, hrange, hin⟩)
    · refine ⟨htunable, hreached, ?_⟩
      rcases hwished with ⟨hprefer, channel, hknown, hband⟩ | ⟨hnone, hrange⟩
      · exact .channel hprefer hknown hband
      · exact .survey hnone hrange
    · exact ⟨hboth.2, hreached, .guarded hinclude hasked hrange hin hboth.1⟩
  · rintro ⟨htunable, -, hwanted⟩
    cases hwanted with
    | channel hprefer hknown hband =>
        exact .inl ⟨⟨htunable, .inl ⟨hprefer, _, hknown, hband⟩⟩, htunable⟩
    | survey hnone hrange => exact .inl ⟨⟨htunable, .inr ⟨hnone, hrange⟩⟩, htunable⟩
    | guarded hinclude hasked hguard hin hrange =>
        exact .inr ⟨hinclude, ⟨hrange, htunable⟩, _, hasked, _, hguard, hin⟩

/-- All segments of a request have its bins. -/
theorem request_segments_bin (hsorts : sorts.Sorted) :
    ∀ segment ∈ requestSegments sorts span bandPlan receiver request,
      segment.binWidthHz = binWidth receiver request.resolutionHz := by
  have hwished : ∀ segment ∈ wishedSegments sorts span bandPlan receiver request,
      segment.binWidthHz = binWidth receiver request.resolutionHz := by
    have hknown : ∀ segment ∈ (if request.preferKnownChannels = true then
        channelSegments sorts bandPlan receiver request else []),
        segment.binWidthHz = binWidth receiver request.resolutionHz := by
      intro segment hmem
      split at hmem
      · obtain ⟨allocation, channel, -, -, hsegment⟩ := (mem_channel_segments_iff hsorts).mp hmem
        exact (channel_segment_spec hsegment).2.2.2
      · cases hmem
    unfold wishedSegments
    dsimp only
    generalize (if request.preferKnownChannels = true then
      channelSegments sorts bandPlan receiver request else []) = known at hknown ⊢
    split
    · exact segment_range_bin
    · exact hknown
  intro segment hmem
  rcases List.mem_append.mp hmem with hclipped | hguards
  · obtain ⟨hmapped, -⟩ := List.mem_filter.mp hclipped
    obtain ⟨wish, hwish, rfl⟩ := List.mem_map.mp hmapped
    exact hwished wish hwish
  · split at hguards
    · simp only [guardsSegments, List.mem_flatMap] at hguards
      obtain ⟨allocation, -, range, -, hguard⟩ := hguards
      unfold guardSegments at hguard
      split at hguard
      · cases hguard
      · obtain ⟨part, hpart, rfl⟩ := List.mem_map.mp hguard
        exact segment_range_bin part hpart
    · cases hguards

end Requests

/-! ## Merging -/

section Merging

variable {span : UInt64} {left right : SweepSegment}

/-- Segments of one priority are merged, with a gap of at most two bins between them. -/
theorem can_merge_spec (h : canMerge span left right = true) :
    left.priority = right.priority ∧
      right.range.lowerHz.toNat ≤ left.range.upperHz.toNat + 2 * left.binWidthHz.toNat := by
  unfold canMerge at h
  split_ifs at h with hkind hname hgap
  refine ⟨?_, ?_⟩
  · by_contra hpriority
    exact hkind (.inl hpriority)
  · have hdouble := Words.toNat_mul_le left.binWidthHz 2
    have htwo : (2 : UInt64).toNat = 2 := rfl
    rw [htwo] at hdouble
    by_cases hless : left.range.upperHz < right.range.lowerHz
    · have hnarrow : right.range.lowerHz - left.range.upperHz ≤ left.binWidthHz * 2 :=
        UInt64.not_lt.mp fun hwide => hgap ⟨hless, hwide⟩
      rw [UInt64.le_iff_toNat_le, UInt64.toNat_sub_of_le _ _ (UInt64.le_of_lt hless)] at hnarrow
      omega
    · have hle := UInt64.le_iff_toNat_le.mp (UInt64.not_lt.mp hless)
      omega

/-- The order of the sorted segments, as far as merging needs it. -/
def Leads (left right : SweepSegment) : Prop :=
  left.priority = right.priority → left.range.lowerHz.toNat ≤ right.range.lowerHz.toNat

open scoped Words in
/-- Sorted segments lead each other. -/
theorem leads_of_sorted {sort : List SweepSegment → List SweepSegment}
    (hsort : Sorts segmentFirst sort) (segments : List SweepSegment) :
    (sort segments).Pairwise Leads := by
  refine (hsort.pairwise segments).imp fun {left right} hle hpriority => ?_
  have hkeys := Prod.Lex.toLex_le_toLex.mp (segment_first_compares.not_less_iff.mp hle)
  rw [hpriority] at hkeys
  rcases hkeys with hless | ⟨-, hlower⟩
  · exact absurd hless (lt_irrefl _)
  · exact UInt64.le_iff_toNat_le.mp hlower

/-- A segment of the plan: it is within reach of the receiver, ends with something that is wanted,
and whatever else is in it lies at most two bins behind something wanted. -/
structure Kept (wanted tunable : Set Nat) (bin : Nat) (segment : SweepSegment) : Prop where
  nonempty : segment.range.empty = false
  bins : segment.binWidthHz.toNat ≤ bin
  reach : segment.range.frequencies ⊆ tunable
  last : segment.range.upperHz.toNat - 1 ∈ wanted
  near : ∀ frequency ∈ segment.range.frequencies,
    ∃ wish ∈ wanted, wish ≤ frequency ∧ frequency ≤ wish + 2 * bin

variable {wanted : Set Nat} {bin lower upper : Nat}

/-- A wanted segment is kept. -/
theorem kept_of_wanted (hnonempty : left.range.empty = false) (hbins : left.binWidthHz.toNat ≤ bin)
    (hreach : left.range.frequencies ⊆ Set.Ico lower upper)
    (hwanted : left.range.frequencies ⊆ wanted) : Kept wanted (Set.Ico lower upper) bin left := by
  have hlt := not_empty_iff.mp hnonempty
  refine ⟨hnonempty, hbins, hreach, hwanted ⟨by omega, by omega⟩, fun frequency hfrequency => ?_⟩
  exact ⟨frequency, hwanted hfrequency, Nat.le_refl _, Nat.le_add_right _ _⟩

/-- Merging two segments in order keeps this. -/
theorem Kept.merge (hleft : Kept wanted (Set.Ico lower upper) bin left)
    (hright : Kept wanted (Set.Ico lower upper) bin right) (hleads : Leads left right)
    (h : canMerge span left right = true) :
    Kept wanted (Set.Ico lower upper) bin (mergedSegment left right) := by
  obtain ⟨hpriority, hgap⟩ := can_merge_spec h
  have hlower := hleads hpriority
  have hends := not_empty_iff.mp hleft.nonempty
  have hends' := not_empty_iff.mp hright.nonempty
  have hrange : (mergedSegment left right).range =
      ⟨min left.range.lowerHz right.range.lowerHz, max left.range.upperHz right.range.upperHz⟩ :=
    merge_of_not_empty hleft.nonempty hright.nonempty
  have hmin : (mergedSegment left right).range.lowerHz.toNat = left.range.lowerHz.toNat := by
    rw [hrange, Words.toNat_min]
    exact Nat.min_eq_left hlower
  have hmax : (mergedSegment left right).range.upperHz.toNat =
      max left.range.upperHz.toNat right.range.upperHz.toNat := by
    rw [hrange, Words.toNat_max]
  have hlast : max left.range.upperHz.toNat right.range.upperHz.toNat - 1 ∈ wanted := by
    rcases Nat.le_total left.range.upperHz.toNat right.range.upperHz.toNat with hle | hle
    · rw [Nat.max_eq_right hle]
      exact hright.last
    · rw [Nat.max_eq_left hle]
      exact hleft.last
  refine ⟨?_, hleft.bins, fun frequency hfrequency => ?_, hmax ▸ hlast,
    fun frequency hfrequency => ?_⟩
  · rw [not_empty_iff, hmin, hmax]
    omega
  · obtain ⟨hlow, hhigh⟩ := hfrequency
    rw [hmin] at hlow
    rw [hmax] at hhigh
    have hfirst := (hleft.reach ⟨Nat.le_refl _, hends⟩).1
    have hend := (hleft.reach ⟨by omega, Nat.sub_one_lt (by omega)⟩ :
      left.range.upperHz.toNat - 1 ∈ Set.Ico lower upper).2
    have hend' := (hright.reach ⟨by omega, Nat.sub_one_lt (by omega)⟩ :
      right.range.upperHz.toNat - 1 ∈ Set.Ico lower upper).2
    exact ⟨by omega, by omega⟩
  · obtain ⟨hlow, hhigh⟩ := hfrequency
    rw [hmin] at hlow
    rw [hmax] at hhigh
    by_cases hinside : frequency < left.range.upperHz.toNat
    · exact hleft.near frequency ⟨hlow, hinside⟩
    · by_cases hbehind : right.range.lowerHz.toNat ≤ frequency
      · exact hright.near frequency ⟨hbehind, by omega⟩
      · -- in the gap, the end of the first segment is the wanted frequency in front
        have hbins := hleft.bins
        exact ⟨left.range.upperHz.toNat - 1, hleft.last, by omega, by omega⟩

/-- A merged segment leads what both lead. -/
theorem leads_merge {next : SweepSegment} (hleft : Kept wanted (Set.Ico lower upper) bin left)
    (hright : Kept wanted (Set.Ico lower upper) bin right) (hnext : Leads left next) :
    Leads (mergedSegment left right) next := by
  intro hpriority
  have hrange : (mergedSegment left right).range =
      ⟨min left.range.lowerHz right.range.lowerHz, max left.range.upperHz right.range.upperHz⟩ :=
    merge_of_not_empty hleft.nonempty hright.nonempty
  rw [hrange, Words.toNat_min]
  exact (Nat.min_le_left _ _).trans (hnext hpriority)

/-- All segments that are left after merging sorted ones are of this kind. -/
theorem kept_merge_segments {segments : List SweepSegment} (hsorted : segments.Pairwise Leads)
    (h : ∀ segment ∈ segments, segment.range.empty = false →
      Kept wanted (Set.Ico lower upper) bin segment) :
    ∀ segment ∈ mergeSegments span segments, Kept wanted (Set.Ico lower upper) bin segment := by
  refine forall_mem_foldl_push_of_sorted (p := Kept wanted (Set.Ico lower upper) bin)
    (fun left right hleads happart hleft hright => ?_)
    (fun left right next hleft hright hnext => leads_merge hleft hright hnext)
    (List.forall_mem_nil _) (fun segment hmem => ?_) (hsorted.filter _) (fun back hnone => ?_)
  · exact hleft.merge hright hleads (by simpa using happart)
  · obtain ⟨hmem, hnonempty⟩ := List.mem_filter.mp hmem
    exact h segment hmem (by simpa using hnonempty)
  · cases hnone

end Merging

/-! ## Planned sweeps -/

section Plans

variable {sorts : SweepSorts} {span : UInt64} {bandPlan : BandPlan} {receiver : ReceiverProfile}
  {formatRange : FrequencyRange → String}

/-- The loop over the requests skips those that the receiver does not reach, with a warning. -/
theorem plan_requests (requests : List SweepRequest) (plan : SweepPlan) :
    let result := requests.foldl (planRequest sorts span bandPlan receiver formatRange) plan
    result.segments = plan.segments ++ requests.flatMap (fun request =>
      if (receiverClip request.range receiver).empty then []
      else requestSegments sorts span bandPlan receiver request) ∧
    result.warnings.length = plan.warnings.length +
      requests.countP fun request => (receiverClip request.range receiver).empty := by
  induction requests generalizing plan with
  | nil => exact ⟨(List.append_nil _).symm, rfl⟩
  | cons request requests ih =>
      have hclip : request.range.empty = true →
          (receiverClip request.range receiver).empty = true := fun hempty => by
        rw [clip_empty_iff, empty_iff.mp hempty, Set.empty_inter]
        exact Set.not_nonempty_empty
      obtain ⟨hsegments, hwarnings⟩ := ih (planRequest sorts span bandPlan receiver formatRange
        plan request)
      dsimp only at hsegments hwarnings ⊢
      rw [List.foldl_cons, hsegments, hwarnings, List.flatMap_cons, List.countP_cons]
      unfold planRequest
      by_cases hempty : request.range.empty = true
      · rw [if_pos hempty, if_pos (hclip hempty), if_pos (hclip hempty), List.length_append]
        exact ⟨rfl, by simp only [List.length_singleton]; omega⟩
      · rw [if_neg hempty]
        by_cases hnone : (receiverClip request.range receiver).empty = true
        · rw [if_pos hnone, if_pos hnone, if_pos hnone, List.length_append]
          exact ⟨rfl, by simp only [List.length_singleton]; omega⟩
        · rw [if_neg hnone, if_neg hnone, if_neg hnone, List.append_assoc]
          exact ⟨rfl, rfl⟩

/-- The segments of all requests, before they are optimised. -/
def planned (sorts : SweepSorts) (span : UInt64) (bandPlan : BandPlan)
    (receiver : ReceiverProfile) (requests : List SweepRequest) : List SweepSegment :=
  requests.flatMap fun request =>
    if (receiverClip request.range receiver).empty then []
    else requestSegments sorts span bandPlan receiver request

/-- No request makes the alignment of its segments wrap. -/
def AlignmentFits (receiver : ReceiverProfile) (requests : List SweepRequest) : Prop :=
  ∀ request ∈ requests, (receiverClip request.range receiver).upperHz.toNat +
    (binWidth receiver request.resolutionHz).toNat < 2 ^ 64

/-- The planned segments cover what the requests want. -/
theorem mem_covered_planned_iff (hsorts : sorts.Sorted) (hspan : 1 ≤ span)
    {requests : List SweepRequest} (hfits : AlignmentFits receiver requests) {frequency : Nat} :
    frequency ∈ covered (planned sorts span bandPlan receiver requests) ↔
      ∃ request ∈ requests, frequency ∈ swept bandPlan receiver request := by
  have hone : ∀ request ∈ requests,
      (∃ segment ∈ (if (receiverClip request.range receiver).empty = true then []
          else requestSegments sorts span bandPlan receiver request),
        frequency ∈ segment.range.frequencies) ↔ frequency ∈ swept bandPlan receiver request := by
    intro request hrequest
    by_cases hempty : (receiverClip request.range receiver).empty = true
    · rw [if_pos hempty]
      refine iff_of_false ?_ fun h => clip_empty_iff.mp hempty h.2.1
      rintro ⟨segment, hnone, -⟩
      cases hnone
    · have hreached := not_not.mp fun hmissed => hempty (clip_empty_iff.mpr hmissed)
      rw [if_neg hempty, ← covered_request_segments hsorts hspan (hfits request hrequest) hreached]
      rfl
  simp only [covered, mem_cover, planned, List.mem_flatMap]
  constructor
  · rintro ⟨segment, ⟨request, hrequest, hmem⟩, hfrequency⟩
    exact ⟨request, hrequest, (hone request hrequest).mp ⟨segment, hmem, hfrequency⟩⟩
  · rintro ⟨request, hrequest, hswept⟩
    obtain ⟨segment, hmem, hfrequency⟩ := (hone request hrequest).mpr hswept
    exact ⟨segment, ⟨request, hrequest, hmem⟩, hfrequency⟩

/-- The plan has the merged segments of all requests. -/
theorem segments_plan_sweep (receiverName : String) (requests : List SweepRequest) :
    (planSweep sorts span bandPlan receiver formatRange receiverName requests).segments =
      mergeSegments span (sorts.segments (planned sorts span bandPlan receiver requests)) := by
  have hsegments := (@plan_requests sorts span bandPlan receiver formatRange requests
    { name := if receiverName.isEmpty then "rf_sweep" else receiverName ++ " rf_sweep" }).1
  unfold planSweep optimizeSweepPlan
  dsimp only at hsegments ⊢
  rw [hsegments, List.nil_append]
  rfl

/-- Nothing that can be swept of a request is lost. -/
theorem swept_subset_plan (hsorts : sorts.Sorted) (hspan : 1 ≤ span) (receiverName : String)
    {requests : List SweepRequest} (hfits : AlignmentFits receiver requests)
    {request : SweepRequest} (hrequest : request ∈ requests) :
    swept bandPlan receiver request ⊆ covered
      (planSweep sorts span bandPlan receiver formatRange receiverName requests).segments := by
  intro frequency hswept
  have hperm : covered (sorts.segments (planned sorts span bandPlan receiver requests)) =
      covered (planned sorts span bandPlan receiver requests) :=
    cover_perm (hsorts.segments.perm _)
  rw [segments_plan_sweep]
  refine covered_merge_segments _ ?_
  rw [hperm, mem_covered_planned_iff hsorts hspan hfits]
  exact ⟨request, hrequest, hswept⟩

/-- What is left after merging, for every bound of the bins. -/
theorem kept_plan_sweep (hsorts : sorts.Sorted) (hspan : 1 ≤ span) (receiverName : String)
    {requests : List SweepRequest} (hfits : AlignmentFits receiver requests) {bin : Nat}
    (hbins : ∀ request ∈ requests, (binWidth receiver request.resolutionHz).toNat ≤ bin) :
    ∀ segment ∈
        (planSweep sorts span bandPlan receiver formatRange receiverName requests).segments,
      Kept {frequency | ∃ request ∈ requests, frequency ∈ swept bandPlan receiver request}
        receiver.tunable bin segment := by
  rw [segments_plan_sweep]
  refine kept_merge_segments (leads_of_sorted hsorts.segments _) fun segment hmem hnonempty => ?_
  have hplanned := (hsorts.segments.perm _).mem_iff.mp hmem
  have hwanted : ∀ frequency ∈ segment.range.frequencies,
      ∃ request ∈ requests, frequency ∈ swept bandPlan receiver request :=
    fun frequency hfrequency =>
      (mem_covered_planned_iff hsorts hspan hfits).mp ⟨segment, hplanned, hfrequency⟩
  obtain ⟨request, hrequest, hrest⟩ := List.mem_flatMap.mp hplanned
  obtain ⟨-, hsegment⟩ : _ ∧ segment ∈ requestSegments sorts span bandPlan receiver request := by
    split at hrest
    · cases hrest
    · next hempty => exact ⟨hempty, hrest⟩
  refine kept_of_wanted hnonempty ?_ (fun frequency hfrequency => ?_) hwanted
  · rw [request_segments_bin hsorts segment hsegment]
    exact hbins request hrequest
  · obtain ⟨_, -, hswept⟩ := hwanted frequency hfrequency
    exact hswept.1

/-- **Planned sweeps.** For every band plan whose loops over channels end, every receiver and all
requests, whatever the sorts do with what compares equal, if the span is at least one and no
alignment wraps: the channels of each allocation are computed; every frequency that can be swept of
a request is in a segment of the plan; no segment leaves the range of the receiver; whatever is in a
segment lies at most two bins behind a frequency that can be swept of a request; `covered_hz` is the
number of frequencies covered; and there is one warning for each request that the receiver does not
reach. -/
theorem plan_sweep_exact (hsorts : sorts.Sorted) (hends : bandPlan.LoopsEnd) (hspan : 1 ≤ span)
    (receiverName : String) (requests : List SweepRequest)
    (hfits : AlignmentFits receiver requests) :
    let plan := planSweep sorts span bandPlan receiver formatRange receiverName requests
    (∀ allocation ∈ bandPlan.allocations,
      BandPlan.channelsWithin sorts.channels (2 ^ 32 + 1) allocation =
        some (BandPlan.channelsFor sorts.channels allocation)) ∧
    (∀ request ∈ requests, swept bandPlan receiver request ⊆ covered plan.segments) ∧
    covered plan.segments ⊆ receiver.tunable ∧
    (∀ bin : Nat, (∀ request ∈ requests, (binWidth receiver request.resolutionHz).toNat ≤ bin) →
      ∀ frequency ∈ covered plan.segments, ∃ request ∈ requests,
        ∃ wish ∈ swept bandPlan receiver request,
          wish ≤ frequency ∧ frequency ≤ wish + 2 * bin) ∧
    plan.coveredHz.toNat = (covered plan.segments).ncard ∧
    plan.warnings.length =
      requests.countP fun request => (receiverClip request.range receiver).empty := by
  intro plan
  have hkept := fun {bin} => @kept_plan_sweep sorts span bandPlan receiver formatRange hsorts hspan
    receiverName requests hfits bin
  refine ⟨hends.returns _,
    fun request hrequest => swept_subset_plan hsorts hspan receiverName hfits hrequest, ?_,
    fun bin hbins frequency hfrequency => ?_, occupied_width_eq hsorts.ranges _, ?_⟩
  · rintro frequency ⟨segment, hmem, hfrequency⟩
    have hwords : ∀ request ∈ requests, (binWidth receiver request.resolutionHz).toNat ≤ 2 ^ 64 :=
      fun request _ => (UInt64.toNat_lt _).le
    exact (hkept hwords segment hmem).reach hfrequency
  · obtain ⟨segment, hmem, hfrequency⟩ := hfrequency
    obtain ⟨wish, ⟨request, hrequest, hswept⟩, hnear⟩ :=
      (hkept hbins segment hmem).near frequency hfrequency
    exact ⟨request, hrequest, wish, hswept, hnear⟩
  · exact (@plan_requests sorts span bandPlan receiver formatRange requests _).2.trans
      (Nat.zero_add _)

/-! ### Following up interference -/

/-- The room on both sides only adds to a range. -/
theorem subset_padded_range (range : FrequencyRange) (resolutionHz : UInt64) :
    range.frequencies ⊆ (paddedRange range resolutionHz).frequencies := by
  have hupper := range.upperHz.toNat_lt
  unfold paddedRange
  dsimp only
  generalize max range.widthHz (resolutionHz * 10) = pad
  refine Set.Ico_subset_Ico ?_ ?_
  · show (if range.lowerHz > pad then range.lowerHz - pad else 0).toNat ≤ _
    split
    · next hmore =>
      rw [UInt64.toNat_sub_of_le _ _ (UInt64.le_of_lt hmore)]
      exact Nat.sub_le _ _
    · exact Nat.zero_le _
  · show range.upperHz.toNat ≤ (safeAdd range.upperHz pad).toNat
    rw [toNat_safe_add]
    omega

/-- A follow-up sweeps every finding, as far as the receiver reaches. -/
theorem followup_sweeps_findings (hsorts : sorts.Sorted) (hspan : 1 ≤ span)
    (receiverName : String) (findings : List InterferenceFinding) (resolutionHz : UInt64)
    (hfits : receiver.maxFrequencyHz.toNat + (binWidth receiver resolutionHz).toNat < 2 ^ 64)
    {finding : InterferenceFinding} (hfinding : finding ∈ findings) :
    finding.range.frequencies ∩ receiver.tunable ⊆ covered
      (planInterferenceFollowup sorts span bandPlan receiver formatRange receiverName findings
        resolutionHz).segments := by
  have halign : AlignmentFits receiver (findings.map (followupRequest resolutionHz)) := by
    intro request hrequest
    obtain ⟨_, -, rfl⟩ := List.mem_map.mp hrequest
    have hclip : ∀ range, (receiverClip range receiver).upperHz.toNat ≤
        receiver.maxFrequencyHz.toNat := fun range => by
      simp only [receiverClip, Words.toNat_min]
      omega
    exact Nat.lt_of_le_of_lt (Nat.add_le_add_right (hclip _) _) hfits
  have hsubset : finding.range.frequencies ⊆
      (followupRequest resolutionHz finding).range.frequencies := by
    unfold followupRequest
    dsimp only
    split
    · exact subset_padded_range _ _
    · exact subset_rfl
  rintro frequency ⟨hrange, htunable⟩
  refine swept_subset_plan hsorts hspan receiverName halign (List.mem_map_of_mem hfinding) ?_
  exact ⟨htunable, ⟨frequency, hsubset hrange, htunable⟩,
    .survey (fun hprefer => absurd hprefer Bool.false_ne_true) (hsubset hrange)⟩

end Plans

open scoped Words in
/-- The FM band, its guard ranges and one request at its lower end. -/
theorem plan_sweep_exact_fm :
    let bandPlan : BandPlan := {
      allocations := [{
        name := "FM"
        range := ⟨87500000, 108000000⟩
        guardHz := 100000
        rasters := [⟨87600000, 200000, 180000, 1, 102⟩] }] }
    let request : SweepRequest := { range := ⟨87000000, 88000000⟩, includeGuardRanges := true }
    let plan := planSweep ⟨stableSort channelBefore, stableSort segmentFirst, stableSort lowerFirst⟩
      16000000 bandPlan {} (fun _ => "") "" [request]
    swept bandPlan {} request ⊆ covered plan.segments ∧
      covered plan.segments ⊆ ReceiverProfile.tunable {} ∧ plan.warnings.length = 0 := by
  intro bandPlan request plan
  have hsorts : SweepSorts.Sorted
      ⟨stableSort channelBefore, stableSort segmentFirst, stableSort lowerFirst⟩ :=
    ⟨channel_before_compares.stable_sort_sorts, segment_first_compares.stable_sort_sorts,
      lower_first_compares.stable_sort_sorts⟩
  have hfits : AlignmentFits {} [request] := List.forall_mem_singleton.mpr (by decide)
  obtain ⟨-, hswept, htunable, -, -, hwarnings⟩ := @plan_sweep_exact _ 16000000 bandPlan {}
    (fun _ => "") hsorts (by decide) (by decide) "" [request] hfits
  exact ⟨hswept request (List.mem_singleton_self request), htunable, hwarnings⟩

end Aethon.Rf
