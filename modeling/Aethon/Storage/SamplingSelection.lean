import Aethon.Foundation.Words
import Aethon.Storage.ArchiveSampling

/-!
# What a sample selects

The loops of all modes see each reference once and either select or reject it: the walk from both
ends is the plain loop over the references in the order of the walk (`sample_extremes_eq`), and what
the plain loop selects is `chosen`. `sampling_spec` says what a sample consists of.
-/

namespace Aethon.Storage

open FileSystem StableSort BothEnds

open scoped Words

variable {κ : Type} {disk : Disk Path κ} {options : SamplingOptions}

/-! ## What a loop selects -/

section Chosen

variable {τ : Type} (options : SamplingOptions) (chooser : Chooser τ)

/-- The references that a loop selects behind a number of selected ones. -/
def chosen : List ArchiveCollectionRecordRef → τ → ℕ → List ArchiveCollectionRecordRef
  | [], _, _ => []
  | ref :: refs, state, count =>
      if !chooser.take state ref || (options.limit ≠ 0 ∧ count ≥ options.limit.toNat : Bool) then
        chosen refs (chooser.rejected state ref) count
      else ref :: chosen refs (chooser.selected state ref) (count + 1)

variable {options chooser}

/-- What is chosen are some of the references, in their order. -/
theorem chosen_sublist (refs : List ArchiveCollectionRecordRef) (state : τ) (count : ℕ) :
    (chosen options chooser refs state count).Sublist refs := by
  induction refs generalizing state count with
  | nil => exact List.Sublist.slnil
  | cons ref refs ih =>
    unfold chosen
    split
    · exact (ih _ _).cons ref
    · exact (ih _ _).cons_cons ref

/-- The limit holds for what was selected before and now. -/
theorem length_chosen_le (hlimit : options.limit ≠ 0) (refs : List ArchiveCollectionRecordRef)
    (state : τ) {count : ℕ} (hcount : count ≤ options.limit.toNat) :
    count + (chosen options chooser refs state count).length ≤ options.limit.toNat := by
  induction refs generalizing state count with
  | nil => exact hcount
  | cons ref refs ih =>
    unfold chosen
    split
    · exact ih _ hcount
    · next h =>
      have hbelow : count < options.limit.toNat := by
        by_contra hge
        exact h (by simp [hlimit, Nat.not_lt.mp hge])
      have hrest := ih (chooser.selected state ref) hbelow
      rw [List.length_cons, Nat.add_comm _ 1, ← Nat.add_assoc]
      exact hrest

end Chosen

/-- The selected references of the time buckets are of different ones, and of none that was seen. -/
theorem buckets_chosen (refs : List ArchiveCollectionRecordRef) (seen : SortedTable UInt64 Unit)
    (count : ℕ) :
    ((chosen options (timeBucketChooser options) refs seen count).map (timeBucket options)).Nodup ∧
      ∀ ref ∈ chosen options (timeBucketChooser options) refs seen count,
        seen.lookup (timeBucket options ref) = none := by
  induction refs generalizing seen count with
  | nil => exact ⟨List.nodup_nil, fun _ hnone => absurd hnone List.not_mem_nil⟩
  | cons ref refs ih =>
    unfold chosen
    split
    · exact ih seen count
    · next h =>
      have hfresh : seen.lookup (timeBucket options ref) = none := by
        simp only [timeBucketChooser, Bool.or_eq_true, not_or] at h
        simpa using h.1
      obtain ⟨hnodup, hnone⟩ := ih (seen.insert (timeBucket options ref) ()) (count + 1)
      have hother : ∀ other ∈ chosen options (timeBucketChooser options) refs
          (seen.insert (timeBucket options ref) ()) (count + 1),
          timeBucket options other ≠ timeBucket options ref ∧
            seen.lookup (timeBucket options other) = none := by
        intro other hmem
        have hlookup := hnone other hmem
        rw [SortedTable.lookup_insert] at hlookup
        split_ifs at hlookup with hsame
        exact ⟨hsame, hlookup⟩
      refine ⟨?_, List.forall_mem_cons.mpr ⟨hfresh, fun other hmem => (hother other hmem).2⟩⟩
      rw [List.map_cons, List.nodup_cons]
      refine ⟨fun hmem => ?_, hnodup⟩
      obtain ⟨other, hother', hsame⟩ := List.mem_map.mp hmem
      exact (hother other hother').1 hsame

/-! ## The loop -/

/-- What a loop over a number of references adds to a sample. -/
structure Sampled (before : RecordSample) (count : ℕ) (picked : List ArchiveCollectionRecordRef)
    (after : RecordSample) : Prop where
  refs : after.refs.map SampledRecordRef.ref = before.refs.map SampledRecordRef.ref ++ picked
  seen : after.candidatesSeen = before.candidatesSeen + UInt64.ofNat count
  selected : after.selectedCount = before.selectedCount + UInt64.ofNat picked.length
  balanced : after.candidatesSeen + before.selectedCount + before.rejectedCount =
    before.candidatesSeen + after.selectedCount + after.rejectedCount

/-- Selecting fails only where the record cannot be read. -/
theorem select_ref_spec (disk : Disk Path κ) (options : SamplingOptions) (sample : RecordSample)
    (ref : ArchiveCollectionRecordRef) (reason : String) :
    (∃ after, selectRef disk options sample ref reason = .ok after ∧
      after.refs.map SampledRecordRef.ref = sample.refs.map SampledRecordRef.ref ++ [ref] ∧
      after.candidatesSeen = sample.candidatesSeen ∧
      after.selectedCount = sample.selectedCount + 1 ∧
      after.rejectedCount = sample.rejectedCount) ∨
    ∃ error, options.includeRecords = true ∧ loadCollectionRecord disk ref = .error error ∧
      selectRef disk options sample ref reason = .error error := by
  unfold selectRef
  cases hinclude : options.includeRecords with
  | false => exact .inl ⟨_, rfl, by simp, rfl, rfl, rfl⟩
  | true =>
    cases hload : loadCollectionRecord disk ref with
    | error error => exact .inr ⟨error, rfl, rfl, rfl⟩
    | ok record => exact .inl ⟨_, rfl, by simp, rfl, rfl, rfl⟩

theorem ofNat_succ (n : ℕ) : UInt64.ofNat (n + 1) = 1 + UInt64.ofNat n := by
  rw [Nat.add_comm, UInt64.ofNat_add]
  rfl

/-- A rejected reference in front of the others. -/
theorem Sampled.of_rejected {sample after : RecordSample} {count : ℕ}
    {picked : List ArchiveCollectionRecordRef}
    (h : Sampled sample.see.reject count picked after) :
    Sampled sample (count + 1) picked after where
  refs := h.refs
  seen := by
    rw [h.seen, ofNat_succ, ← UInt64.add_assoc]
    rfl
  selected := h.selected
  balanced := by
    have hbalanced : after.candidatesSeen + sample.selectedCount + (sample.rejectedCount + 1) =
        sample.candidatesSeen + 1 + after.selectedCount + after.rejectedCount := h.balanced
    grind

/-- A selected reference in front of the others. -/
theorem Sampled.of_selected {sample taken after : RecordSample} {count : ℕ}
    {ref : ArchiveCollectionRecordRef} {picked : List ArchiveCollectionRecordRef}
    (hrefs : taken.refs.map SampledRecordRef.ref = sample.refs.map SampledRecordRef.ref ++ [ref])
    (hseen : taken.candidatesSeen = sample.candidatesSeen + 1)
    (hselected : taken.selectedCount = sample.selectedCount + 1)
    (hrejected : taken.rejectedCount = sample.rejectedCount)
    (h : Sampled taken count picked after) : Sampled sample (count + 1) (ref :: picked) after where
  refs := by
    rw [h.refs, hrefs, List.append_assoc]
    rfl
  seen := by
    rw [h.seen, hseen, ofNat_succ, ← UInt64.add_assoc]
  selected := by
    rw [h.selected, hselected, List.length_cons, ofNat_succ, ← UInt64.add_assoc]
  balanced := by
    have hbalanced := h.balanced
    rw [hseen, hselected, hrejected] at hbalanced
    grind

/-- A sample takes what is chosen, or fails to load it. -/
theorem sample_refs_spec {τ : Type} (disk : Disk Path κ) (options : SamplingOptions)
    (chooser : Chooser τ) (reason : String) (refs : List ArchiveCollectionRecordRef) (state : τ)
    (sample : RecordSample) :
    (∃ after, sampleRefs disk options chooser reason refs state sample = .ok after ∧
      Sampled sample refs.length (chosen options chooser refs state sample.refs.length) after) ∨
    ∃ ref ∈ refs, ∃ error, options.includeRecords = true ∧
      loadCollectionRecord disk ref = .error error ∧
      sampleRefs disk options chooser reason refs state sample = .error error := by
  induction refs generalizing state sample with
  | nil =>
    refine .inl ⟨sample, rfl, ?_, ?_, ?_, rfl⟩
    · exact (List.append_nil _).symm
    · exact (UInt64.add_zero _).symm
    · exact (UInt64.add_zero _).symm
  | cons ref refs ih =>
    by_cases hskip : (!chooser.take state ref || sample.see.reachedLimit options) = true
    · have hchosen : chosen options chooser (ref :: refs) state sample.refs.length =
          chosen options chooser refs (chooser.rejected state ref) sample.refs.length :=
        if_pos hskip
      have hstep : sampleRefs disk options chooser reason (ref :: refs) state sample =
          sampleRefs disk options chooser reason refs (chooser.rejected state ref)
            sample.see.reject := if_pos hskip
      rw [hchosen, hstep]
      rcases ih (chooser.rejected state ref) sample.see.reject with
        ⟨after, hafter, hs⟩ | ⟨other, hother, herror⟩
      · exact .inl ⟨after, hafter, hs.of_rejected⟩
      · exact .inr ⟨other, List.mem_cons_of_mem ref hother, herror⟩
    · have hchosen : chosen options chooser (ref :: refs) state sample.refs.length =
          ref :: chosen options chooser refs (chooser.selected state ref)
            (sample.refs.length + 1) := if_neg hskip
      have hstep : sampleRefs disk options chooser reason (ref :: refs) state sample =
          (selectRef disk options sample.see ref reason).bind fun sample =>
            sampleRefs disk options chooser reason refs (chooser.selected state ref) sample :=
        if_neg hskip
      rw [hchosen, hstep]
      rcases select_ref_spec disk options sample.see ref reason with
        ⟨taken, htaken, hrefs, hseen, hselected, hrejected⟩ | ⟨error, hinclude, hload, herror⟩
      · have hlength : taken.refs.length = sample.refs.length + 1 := by
          have hlengths := congrArg List.length hrefs
          simpa [RecordSample.see] using hlengths
        rw [htaken]
        rcases ih (chooser.selected state ref) taken with
          ⟨after, hafter, hs⟩ | ⟨other, hother, herror⟩
        · rw [hlength] at hs
          exact .inl ⟨after, hafter, hs.of_selected hrefs hseen hselected hrejected⟩
        · exact .inr ⟨other, List.mem_cons_of_mem ref hother, herror⟩
      · rw [herror]
        exact .inr ⟨ref, List.mem_cons_self, error, hinclude, hload, rfl⟩

/-! ## The walk from both ends -/

/-- A loop that takes every reference up to the limit. -/
def takeAll (disk : Disk Path κ) (options : SamplingOptions)
    (refs : List ArchiveCollectionRecordRef) (sample : RecordSample) : Except Error RecordSample :=
  sampleRefs disk options (.pure fun _ => true) "payload size extreme" refs () sample

theorem take_all_cons (ref : ArchiveCollectionRecordRef) (refs : List ArchiveCollectionRecordRef)
    (sample : RecordSample) :
    takeAll disk options (ref :: refs) sample =
      if sample.see.reachedLimit options then takeAll disk options refs sample.see.reject
      else (selectRef disk options sample.see ref "payload size extreme").bind
        (takeAll disk options refs) := rfl

/-- One round of the walk, if what is left behind it is walked as the rest of the loop. -/
theorem walk_round {refs rest : List ArchiveCollectionRecordRef} {fuel low high low' high' : ℕ}
    {takeLow : Bool} {ref : ArchiveCollectionRecordRef}
    (hinside : low < refs.length ∧ low ≤ high)
    (hfound : refs[if takeLow then low else high]? = some ref)
    (hlow : low' = if takeLow then low + 1 else low)
    (hhigh : high' = if takeLow then high else decrement high) (hrange : high' < refs.length)
    (hrest : ∀ sample, walkExtremes disk options refs fuel low' high' (!takeLow) sample =
      some (takeAll disk options rest sample)) (sample : RecordSample) :
    walkExtremes disk options refs (fuel + 1) low high takeLow sample =
      some (takeAll disk options (ref :: rest) sample) := by
  rw [walkExtremes, if_pos hinside, take_all_cons]
  simp only [hfound, ← hlow, ← hhigh, hrest]
  by_cases hreached : sample.see.reachedLimit options = true
  · rw [if_pos hreached, if_pos hreached]
  · rw [if_neg hreached, if_neg hreached]
    cases selectRef disk options sample.see ref "payload size extreme" with
    | error error => rfl
    | ok sample =>
      simp only [if_neg (Nat.not_le.mpr hrange)]
      rfl

/-- The walk sees the references between its indices once each, by turns from the front and from the
back, and no index is out of range. The upper index is only decremented behind the lower one, which
is past the front by then. -/
theorem walk_extremes_eq {refs : List ArchiveCollectionRecordRef} {fuel low high : ℕ}
    {takeLow : Bool} (hfuel : high + 1 - low < fuel) (hlow : low ≤ high + 1)
    (hhigh : high < refs.length) (hturn : takeLow = false → 0 < low) (sample : RecordSample) :
    walkExtremes disk options refs fuel low high takeLow sample =
      some (takeAll disk options (fromBothEnds takeLow (window refs low (high + 1))) sample) := by
  induction fuel generalizing low high takeLow sample with
  | zero => omega
  | succ fuel ih =>
    rcases Nat.lt_or_ge high low with hpast | hinside
    · rw [walkExtremes, if_neg fun h => Nat.not_le.mpr hpast h.2,
        window_empty (Nat.succ_le_of_lt hpast), fromBothEnds_nil]
      rfl
    · cases takeLow with
      | true =>
        obtain ⟨ref, hfound, hwindow⟩ := window_low (Nat.lt_succ_of_le hinside) hhigh
        have hrest (sample : RecordSample) :
            walkExtremes disk options refs fuel (low + 1) high false sample =
              some (takeAll disk options
                (fromBothEnds false (window refs (low + 1) (high + 1))) sample) :=
          ih (by omega) (by omega) hhigh (fun _ => Nat.succ_pos low) sample
        rw [hwindow, fromBothEnds_cons]
        exact walk_round ⟨by omega, hinside⟩ hfound (by rfl) (by rfl) hhigh hrest sample
      | false =>
        have hpos := hturn rfl
        obtain ⟨ref, hfound, hwindow⟩ := window_high hinside hhigh
        obtain ⟨below, rfl⟩ := Nat.exists_eq_succ_of_ne_zero (show high ≠ 0 by omega)
        have hrest (sample : RecordSample) :
            walkExtremes disk options refs fuel low below true sample =
              some (takeAll disk options
                (fromBothEnds true (window refs low (below + 1))) sample) :=
          ih (by omega) (by omega) (by omega) (fun h => by cases h) sample
        have hbelow : below < refs.length := by omega
        rw [hwindow, fromBothEnds_concat]
        exact walk_round ⟨by omega, hinside⟩ hfound (by rfl) (by rfl) hbelow hrest sample

/-- The extremes of the payload sizes are seen by turns, each reference once. -/
theorem sample_extremes_eq
    (sort : List ArchiveCollectionRecordRef → List ArchiveCollectionRecordRef)
    {refs : List ArchiveCollectionRecordRef} {fuel : ℕ} (hfuel : (sort refs).length < fuel)
    (sample : RecordSample) :
    samplePayloadExtremes disk options sort fuel sample refs =
      some (takeAll disk options (fromBothEnds true (sort refs)) sample) := by
  unfold samplePayloadExtremes
  simp only
  cases hrefs : sort refs with
  | nil =>
    rw [hrefs] at hfuel
    obtain ⟨fuel, rfl⟩ := Nat.exists_eq_succ_of_ne_zero (Nat.ne_of_gt hfuel)
    rw [fromBothEnds_nil]
    rfl
  | cons first rest =>
    rw [hrefs] at hfuel
    have hall := window_all (first :: rest)
    rw [List.length_cons] at hfuel hall
    rw [if_neg (List.cons_ne_nil first rest), List.length_cons, Nat.add_sub_cancel,
      walk_extremes_eq (by omega) (by omega) (by simp) (fun h => by cases h), hall]

/-! ## Normalized samples -/

theorem sampled_earlier_compares :
    Compares sampledEarlier fun sampled => sampled.ref.captureTimeNs :=
  fun _ _ => decide_eq_true_iff

/-- A normalized sample has its references by time. -/
theorem map_ref_normalize (sample : RecordSample) :
    (normalizeSample sample).refs.map SampledRecordRef.ref =
      (stableSort sampledEarlier sample.refs).map SampledRecordRef.ref := by
  have hplaces : ∀ sorted : List SampledRecordRef,
      (sorted.zipIdx.map fun place : SampledRecordRef × ℕ =>
        ({ place.1 with sampleRank := UInt64.ofNat place.2 } : SampledRecordRef)).map
          SampledRecordRef.ref = sorted.map SampledRecordRef.ref := by
    intro sorted
    calc _ = (sorted.zipIdx.map Prod.fst).map SampledRecordRef.ref := by
          rw [List.map_map, List.map_map]
          rfl
      _ = sorted.map SampledRecordRef.ref := by rw [List.zipIdx_map_fst]
  exact hplaces _

/-- The ranks of a normalized sample count from zero. -/
theorem ranks_normalize (sample : RecordSample) :
    (normalizeSample sample).refs.map SampledRecordRef.sampleRank =
      (List.range (normalizeSample sample).refs.length).map UInt64.ofNat := by
  have hplaces : ∀ sorted : List SampledRecordRef,
      (sorted.zipIdx.map fun place : SampledRecordRef × ℕ =>
        ({ place.1 with sampleRank := UInt64.ofNat place.2 } : SampledRecordRef)).map
          SampledRecordRef.sampleRank = (List.range sorted.length).map UInt64.ofNat := by
    intro sorted
    calc _ = (sorted.zipIdx.map Prod.snd).map UInt64.ofNat := by
          rw [List.map_map, List.map_map]
          rfl
      _ = (List.range sorted.length).map UInt64.ofNat := by
          rw [List.zipIdx_map_snd, List.range_eq_range']
  have hlength : (normalizeSample sample).refs.length =
      (stableSort sampledEarlier sample.refs).length := by simp [normalizeSample]
  rw [hlength]
  exact hplaces _

/-- A sample of references: all of them are counted as seen, and as selected or rejected, and the
selected ones are some of them, within the limit, in the order of time with their ranks. -/
structure SampleOf (options : SamplingOptions) (refs : List ArchiveCollectionRecordRef)
    (sample : RecordSample) : Prop where
  seen : sample.candidatesSeen = UInt64.ofNat refs.length
  balanced : sample.selectedCount + sample.rejectedCount = sample.candidatesSeen
  selected : sample.selectedCount = UInt64.ofNat sample.refs.length
  taken : (sample.refs.map SampledRecordRef.ref).Subperm refs
  limit : options.limit ≠ 0 → sample.refs.length ≤ options.limit.toNat
  ordered : (sample.refs.map fun sampled => sampled.ref.captureTimeNs).Pairwise (· ≤ ·)
  ranks : sample.refs.map SampledRecordRef.sampleRank =
    (List.range sample.refs.length).map UInt64.ofNat
  buckets : options.mode = .timeBucketFirst →
    (sample.refs.map fun sampled => timeBucket options sampled.ref).Nodup

/-- The counters of a sample of a vector count without wrapping. -/
theorem SampleOf.counts {refs : List ArchiveCollectionRecordRef} {sample : RecordSample}
    (h : SampleOf options refs sample) (hsize : refs.length < 2 ^ 64) :
    sample.candidatesSeen.toNat = refs.length ∧
      sample.selectedCount.toNat + sample.rejectedCount.toNat = refs.length := by
  have hle : sample.refs.length ≤ refs.length := by
    have hlength := h.taken.length_le
    rwa [List.length_map] at hlength
  have hseen : sample.candidatesSeen.toNat = refs.length := by
    rw [h.seen, UInt64.toNat_ofNat_of_lt' hsize]
  have hselected : sample.selectedCount.toNat = sample.refs.length := by
    rw [h.selected, UInt64.toNat_ofNat_of_lt' (hle.trans_lt hsize)]
  have hsum := congrArg UInt64.toNat h.balanced
  have hbound := sample.rejectedCount.toNat_lt
  rw [UInt64.toNat_add, hseen, hselected] at hsum
  refine ⟨hseen, ?_⟩
  rw [hselected]
  omega

/-- Normalizing a sample keeps what was sampled. -/
theorem Sampled.normalized {refs picked : List ArchiveCollectionRecordRef} {after : RecordSample}
    (h : Sampled { options } refs.length picked after) (hpicked : picked.Subperm refs)
    (hlimit : options.limit ≠ 0 → picked.length ≤ options.limit.toNat)
    (hbuckets : options.mode = .timeBucketFirst → (picked.map (timeBucket options)).Nodup) :
    SampleOf options refs (normalizeSample after) := by
  have hperm : ((normalizeSample after).refs.map SampledRecordRef.ref).Perm picked := by
    rw [map_ref_normalize]
    exact ((stable_sort_perm _ _).map _).trans (List.Perm.of_eq h.refs)
  have hlength : (normalizeSample after).refs.length = picked.length := by
    rw [← hperm.length_eq, List.length_map]
  refine ⟨?_, ?_, ?_, hperm.subperm.trans hpicked, ?_, ?_, ranks_normalize after, ?_⟩
  · exact h.seen.trans (UInt64.zero_add _)
  · have hbalanced := h.balanced
    show after.selectedCount + after.rejectedCount = after.candidatesSeen
    simpa using hbalanced.symm
  · rw [hlength]
    exact h.selected.trans (UInt64.zero_add _)
  · rw [hlength]
    exact hlimit
  · have hsorted := pairwise_key sampled_earlier_compares after.refs
    have htimes : (normalizeSample after).refs.map (fun sampled => sampled.ref.captureTimeNs) =
        (stableSort sampledEarlier after.refs).map fun sampled => sampled.ref.captureTimeNs := by
      have hmap := congrArg (List.map ArchiveCollectionRecordRef.captureTimeNs)
        (map_ref_normalize after)
      rwa [List.map_map, List.map_map] at hmap
    rw [htimes, List.pairwise_map]
    exact hsorted
  · intro hmode
    have hmap := (hperm.map (timeBucket options)).nodup_iff.mpr (hbuckets hmode)
    rwa [List.map_map] at hmap

/-- Payloads are compared by their size, then by their time. -/
theorem smaller_payload_compares : Compares smallerPayload fun ref =>
    toLex (ref.payloadSize, ref.captureTimeNs) := by
  refine compares_lex fun left right => ?_
  unfold smallerPayload StableSort.Before
  split
  · next hne => simp [hne]
  · next heq =>
    rw [not_not] at heq
    simp [heq]

/-! ## The specification -/

/-- What a loop over references leaves is a sample of them, unless a record cannot be read. -/
theorem sample_of_loop {τ : Type} {chooser : Chooser τ} {reason : String}
    {refs visited : List ArchiveCollectionRecordRef} {state : τ} (hvisited : visited.Perm refs)
    (hbuckets : options.mode = .timeBucketFirst →
      ((chosen options chooser visited state 0).map (timeBucket options)).Nodup) :
    (∃ sample, (sampleRefs disk options chooser reason visited state { options }).map
        normalizeSample = .ok sample ∧ SampleOf options refs sample) ∨
    ∃ ref ∈ refs, ∃ error, options.includeRecords = true ∧
      loadCollectionRecord disk ref = .error error ∧
      (sampleRefs disk options chooser reason visited state { options }).map normalizeSample =
        .error error := by
  rcases sample_refs_spec disk options chooser reason visited state { options } with
    ⟨after, hafter, hs⟩ | ⟨ref, href, error, hinclude, hload, herror⟩
  · rw [hvisited.length_eq] at hs
    refine .inl ⟨_, by rw [hafter]; rfl, hs.normalized ?_ (fun hlimit => ?_) hbuckets⟩
    · exact (chosen_sublist _ _ _).subperm.trans hvisited.subperm
    · have hle := @length_chosen_le _ options chooser hlimit visited state 0 (Nat.zero_le _)
      rwa [Nat.zero_add] at hle
  · exact .inr ⟨ref, hvisited.mem_iff.mp href, error, hinclude, hload, by rw [herror]; rfl⟩

/-- In each mode a sample is one of the filtered references, unless a record that it includes cannot
be read. The extremes of the payload sizes are taken from the references in a walk from both ends of
the sorted ones, which sees each of them once. -/
theorem sampling_spec
    {sort : List ArchiveCollectionRecordRef → List ArchiveCollectionRecordRef}
    (hsort : Sorts smallerPayload sort) (disk : Disk Path κ) (collection : ArchiveCollection)
    (options : SamplingOptions) (query : ArchiveQuery) {fuel : ℕ}
    (hfuel : (filterCollectionRefs collection query).length < fuel) :
    let refs := filterCollectionRefs collection query
    let outcome := sampleArchiveCollection disk options sort fuel collection query
    ((∃ sample, outcome = some (.ok sample) ∧ SampleOf options refs sample) ∨
      ∃ ref ∈ refs, ∃ error, options.includeRecords = true ∧
        loadCollectionRecord disk ref = .error error ∧ outcome = some (.error error)) ∧
    (options.mode = .payloadExtremes →
      let visited := fromBothEnds true (sort refs)
      visited.Perm refs ∧
        outcome = some ((takeAll disk options visited { options }).map normalizeSample)) := by
  intro refs outcome
  have hvisited : (fromBothEnds true (sort refs)).Perm refs :=
    (fromBothEnds_perm true _).trans (hsort.perm refs)
  have hlift {τ : Type} {chooser : Chooser τ} {reason : String}
      {visited : List ArchiveCollectionRecordRef} {state : τ} (hperm : visited.Perm refs)
      (houtcome : outcome = some ((sampleRefs disk options chooser reason visited state
        { options }).map normalizeSample))
      (hbuckets : options.mode = .timeBucketFirst →
        ((chosen options chooser visited state 0).map (timeBucket options)).Nodup) :
      (∃ sample, outcome = some (.ok sample) ∧ SampleOf options refs sample) ∨
        ∃ ref ∈ refs, ∃ error, options.includeRecords = true ∧
          loadCollectionRecord disk ref = .error error ∧ outcome = some (.error error) := by
    rw [houtcome]
    rcases sample_of_loop hperm hbuckets with
      ⟨sample, hsample, hspec⟩ | ⟨ref, href, error, hinclude, hload, herror⟩
    · exact .inl ⟨sample, congrArg some hsample, hspec⟩
    · exact .inr ⟨ref, href, error, hinclude, hload, congrArg some herror⟩
  have hunfold : outcome = sampleArchiveCollection disk options sort fuel collection query := rfl
  unfold sampleArchiveCollection at hunfold
  cases hmode : options.mode with
  | firstN =>
    rw [hmode] at hunfold hlift
    exact ⟨hlift (List.Perm.refl _) hunfold (fun h => by cases h), fun h => by cases h⟩
  | everyNth =>
    rw [hmode] at hunfold hlift
    exact ⟨hlift (List.Perm.refl _) hunfold (fun h => by cases h), fun h => by cases h⟩
  | timeBucketFirst =>
    rw [hmode] at hunfold hlift
    exact ⟨hlift (List.Perm.refl _) hunfold fun _ => (buckets_chosen _ _ _).1, fun h => by cases h⟩
  | deterministicHash =>
    rw [hmode] at hunfold hlift
    exact ⟨hlift (List.Perm.refl _) hunfold (fun h => by cases h), fun h => by cases h⟩
  | payloadExtremes =>
    have hextremes : samplePayloadExtremes disk options sort fuel { options } refs =
        some (takeAll disk options (fromBothEnds true (sort refs)) { options }) :=
      sample_extremes_eq sort (by rw [(hsort.perm refs).length_eq]; exact hfuel) _
    rw [hmode] at hunfold hlift
    simp only [show filterCollectionRefs collection query = refs from rfl, hextremes] at hunfold
    exact ⟨hlift hvisited hunfold (fun h => by cases h), fun _ => ⟨hvisited, hunfold⟩⟩

/-- Three records of different sizes. -/
def threeSizes : ArchiveCollection where
  records := [{ path := ⟨"day.ath"⟩, captureTimeNs := 100, payloadSize := 5 },
    { path := ⟨"day.ath"⟩, captureTimeNs := 200, payloadSize := 1 },
    { path := ⟨"day.ath"⟩, captureTimeNs := 300, payloadSize := 9 }]

/-- The least and the greatest of three payloads, without their records. -/
theorem sampling_spec_extremes :
    let disk : Disk Path Path := ⟨id, fun _ => none, fun _ => none⟩
    let options : SamplingOptions :=
      { mode := .payloadExtremes, limit := 2, includeRecords := false }
    let refs := filterCollectionRefs threeSizes {}
    let outcome :=
      sampleArchiveCollection disk options (stableSort smallerPayload) 4 threeSizes {}
    ((∃ sample, outcome = some (.ok sample) ∧ SampleOf options refs sample) ∨
      ∃ ref ∈ refs, ∃ error, options.includeRecords = true ∧
        loadCollectionRecord disk ref = .error error ∧ outcome = some (.error error)) ∧
    (options.mode = .payloadExtremes →
      let visited := fromBothEnds true (stableSort smallerPayload refs)
      visited.Perm refs ∧
        outcome = some ((takeAll disk options visited { options }).map normalizeSample)) :=
  sampling_spec smaller_payload_compares.stable_sort_sorts _ _ _ _ (by decide)

end Aethon.Storage
