import Aethon.Diagnostics.Metrics
import Aethon.Foundation.StableSort
import Mathlib.Data.List.Induction

/-!
# Identities and their keys

The key of an identity puts the name and the tags in a row, with `|` in front of a tag and `=` in
it, and escapes neither. `canonical_metric_key_eq_iff` says which identities have one key, and
`group_metric_series_iff` that series and differences keep identities apart unless two of these
meet.
-/

namespace Aethon.Diagnostics

open StableSort

/-! ## Keys -/

/-- The pieces of a name and of its tags, each as `key=value`, between the `|` in them. -/
def identityPieces (identity : MetricIdentity) : List Text :=
  identity.name.splitOn '|' ++
    identity.tags.entries.flatMap fun tag => (tagText tag).splitOn '|'

/-- Different identities of the same pieces. -/
def Confusable (left right : MetricIdentity) : Prop :=
  left ≠ right ∧ identityPieces left = identityPieces right

/-- Cutting the key at every `|` gives the pieces. -/
theorem splitOn_canonical_metric_key (identity : MetricIdentity) :
    (canonicalMetricKey identity).splitOn '|' = identityPieces identity := by
  have htags (front : Text) (tags : List (Text × Text)) :
      (front ++ tags.flatMap fun tag => '|' :: tagText tag).splitOn '|' =
        front.splitOn '|' ++ tags.flatMap fun tag => (tagText tag).splitOn '|' := by
    induction tags generalizing front with
    | nil => rw [List.flatMap_nil, List.flatMap_nil, List.append_nil, List.append_nil]
    | cons tag tags ih =>
        rw [List.flatMap_cons, List.cons_append, List.splitOn_append_cons_self, ih,
          List.flatMap_cons]
  exact htags identity.name identity.tags.entries

/-- Identities have one key exactly when they have the same pieces. -/
theorem canonical_metric_key_eq_iff {left right : MetricIdentity} :
    canonicalMetricKey left = canonicalMetricKey right ↔
      identityPieces left = identityPieces right := by
  rw [← splitOn_canonical_metric_key, ← splitOn_canonical_metric_key]
  refine ⟨fun h => by rw [h], fun h => ?_⟩
  calc
    canonicalMetricKey left = ['|'].intercalate ((canonicalMetricKey left).splitOn '|') :=
      (List.intercalate_splitOn '|').symm
    _ = canonicalMetricKey right := by rw [h, List.intercalate_splitOn]

/-- Two identities have one key when they are equal or can be confused. -/
theorem eq_or_confusable_iff {left right : MetricIdentity} :
    canonicalMetricKey left = canonicalMetricKey right ↔
      left = right ∨ Confusable left right := by
  rw [canonical_metric_key_eq_iff]
  constructor
  · intro h
    by_cases heq : left = right
    · exact Or.inl heq
    · exact Or.inr ⟨heq, h⟩
  · rintro (rfl | h)
    · rfl
    · exact h.2

/-- No `|` in the name and the tags, and no `=` in a key. -/
structure Plain (identity : MetricIdentity) : Prop where
  name : '|' ∉ identity.name
  tags : ∀ tag ∈ identity.tags.entries, '|' ∉ tag.1 ∧ '=' ∉ tag.1 ∧ '|' ∉ tag.2

/-- A tag without the sign in its name can be told from its text. -/
theorem tag_text_inj {tag tag' : Text × Text} (h : '=' ∉ tag.1) (h' : '=' ∉ tag'.1)
    (heq : tagText tag = tagText tag') : tag = tag' := by
  have hkey (tag : Text × Text) (h : '=' ∉ tag.1) :
      (tagText tag).takeWhile (· ≠ '=') = tag.1 := by
    refine (List.takeWhile_append_of_pos fun ch hch => ?_).trans (List.append_nil _)
    exact decide_eq_true fun heq => h (heq ▸ hch)
  have hkeys : tag.1 = tag'.1 := by rw [← hkey tag h, heq, hkey tag' h']
  rw [tagText, tagText, hkeys] at heq
  exact Prod.ext hkeys (List.cons.inj (List.append_cancel_left heq)).2

/-- The pieces of a plain identity are its name and its tags. -/
theorem Plain.pieces {identity : MetricIdentity} (h : Plain identity) :
    identityPieces identity = identity.name :: identity.tags.entries.map tagText := by
  have htags : ∀ tag ∈ identity.tags.entries, (tagText tag).splitOn '|' = [tagText tag] := by
    intro tag htag
    obtain ⟨hkey, -, hvalue⟩ := h.tags tag htag
    refine List.splitOn_eq_singleton ?_
    simpa [tagText] using ⟨hkey, hvalue⟩
  rw [identityPieces, List.splitOn_eq_singleton h.name, List.flatMap_congr htags,
    ← List.map_eq_flatMap, List.singleton_append]

/-- Tags without the sign in their names can be told from their texts. -/
theorem map_tag_text_inj {tags tags' : List (Text × Text)} (h : ∀ tag ∈ tags, '=' ∉ tag.1)
    (h' : ∀ tag ∈ tags', '=' ∉ tag.1) (heq : tags.map tagText = tags'.map tagText) :
    tags = tags' := by
  induction tags generalizing tags' with
  | nil => exact (List.map_eq_nil_iff.mp heq.symm).symm
  | cons tag tags ih =>
      cases tags' with
      | nil => cases heq
      | cons tag' tags' =>
          obtain ⟨hfirst, hrest⟩ := List.cons.inj heq
          obtain ⟨htag, htags⟩ := List.forall_mem_cons.mp h
          obtain ⟨htag', htags'⟩ := List.forall_mem_cons.mp h'
          rw [tag_text_inj htag htag' hfirst, ih htags htags' hrest]

/-- Plain identities are kept apart. -/
theorem Plain.not_confusable {left right : MetricIdentity} (h : Plain left) (h' : Plain right) :
    ¬Confusable left right := by
  rintro ⟨hne, heq⟩
  rw [h.pieces, h'.pieces] at heq
  obtain ⟨hname, htexts⟩ := List.cons.inj heq
  have htags := map_tag_text_inj (fun tag htag => (h.tags tag htag).2.1)
    (fun tag htag => (h'.tags tag htag).2.1) htexts
  exact hne (same_metric_identity_iff.mp
    (decide_eq_true ⟨hname, SortedTable.ext_entries htags⟩))

/-! ## Series -/

/-- The samples with a key. -/
def withKey (samples : List MetricSample) (key : Text) : List MetricSample :=
  samples.filter fun sample => canonicalMetricKey sample.identity = key

theorem mem_with_key {samples : List MetricSample} {sample : MetricSample} {key : Text} :
    sample ∈ withKey samples key ↔
      sample ∈ samples ∧ canonicalMetricKey sample.identity = key := by
  rw [withKey, List.mem_filter, decide_eq_true_iff]

/-- A series holds the samples of its key, in their order. -/
theorem lookup_grouped_series (samples : List MetricSample) (key : Text) :
    ((groupedSeries samples).lookup key).elim [] MetricSeries.samples = withKey samples key := by
  have hfold (items : List MetricSample) (held : Option MetricSeries) :
      (items.foldl (fun held sample => some (addToSeries sample held)) held).elim []
          MetricSeries.samples = held.elim [] MetricSeries.samples ++ items := by
    induction items generalizing held with
    | nil => exact (List.append_nil _).symm
    | cons sample items ih =>
        have hadd : (addToSeries sample held).samples =
            held.elim [] MetricSeries.samples ++ [sample] := by
          unfold addToSeries
          cases held <;> dsimp only <;> split <;> rfl
        rw [List.foldl_cons, ih, Option.elim_some, hadd, List.append_assoc, List.singleton_append]
  rw [groupedSeries, SortedTable.lookup_foldl_update, hfold]
  rfl

section Series

variable {sortSamplesByTime : List MetricSample → List MetricSample}
  (hsort : Sorts sampleBefore sortSamplesByTime) (samples : List MetricSample)

include hsort

/-- Two samples are in one series exactly when they have one key. -/
theorem in_one_series_iff (first second : MetricSample) :
    (∃ series ∈ groupMetricSeries sortSamplesByTime samples,
        first ∈ series.samples ∧ second ∈ series.samples) ↔
      first ∈ samples ∧ second ∈ samples ∧
        canonicalMetricKey first.identity = canonicalMetricKey second.identity := by
  constructor
  · rintro ⟨series, hseries, hfirst, hsecond⟩
    obtain ⟨item, hitem, rfl⟩ := List.mem_map.mp hseries
    obtain ⟨key, hlookup⟩ := SortedTable.mem_values_iff.mp hitem
    have hsamples := lookup_grouped_series samples key
    rw [hlookup, Option.elim_some] at hsamples
    have hmem (sample : MetricSample) (h : sample ∈ sortSamplesByTime item.samples) :
        sample ∈ samples ∧ canonicalMetricKey sample.identity = key := by
      rw [(hsort.perm _).mem_iff, hsamples] at h
      exact mem_with_key.mp h
    obtain ⟨hfirst, hkey⟩ := hmem first hfirst
    obtain ⟨hsecond, hkey'⟩ := hmem second hsecond
    exact ⟨hfirst, hsecond, hkey.trans hkey'.symm⟩
  · rintro ⟨hfirst, hsecond, hkey⟩
    have hsamples := lookup_grouped_series samples (canonicalMetricKey first.identity)
    have hfirst := mem_with_key.mpr ⟨hfirst, rfl⟩
    have hsecond := mem_with_key.mpr ⟨hsecond, hkey.symm⟩
    cases hlookup : (groupedSeries samples).lookup (canonicalMetricKey first.identity) with
    | none =>
        -- the first sample would be in no series
        rw [hlookup, Option.elim_none] at hsamples
        rw [← hsamples] at hfirst
        cases hfirst
    | some item =>
        rw [hlookup, Option.elim_some] at hsamples
        rw [← hsamples, ← (hsort.perm _).mem_iff] at hfirst hsecond
        exact ⟨_, List.mem_map_of_mem (SortedTable.mem_values_iff.mpr ⟨_, hlookup⟩),
          hfirst, hsecond⟩

end Series

/-! ## Differences -/

theorem identity_finish_delta (delta : MetricDelta) :
    (finishDelta delta).identity = delta.identity := by
  unfold finishDelta
  split <;> rfl

/-- A difference has the identity of the last sample of its key. -/
theorem lookup_compared_deltas (previous current : MetricSnapshot) (key : Text) :
    ((comparedDeltas previous current).lookup key).map MetricDelta.identity =
      (withKey (previous.samples ++ current.samples) key).getLast?.map MetricSample.identity := by
  have hfold (add : MetricSample → Option MetricDelta → MetricDelta)
      (hadd : ∀ sample held, (add sample held).identity = sample.identity)
      (items : List MetricSample) (held : Option MetricDelta) :
      (items.foldl (fun held sample => some (add sample held)) held).map MetricDelta.identity =
        (items.getLast?.map MetricSample.identity).or (held.map MetricDelta.identity) := by
    induction items using List.reverseRecOn with
    | nil => rfl
    | append_singleton items sample _ =>
        rw [List.foldl_concat, List.getLast?_concat, Option.map_some, hadd]
        rfl
  rw [comparedDeltas, SortedTable.lookup_foldl_update, hfold addCurrent fun _ _ => rfl,
    SortedTable.lookup_foldl_update, hfold addPrevious fun _ _ => rfl, withKey, List.filter_append,
    List.getLast?_append, Option.map_or]
  exact congrArg _ Option.or_none

section Deltas

variable {previous current : MetricSnapshot} {identity : MetricIdentity}

/-- The identity of a difference is that of the last sample of its key. -/
theorem mem_delta_identities_iff :
    identity ∈ (compareMetricSnapshots previous current).map MetricDelta.identity ↔
      ∃ sample, (withKey (previous.samples ++ current.samples)
        (canonicalMetricKey identity)).getLast? = some sample ∧ sample.identity = identity := by
  rw [compareMetricSnapshots, List.map_map, List.mem_map]
  constructor
  · rintro ⟨delta, hdelta, rfl⟩
    obtain ⟨key, hlookup⟩ := SortedTable.mem_values_iff.mp hdelta
    have hidentity := lookup_compared_deltas previous current key
    rw [hlookup, Option.map_some] at hidentity
    obtain ⟨sample, hlast, hsample⟩ := Option.map_eq_some_iff.mp hidentity.symm
    have hkey := (mem_with_key.mp (List.mem_of_getLast? hlast)).2
    rw [Function.comp_apply, identity_finish_delta, ← hsample, hkey]
    exact ⟨sample, hlast, rfl⟩
  · rintro ⟨sample, hlast, rfl⟩
    have hidentity := lookup_compared_deltas previous current (canonicalMetricKey sample.identity)
    rw [hlast, Option.map_some] at hidentity
    obtain ⟨delta, hlookup, hdelta⟩ := Option.map_eq_some_iff.mp hidentity
    refine ⟨delta, SortedTable.mem_values_iff.mpr ⟨_, hlookup⟩, ?_⟩
    rw [Function.comp_apply, identity_finish_delta, hdelta]

/-- No two differences have one key. -/
theorem nodup_delta_identities (previous current : MetricSnapshot) :
    ((compareMetricSnapshots previous current).map MetricDelta.identity).Nodup := by
  have hkeys : ∀ entry ∈ (comparedDeltas previous current).entries,
      canonicalMetricKey (finishDelta entry.2).identity = entry.1 := by
    rintro ⟨key, delta⟩ hentry
    have hidentity := lookup_compared_deltas previous current key
    rw [SortedTable.mem_entries_iff.mp hentry, Option.map_some] at hidentity
    obtain ⟨sample, hlast, hsample⟩ := Option.map_eq_some_iff.mp hidentity.symm
    rw [identity_finish_delta, ← hsample]
    exact (mem_with_key.mp (List.mem_of_getLast? hlast)).2
  refine List.Nodup.of_map canonicalMetricKey ?_
  have hmap : ((compareMetricSnapshots previous current).map MetricDelta.identity).map
      canonicalMetricKey = (comparedDeltas previous current).keys := by
    rw [compareMetricSnapshots, SortedTable.values, SortedTable.keys, List.map_map, List.map_map,
      List.map_map]
    exact List.map_congr_left hkeys
  rw [hmap]
  exact SortedTable.nodup_keys _

end Deltas

/-! ## Where identities are kept apart -/

/-- Two samples are in one series exactly when they have one identity. -/
def SeriesByIdentity (sortSamplesByTime : List MetricSample → List MetricSample)
    (samples : List MetricSample) : Prop :=
  ∀ first ∈ samples, ∀ second ∈ samples,
    (∃ series ∈ groupMetricSeries sortSamplesByTime samples,
      first ∈ series.samples ∧ second ∈ series.samples) ↔
      sameMetricIdentity first.identity second.identity = true

/-- Every identity of the snapshots has one difference, and no other identity has any. -/
structure DeltaPerIdentity (previous current : MetricSnapshot) : Prop where
  nodup : ((compareMetricSnapshots previous current).map MetricDelta.identity).Nodup
  mem_iff : ∀ identity,
    identity ∈ (compareMetricSnapshots previous current).map MetricDelta.identity ↔
      identity ∈ (previous.samples ++ current.samples).map MetricSample.identity

/-- No two identities of the samples are confusable. -/
def KeptApart (samples : List MetricSample) : Prop :=
  ∀ first ∈ samples, ∀ second ∈ samples, ¬Confusable first.identity second.identity

/-- There is a series for each identity exactly when no two are confused. -/
theorem series_by_identity_iff {sortSamplesByTime : List MetricSample → List MetricSample}
    (hsort : Sorts sampleBefore sortSamplesByTime) (samples : List MetricSample) :
    SeriesByIdentity sortSamplesByTime samples ↔ KeptApart samples := by
  refine forall₂_congr fun first hfirst => forall₂_congr fun second hsecond => ?_
  rw [in_one_series_iff hsort, same_metric_identity_iff, and_iff_right hfirst,
    and_iff_right hsecond, eq_or_confusable_iff]
  exact ⟨fun h hconfusable => hconfusable.1 (h.mp (Or.inr hconfusable)),
    fun h => or_iff_left h⟩

/-- There is a delta for each identity exactly when no two are confused. -/
theorem delta_per_identity_iff (previous current : MetricSnapshot) :
    DeltaPerIdentity previous current ↔ KeptApart (previous.samples ++ current.samples) := by
  constructor
  · -- the differences of both identities are the one of their key
    rintro ⟨-, hmem⟩ first hfirst second hsecond hconfusable
    obtain ⟨last, hlast, hidentity⟩ := mem_delta_identities_iff.mp
      ((hmem first.identity).mpr (List.mem_map_of_mem hfirst))
    obtain ⟨last', hlast', hidentity'⟩ := mem_delta_identities_iff.mp
      ((hmem second.identity).mpr (List.mem_map_of_mem hsecond))
    rw [← canonical_metric_key_eq_iff.mpr hconfusable.2, hlast] at hlast'
    obtain rfl := Option.some.inj hlast'
    exact hconfusable.1 (hidentity.symm.trans hidentity')
  · refine fun hapart => ⟨nodup_delta_identities previous current, fun identity => ?_⟩
    rw [mem_delta_identities_iff, List.mem_map]
    constructor
    · rintro ⟨sample, hlast, rfl⟩
      exact ⟨sample, (mem_with_key.mp (List.mem_of_getLast? hlast)).1, rfl⟩
    · rintro ⟨sample, hsample, rfl⟩
      have hmem := mem_with_key.mpr ⟨hsample, rfl⟩
      have hlast := List.getLast?_eq_some_getLast (List.ne_nil_of_mem hmem)
      obtain ⟨hlastMem, hkey⟩ := mem_with_key.mp (List.getLast_mem (List.ne_nil_of_mem hmem))
      exact ⟨_, hlast, (eq_or_confusable_iff.mp hkey).resolve_right
        (hapart _ hlastMem sample hsample)⟩

/-- For every sort of the samples: the series of a list, and the differences of two snapshots, keep
identities apart exactly when no two of their identities differ but have the same pieces. Identities
have one key where they are equal or confusable, and plain ones are never confusable. -/
theorem metric_grouping_iff (sortSamplesByTime : List MetricSample → List MetricSample)
    (hsort : Sorts sampleBefore sortSamplesByTime) :
    (∀ samples, SeriesByIdentity sortSamplesByTime samples ↔ KeptApart samples) ∧
      (∀ previous current, DeltaPerIdentity previous current ↔
        KeptApart (previous.samples ++ current.samples)) ∧
      (∀ left right, (canonicalMetricKey left = canonicalMetricKey right ↔
        sameMetricIdentity left right = true) ↔ ¬Confusable left right) ∧
      ∀ left right, Plain left → Plain right → ¬Confusable left right := by
  refine ⟨series_by_identity_iff hsort, delta_per_identity_iff, fun left right => ?_,
    fun _ _ => Plain.not_confusable⟩
  rw [eq_or_confusable_iff, same_metric_identity_iff]
  exact ⟨fun h hconfusable => hconfusable.1 (h.mp (Or.inr hconfusable)),
    fun h => or_iff_left h⟩

/-! ## An instance -/

/-- Samples are sorted by time and then by key. -/
theorem sample_before_iff (left right : MetricSample) :
    sampleBefore left right = true ↔ Before (fun sample => sample.timeNs.toNat)
      (fun sample => canonicalMetricKey sample.identity) left right := by
  unfold sampleBefore Before
  by_cases h : left.timeNs = right.timeNs
  · rw [if_neg (not_not_intro h), decide_eq_true_iff]
    simp [h]
  · have htimes : left.timeNs.toNat ≠ right.timeNs.toNat := fun heq => h (UInt64.toNat_inj.mp heq)
    rw [if_pos h, decide_eq_true_iff, UInt64.lt_iff_toNat_lt]
    simp [htimes]

theorem stable_sort_sorts_samples : Sorts sampleBefore (stableSort sampleBefore) :=
  (compares_lex sample_before_iff).stable_sort_sorts

/-- A metric with a `|` in its name. -/
def pipedIdentity : MetricIdentity where
  name := ['c', 'p', 'u', '|', 'h', '=', 'a']

/-- A metric with a tag. -/
def taggedIdentity : MetricIdentity where
  name := ['c', 'p', 'u']
  tags := ⟨[(['h'], ['a'])], List.pairwise_singleton _ _⟩

/-- The series of a list with a tagged metric alone. -/
theorem metric_grouping_tagged :
    SeriesByIdentity (stableSort sampleBefore)
      [{ identity := taggedIdentity, timeNs := 1 }, { identity := taggedIdentity, timeNs := 2 }] :=
  ((metric_grouping_iff _ stable_sort_sorts_samples).1 _).mpr (by
    intro first hfirst second hsecond hconfusable
    have hidentity (sample : MetricSample) (h : sample ∈
        [{ identity := taggedIdentity, timeNs := 1 },
          { identity := taggedIdentity, timeNs := 2 }]) :
        sample.identity = taggedIdentity := by
      simp only [List.mem_cons, List.not_mem_nil, or_false] at h
      rcases h with rfl | rfl
      · rfl
      · rfl
    exact hconfusable.1 ((hidentity first hfirst).trans (hidentity second hsecond).symm))

/-- Both have one key: their samples are in one series, and there is one difference for the two. -/
theorem piped_not_kept_apart :
    canonicalMetricKey pipedIdentity = canonicalMetricKey taggedIdentity ∧
      sameMetricIdentity pipedIdentity taggedIdentity = false ∧
      ¬SeriesByIdentity (stableSort sampleBefore)
        [{ identity := pipedIdentity }, { identity := taggedIdentity }] ∧
      ¬DeltaPerIdentity { samples := [{ identity := pipedIdentity }] }
        { samples := [{ identity := taggedIdentity }] } := by
  have hconfusable : Confusable pipedIdentity taggedIdentity :=
    ⟨by decide, canonical_metric_key_eq_iff.mp rfl⟩
  have hmixed : ¬KeptApart [{ identity := pipedIdentity }, { identity := taggedIdentity }] :=
    fun hapart => hapart { identity := pipedIdentity } List.mem_cons_self
      { identity := taggedIdentity } (List.mem_cons_of_mem _ List.mem_cons_self) hconfusable
  exact ⟨rfl, by decide,
    fun h => hmixed ((series_by_identity_iff stable_sort_sorts_samples _).mp h),
    fun h => hmixed ((delta_per_identity_iff _ _).mp h)⟩

end Aethon.Diagnostics
