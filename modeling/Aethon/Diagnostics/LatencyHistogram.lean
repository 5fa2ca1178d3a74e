import Aethon.Diagnostics.Metrics
import Aethon.Foundation.BinarySearch
import Aethon.Foundation.Runs
import Aethon.Foundation.StableSort
import Aethon.Foundation.Words
import Mathlib.Data.List.Destutter

/-!
# Latency histograms

The histogram of `diagnostics/metrics.cpp`. Its bounds are sorted and made distinct once, and every
observation is kept and counted in the bucket that a binary search finds. `histogram_spec` says what
the buckets count after any run of observations, merges and clearings.
-/

namespace Aethon.Diagnostics

open BinarySearch StableSort Words

/-- A bucket counts the values up to its bound. -/
structure LatencyBucket where
  upperBoundNs : UInt64 := 0
  count : UInt64 := 0
  deriving DecidableEq, Repr

/-- Count one more value. -/
def LatencyBucket.countUp (bucket : LatencyBucket) : LatencyBucket :=
  { bucket with count := bucket.count + 1 }

/-- A value that was observed. -/
structure LatencyObservation where
  valueNs : UInt64 := 0
  timeNs : UInt64 := 0
  tags : MetricTags := ∅
  deriving DecidableEq

/-- The buckets by rising bounds, and every value that was observed. -/
structure LatencyHistogram where
  buckets : List LatencyBucket := []
  observations : List LatencyObservation := []
  overflowCount : UInt64 := 0

namespace LatencyHistogram

/-- `std::sort` and `std::unique`. Equal numbers are the same, so a sort of them has no choice. -/
def sortedBounds (bounds : List UInt64) : List UInt64 :=
  (stableSort (fun left right => left < right) bounds).destutter (· ≠ ·)

/-- The constructor from bounds. -/
def ofBounds (bucketBoundsNs : List UInt64) : LatencyHistogram where
  buckets := (sortedBounds bucketBoundsNs).map fun bound => { upperBoundNs := bound, count := 0 }

/-- Count a value in the first bucket that holds it, or as an overflow. -/
def observe (histogram : LatencyHistogram) (valueNs timeNs : UInt64) (tags : MetricTags) :
    LatencyHistogram :=
  let observations := histogram.observations ++ [⟨valueNs, timeNs, tags⟩]
  let place := lowerBound (fun bucket => bucket.upperBoundNs < valueNs) histogram.buckets
  if place = histogram.buckets.length then
    { histogram with observations, overflowCount := histogram.overflowCount + 1 }
  else
    { histogram with
      observations
      buckets := histogram.buckets.modify place LatencyBucket.countUp }

/-- Observe all values of another histogram. -/
def merge (histogram other : LatencyHistogram) : LatencyHistogram :=
  other.observations.foldl (fun histogram observation =>
    histogram.observe observation.valueNs observation.timeNs observation.tags) histogram

/-- Forget all values and keep the bounds. -/
def clear (histogram : LatencyHistogram) : LatencyHistogram where
  buckets := histogram.buckets.map fun bucket => { bucket with count := 0 }

/-- The number of values. -/
def count (histogram : LatencyHistogram) : UInt64 :=
  UInt64.ofNat histogram.observations.length

end LatencyHistogram

/-- A call on a histogram. -/
inductive HistogramCall where
  | observe (valueNs timeNs : UInt64) (tags : MetricTags)
  | merge (other : LatencyHistogram)
  | clear

/-- What a call leaves. -/
def HistogramCall.step (histogram : LatencyHistogram) : HistogramCall → LatencyHistogram
  | .observe valueNs timeNs tags => histogram.observe valueNs timeNs tags
  | .merge other => histogram.merge other
  | .clear => histogram.clear

/-! ## Bounds -/

section Bounds

variable (bounds : List UInt64)

theorem sorted_pairwise_le :
    (stableSort (fun left right : UInt64 => left < right) bounds).Pairwise (· ≤ ·) := by
  have hcompares : Compares (fun left right : UInt64 => decide (left < right)) id :=
    fun _ _ => decide_eq_true_iff
  exact pairwise_key hcompares bounds

theorem sorted_bounds_eq_dedup :
    LatencyHistogram.sortedBounds bounds =
      (stableSort (fun left right => left < right) bounds).dedup :=
  (sorted_pairwise_le bounds).destutter_eq_dedup

/-- The bounds increase strictly. -/
theorem sorted_bounds_increasing :
    (LatencyHistogram.sortedBounds bounds).Pairwise (· < ·) := by
  have hle := (sorted_pairwise_le bounds).sublist (List.destutter_sublist (· ≠ ·) _)
  have hne : (LatencyHistogram.sortedBounds bounds).Nodup := by
    rw [sorted_bounds_eq_dedup]
    exact List.nodup_dedup _
  exact (hle.and hne).imp fun h => lt_of_le_of_ne h.1 h.2

theorem mem_sorted_bounds {bound : UInt64} :
    bound ∈ LatencyHistogram.sortedBounds bounds ↔ bound ∈ bounds := by
  rw [sorted_bounds_eq_dedup, List.mem_dedup]
  exact (stable_sort_perm _ bounds).mem_iff

end Bounds

/-- The place of the bucket for a value, or that behind all buckets. -/
def bucketPlace (bounds : List UInt64) (valueNs : UInt64) : ℕ :=
  lowerBound (fun bound => bound < valueNs) bounds

section Place

variable {bounds front behind : List UInt64} {bound valueNs : UInt64}

theorem partitioned_of_increasing (h : bounds.Pairwise (· < ·)) (valueNs : UInt64) :
    Partitioned (fun bound => decide (bound < valueNs)) bounds :=
  h.imp fun hlt hbefore =>
    decide_eq_true (UInt64.lt_trans hlt (of_decide_eq_true hbefore))

/-- A value is not in front of a place where it is above the bound in front of it. -/
theorem le_bucket_place_iff (h : (front ++ behind).Pairwise (· < ·)) :
    front.length ≤ bucketPlace (front ++ behind) valueNs ↔
      ∀ lower ∈ front.getLast?, lower < valueNs := by
  rw [bucketPlace, le_lower_bound_iff (partitioned_of_increasing h valueNs)]
  simp only [decide_eq_true_eq]

/-- The bucket of a value is the one between whose bounds it is. -/
theorem bucket_place_eq_iff (h : (front ++ bound :: behind).Pairwise (· < ·)) :
    bucketPlace (front ++ bound :: behind) valueNs = front.length ↔
      (∀ lower ∈ front.getLast?, lower < valueNs) ∧ valueNs ≤ bound := by
  have hnext : (front ++ [bound]).length ≤ bucketPlace (front ++ bound :: behind) valueNs ↔
      bound < valueNs := by
    have hsplit : front ++ bound :: behind = front ++ [bound] ++ behind := List.append_cons ..
    rw [hsplit] at h ⊢
    rw [le_bucket_place_iff h, List.getLast?_concat]
    exact ⟨fun hall => hall bound rfl, fun hlt lower hlower => Option.some.inj hlower ▸ hlt⟩
  rw [List.length_append, List.length_singleton] at hnext
  rw [← le_bucket_place_iff h, ← UInt64.not_lt, ← hnext]
  omega

/-- A value above the last bound is in no bucket. -/
theorem bucket_place_overflow_iff (h : bounds.Pairwise (· < ·)) :
    bucketPlace bounds valueNs = bounds.length ↔ ∀ lower ∈ bounds.getLast?, lower < valueNs := by
  have hbound : bucketPlace bounds valueNs ≤ bounds.length := lower_bound_le_length _ _
  have hlast : bounds.length ≤ bucketPlace (bounds ++ []) valueNs ↔
      ∀ lower ∈ bounds.getLast?, lower < valueNs :=
    le_bucket_place_iff ((List.append_nil bounds).symm ▸ h)
  rw [List.append_nil] at hlast
  rw [← hlast]
  omega

end Place

/-! ## Tallies -/

/-- How many of the observations have the place. -/
def countAt (bounds : List UInt64) (observations : List LatencyObservation) (place : ℕ) : ℕ :=
  observations.countP fun observation => bucketPlace bounds observation.valueNs = place

theorem count_at_concat (bounds : List UInt64) (observations : List LatencyObservation)
    (observation : LatencyObservation) (place : ℕ) :
    countAt bounds (observations ++ [observation]) place = countAt bounds observations place +
      if bucketPlace bounds observation.valueNs = place then 1 else 0 := by
  rw [countAt, List.countP_append, List.countP_singleton]
  simp only [decide_eq_true_eq]
  rfl

/-- The buckets count the observations at their places. -/
structure Tallied (bounds : List UInt64) (histogram : LatencyHistogram) : Prop where
  uppers : histogram.buckets.map LatencyBucket.upperBoundNs = bounds
  counts : ∀ i bucket, histogram.buckets[i]? = some bucket →
    bucket.count = UInt64.ofNat (countAt bounds histogram.observations i)
  overflow : histogram.overflowCount =
    UInt64.ofNat (countAt bounds histogram.observations bounds.length)
  sum : (histogram.buckets.map LatencyBucket.count).sum + histogram.overflowCount = histogram.count

section Tallied

variable {bounds : List UInt64} {histogram : LatencyHistogram}

/-- Buckets that have counted nothing. -/
theorem tallied_of_empty {buckets : List LatencyBucket}
    (huppers : buckets.map LatencyBucket.upperBoundNs = bounds)
    (hcounts : ∀ bucket ∈ buckets, bucket.count = 0) : Tallied bounds { buckets } where
  uppers := huppers
  counts i bucket hbucket := hcounts bucket (List.mem_of_getElem? hbucket)
  overflow := rfl
  sum := by
    show (buckets.map LatencyBucket.count).sum + 0 = 0
    induction buckets generalizing bounds with
    | nil => rfl
    | cons bucket buckets ih =>
        obtain ⟨hbucket, hbuckets⟩ := List.forall_mem_cons.mp hcounts
        rw [List.map_cons, List.sum_cons, hbucket, UInt64.zero_add]
        exact ih rfl hbuckets

theorem tallied_of_bounds (bounds : List UInt64) :
    Tallied (LatencyHistogram.sortedBounds bounds) (LatencyHistogram.ofBounds bounds) := by
  refine tallied_of_empty ?_ (List.forall_mem_map.mpr fun _ _ => rfl)
  rw [List.map_map]
  exact List.map_id _

theorem Tallied.clear (h : Tallied bounds histogram) : Tallied bounds histogram.clear := by
  refine tallied_of_empty ?_ (List.forall_mem_map.mpr fun _ _ => rfl)
  rw [List.map_map]
  exact h.uppers

theorem Tallied.length (h : Tallied bounds histogram) :
    histogram.buckets.length = bounds.length := by
  rw [← h.uppers, List.length_map]

theorem Tallied.place (h : Tallied bounds histogram) (valueNs : UInt64) :
    lowerBound (fun bucket => decide (bucket.upperBoundNs < valueNs)) histogram.buckets =
      bucketPlace bounds valueNs := by
  rw [bucketPlace, ← h.uppers]
  exact lower_bound_map (fun bound => decide (bound < valueNs)) _ _

/-- One more observation makes up for one more that is counted. -/
theorem Tallied.sum_concat (h : Tallied bounds histogram) (observation : LatencyObservation) :
    (histogram.buckets.map LatencyBucket.count).sum + (histogram.overflowCount + 1) =
      UInt64.ofNat (histogram.observations ++ [observation]).length := by
  rw [← UInt64.add_assoc, h.sum, List.length_append, List.length_singleton, UInt64.ofNat_add]
  rfl

/-- To count in a bucket leaves the bounds as they are. -/
theorem upper_bounds_modify (buckets : List LatencyBucket) (place : ℕ) :
    (buckets.modify place LatencyBucket.countUp).map LatencyBucket.upperBoundNs =
      buckets.map LatencyBucket.upperBoundNs := by
  refine List.ext_getElem? fun i => ?_
  rw [List.getElem?_map, List.getElem?_map, List.getElem?_modify, Option.map_eq_map,
    Option.map_map]
  refine congrFun (congrArg Option.map ?_) _
  funext bucket
  rw [Function.comp_apply]
  split <;> rfl

/-- A value above the last bound is counted behind the buckets. -/
theorem Tallied.count_behind (h : Tallied bounds histogram) (observation : LatencyObservation)
    (hplace : bucketPlace bounds observation.valueNs = bounds.length) :
    Tallied bounds { histogram with
      observations := histogram.observations ++ [observation]
      overflowCount := histogram.overflowCount + 1 } where
  uppers := h.uppers
  counts i bucket hbucket := by
    have hi : i < bounds.length := h.length ▸ (List.getElem?_eq_some_iff.mp hbucket).1
    rw [count_at_concat, if_neg (by omega)]
    exact h.counts i bucket hbucket
  overflow := by
    rw [count_at_concat, if_pos hplace, UInt64.ofNat_add, ← h.overflow]
    rfl
  sum := h.sum_concat observation

/-- Any other value is counted in the bucket at its place. -/
theorem Tallied.count_in (h : Tallied bounds histogram) (observation : LatencyObservation)
    (hplace : bucketPlace bounds observation.valueNs ≠ bounds.length) :
    Tallied bounds { histogram with
      observations := histogram.observations ++ [observation]
      buckets := histogram.buckets.modify (bucketPlace bounds observation.valueNs)
        LatencyBucket.countUp } where
  uppers := (upper_bounds_modify _ _).trans h.uppers
  counts i bucket hbucket := by
    rw [List.getElem?_modify] at hbucket
    obtain ⟨old, hold, rfl⟩ := Option.map_eq_some_iff.mp hbucket
    rw [count_at_concat, UInt64.ofNat_add, ← h.counts i old hold]
    by_cases hi : bucketPlace bounds observation.valueNs = i
    · rw [if_pos hi, if_pos hi]
      rfl
    · rw [if_neg hi, if_neg hi]
      exact (UInt64.add_zero _).symm
  overflow := by
    rw [count_at_concat, if_neg hplace]
    exact h.overflow
  sum := by
    have hbound : bucketPlace bounds observation.valueNs ≤ bounds.length :=
      lower_bound_le_length _ _
    have hfits : bucketPlace bounds observation.valueNs < histogram.buckets.length := by
      rw [h.length]
      omega
    have hup (bucket : LatencyBucket) : bucket.countUp.count = bucket.count + 1 := rfl
    have hcounted := sum_modify hup hfits
    show (List.map LatencyBucket.count _).sum + histogram.overflowCount = _
    rw [hcounted, UInt64.add_assoc, UInt64.add_comm 1]
    exact h.sum_concat observation

/-- An observation keeps the histogram tallied. -/
theorem Tallied.observe (h : Tallied bounds histogram) (valueNs timeNs : UInt64)
    (tags : MetricTags) : Tallied bounds (histogram.observe valueNs timeNs tags) := by
  unfold LatencyHistogram.observe
  dsimp only
  rw [h.place, h.length]
  by_cases hend : bucketPlace bounds valueNs = bounds.length
  · rw [if_pos hend]
    exact h.count_behind ⟨valueNs, timeNs, tags⟩ hend
  · rw [if_neg hend]
    exact h.count_in ⟨valueNs, timeNs, tags⟩ hend

/-- A merge keeps the histogram tallied. -/
theorem Tallied.merge (h : Tallied bounds histogram) (other : LatencyHistogram) :
    Tallied bounds (histogram.merge other) := by
  unfold LatencyHistogram.merge
  induction other.observations generalizing histogram with
  | nil => exact h
  | cons observation observations ih =>
      exact ih (h.observe observation.valueNs observation.timeNs observation.tags)

/-- A call keeps the histogram tallied. -/
theorem Tallied.step (histogram : LatencyHistogram) (call : HistogramCall)
    (h : Tallied bounds histogram) : Tallied bounds (call.step histogram) := by
  cases call with
  | observe valueNs timeNs tags => exact h.observe valueNs timeNs tags
  | merge other => exact h.merge other
  | clear => exact h.clear

/-- A bucket counts the observations between its bounds. -/
theorem Tallied.count_bucket (h : Tallied bounds histogram) (hbounds : bounds.Pairwise (· < ·))
    {front behind : List LatencyBucket} {bucket : LatencyBucket}
    (hsplit : histogram.buckets = front ++ bucket :: behind) :
    bucket.count = UInt64.ofNat (histogram.observations.countP fun observation =>
      (∀ lower ∈ front.getLast?, lower.upperBoundNs < observation.valueNs) ∧
        observation.valueNs ≤ bucket.upperBoundNs) := by
  have huppers := h.uppers
  rw [hsplit, List.map_append, List.map_cons] at huppers
  rw [← huppers] at hbounds
  rw [h.counts front.length bucket (by rw [hsplit]; simp), countAt, ← huppers]
  refine congrArg UInt64.ofNat (List.countP_congr fun observation _ => ?_)
  have hplace := @bucket_place_eq_iff _ _ _ observation.valueNs hbounds
  rw [List.length_map, List.getLast?_map, Option.forall_mem_map] at hplace
  rw [decide_eq_true_iff, decide_eq_true_iff, hplace]

/-- The overflow counts what lies beyond the last bound. -/
theorem Tallied.count_overflow (h : Tallied bounds histogram) (hbounds : bounds.Pairwise (· < ·)) :
    histogram.overflowCount = UInt64.ofNat (histogram.observations.countP fun observation =>
      ∀ last ∈ histogram.buckets.getLast?, last.upperBoundNs < observation.valueNs) := by
  rw [h.overflow, countAt]
  refine congrArg UInt64.ofNat (List.countP_congr fun observation _ => ?_)
  rw [decide_eq_true_iff, decide_eq_true_iff, bucket_place_overflow_iff hbounds, ← h.uppers,
    List.getLast?_map, Option.forall_mem_map]

end Tallied

/-! ## Runs -/

/-- The observations behind a call, those of merged histograms among them. -/
def HistogramCall.record (held : List LatencyObservation) :
    HistogramCall → List LatencyObservation
  | .observe valueNs timeNs tags => held ++ [⟨valueNs, timeNs, tags⟩]
  | .merge other => held ++ other.observations
  | .clear => []

section Runs

open Runs

variable (histogram : LatencyHistogram)

/-- An observation is recorded. -/
theorem observations_observe (valueNs timeNs : UInt64) (tags : MetricTags) :
    (histogram.observe valueNs timeNs tags).observations =
      histogram.observations ++ [⟨valueNs, timeNs, tags⟩] := by
  unfold LatencyHistogram.observe
  dsimp only
  split <;> rfl

/-- A call records its observations. -/
theorem observations_step (call : HistogramCall) :
    (call.step histogram).observations = call.record histogram.observations := by
  cases call with
  | observe valueNs timeNs tags => exact observations_observe histogram valueNs timeNs tags
  | clear => rfl
  | merge other =>
      show (histogram.merge other).observations = histogram.observations ++ other.observations
      unfold LatencyHistogram.merge
      induction other.observations generalizing histogram with
      | nil => exact (List.append_nil _).symm
      | cons observation observations ih =>
          rw [List.foldl_cons, ih, observations_observe, List.append_assoc, List.singleton_append]

/-- Merging is a run of observations. -/
theorem merge_eq_run (other : LatencyHistogram) :
    histogram.merge other = run HistogramCall.step histogram
      (other.observations.map fun observation =>
        .observe observation.valueNs observation.timeNs observation.tags) := by
  rw [LatencyHistogram.merge, run, List.foldl_map]
  rfl

/-- After any calls all observations are recorded. -/
theorem observations_run (calls : List HistogramCall) :
    (run HistogramCall.step histogram calls).observations =
      calls.foldl HistogramCall.record histogram.observations := by
  induction calls generalizing histogram with
  | nil => rfl
  | cons call calls ih => rw [run_cons, ih, observations_step, List.foldl_cons]

end Runs

/-- For every list of bounds and every run of calls: the bounds of the buckets increase and are
those of the list, each bucket counts the observations between its bounds and the overflow those
above the last bound, together they count all observations, and these are the ones of the calls
since the last clearing. To merge another histogram is to observe what it has observed, whatever its
bounds. -/
theorem histogram_spec (bounds : List UInt64) (calls : List HistogramCall) :
    let histogram := Runs.run HistogramCall.step (.ofBounds bounds) calls
    (histogram.buckets.map LatencyBucket.upperBoundNs).Pairwise (· < ·) ∧
    (∀ bound, bound ∈ histogram.buckets.map LatencyBucket.upperBoundNs ↔ bound ∈ bounds) ∧
    histogram.observations = calls.foldl HistogramCall.record [] ∧
    (∀ front bucket behind, histogram.buckets = front ++ bucket :: behind →
      bucket.count = UInt64.ofNat (histogram.observations.countP fun observation =>
        (∀ lower ∈ front.getLast?, lower.upperBoundNs < observation.valueNs) ∧
          observation.valueNs ≤ bucket.upperBoundNs)) ∧
    histogram.overflowCount = UInt64.ofNat (histogram.observations.countP fun observation =>
      ∀ last ∈ histogram.buckets.getLast?, last.upperBoundNs < observation.valueNs) ∧
    (histogram.buckets.map LatencyBucket.count).sum + histogram.overflowCount = histogram.count ∧
    ∀ other, histogram.merge other = Runs.run HistogramCall.step histogram
      (other.observations.map fun observation =>
        .observe observation.valueNs observation.timeNs observation.tags) := by
  intro histogram
  have htallied : Tallied (LatencyHistogram.sortedBounds bounds) histogram :=
    Runs.run_invariant Tallied.step (tallied_of_bounds bounds) calls
  have hincreasing := sorted_bounds_increasing bounds
  refine ⟨?_, fun bound => ?_, ?_, fun front bucket behind hsplit =>
    htallied.count_bucket hincreasing hsplit, htallied.count_overflow hincreasing, htallied.sum,
    merge_eq_run histogram⟩
  · rw [htallied.uppers]
    exact hincreasing
  · rw [htallied.uppers]
    exact mem_sorted_bounds bounds
  · exact observations_run _ calls

end Aethon.Diagnostics
