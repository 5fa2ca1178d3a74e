import Mathlib.Data.List.Destutter
import Mathlib.Data.String.Basic
import Aethon.Foundation.KeyedList
import Aethon.Foundation.StableSort
import Aethon.Rf.Types

/-!
# Calibration profiles

A calibration profile holds corrections at points of its range and is valid for a span of time, and
two profiles are merged to one, after `rf/calibration_store.cpp`. A span that ends at 0 has no end.
`lifetime_merge` says that a merged profile is valid when both are, `find_point_merge` which points
it holds, and `merge_calibration_profiles_valid_and_points` is the whole.
-/

namespace Aethon.Rf

open StableSort Words

/-- Where a calibration comes from. -/
inductive CalibrationSource where
  | factory
  | laboratory
  | field
  | derived
  | imported
  deriving DecidableEq, Repr

/-- The corrections at a frequency. -/
structure FrequencyCalibrationPoint where
  frequencyHz : UInt64 := 0
  gainCorrectionDb : Float := 0
  noiseCorrectionDb : Float := 0
  phaseCorrectionDegrees : Float := 0
  uncertaintyDb : Float := 0

/-- What a calibration was measured in. -/
structure CalibrationEnvironment where
  temperatureC : Float := 25
  humidityPercent : Float := 50
  referenceLevelDbm : Float := -40
  referenceSource : String := ""

/-- The corrections of a receiver, and from when to when they hold. -/
structure RfCalibrationProfile where
  id : String := ""
  receiverId : String := ""
  antennaId : String := ""
  range : FrequencyRange := {}
  source : CalibrationSource := .field
  createdAtNs : UInt64 := 0
  validFromNs : UInt64 := 0
  validUntilNs : UInt64 := 0
  environment : CalibrationEnvironment := {}
  points : List FrequencyCalibrationPoint := []
  tags : List String := []

/-- A profile holds at a time; it has no end where the end is zero. -/
def validAt (profile : RfCalibrationProfile) (timeNs : UInt64) : Bool :=
  if timeNs < profile.validFromNs then false
  else if profile.validUntilNs ≠ 0 ∧ timeNs ≥ profile.validUntilNs then false
  else true

namespace FrequencyCalibrationPoint

/-- The comparison of `sorted_points`. -/
def before (left right : FrequencyCalibrationPoint) : Bool :=
  left.frequencyHz < right.frequencyHz

theorem before_compares : Compares before frequencyHz := by
  intro left right
  exact decide_eq_true_iff

/-- The first point at a frequency. -/
abbrev find : List FrequencyCalibrationPoint → UInt64 → Option FrequencyCalibrationPoint :=
  KeyedList.find frequencyHz

/-- The points rise strictly in frequency. -/
def Increasing (points : List FrequencyCalibrationPoint) : Prop :=
  points.Pairwise fun left right => left.frequencyHz < right.frequencyHz

theorem Increasing.nodup {points : List FrequencyCalibrationPoint} (h : Increasing points) :
    (points.map frequencyHz).Nodup := by
  rw [List.Nodup, List.pairwise_map]
  exact h.imp ne_of_lt

end FrequencyCalibrationPoint

/-- The points of the base with those of the overlay, each in the place of the first at its
frequency. -/
def overlayPoints (base overlay : List FrequencyCalibrationPoint) :
    List FrequencyCalibrationPoint :=
  KeyedList.putAll FrequencyCalibrationPoint.frequencyHz base overlay

/-- `sortedPoints` is the source's function of that name, whose `std::sort` may leave points at one
frequency in any order. -/
def mergeCalibrationProfiles
    (sortedPoints : List FrequencyCalibrationPoint → List FrequencyCalibrationPoint)
    (base overlay : RfCalibrationProfile) (mergedId : String) : RfCalibrationProfile :=
  { base with
    id := mergedId
    range := merge base.range overlay.range
    validFromNs := max base.validFromNs overlay.validFromNs
    validUntilNs :=
      if base.validUntilNs = 0 then overlay.validUntilNs
      else if overlay.validUntilNs = 0 then base.validUntilNs
      else min base.validUntilNs overlay.validUntilNs
    points := sortedPoints (overlayPoints base.points overlay.points)
    tags := (stableSort (fun left right => decide (left < right))
      (base.tags ++ overlay.tags)).destutter (· ≠ ·) }

/-! ## When a profile is valid -/

namespace RfCalibrationProfile

/-- The times at which a profile is valid. -/
def lifetime (profile : RfCalibrationProfile) : Set Nat :=
  {time | profile.validFromNs.toNat ≤ time ∧
    (profile.validUntilNs.toNat ≠ 0 → time < profile.validUntilNs.toNat)}

end RfCalibrationProfile

/-- A profile is valid in its lifetime. -/
theorem valid_at_iff (profile : RfCalibrationProfile) (timeNs : UInt64) :
    validAt profile timeNs = true ↔ timeNs.toNat ∈ profile.lifetime := by
  have hzero : profile.validUntilNs = 0 ↔ profile.validUntilNs.toNat = 0 := UInt64.toNat_inj.symm
  show _ ↔ _ ∧ _
  unfold validAt
  split
  · next hfrom =>
    rw [UInt64.lt_iff_toNat_lt] at hfrom
    exact iff_of_false Bool.false_ne_true fun h => Nat.not_le_of_lt hfrom h.1
  · next hfrom =>
    rw [UInt64.lt_iff_toNat_lt, Nat.not_lt] at hfrom
    split
    · next huntil =>
      obtain ⟨hne, hend⟩ := huntil
      rw [ge_iff_le, UInt64.le_iff_toNat_le] at hend
      exact iff_of_false Bool.false_ne_true fun h =>
        Nat.not_lt_of_le hend (h.2 fun heq => hne (hzero.mpr heq))
    · next huntil =>
      refine iff_of_true rfl ⟨hfrom, fun hne => ?_⟩
      rw [← UInt64.lt_iff_toNat_lt, ← UInt64.not_le]
      exact fun hend => huntil ⟨fun heq => hne (hzero.mp heq), hend⟩

open FrequencyCalibrationPoint

section Merge

variable (sortedPoints : List FrequencyCalibrationPoint → List FrequencyCalibrationPoint)
  (base overlay : RfCalibrationProfile) (mergedId : String)

/-- A merged profile is valid when both are. -/
theorem lifetime_merge :
    (mergeCalibrationProfiles sortedPoints base overlay mergedId).lifetime =
      base.lifetime ∩ overlay.lifetime := by
  have hzero (time : UInt64) : time = 0 ↔ time.toNat = 0 := UInt64.toNat_inj.symm
  ext time
  rw [Set.mem_inter_iff]
  show _ ∧ _ ↔ (_ ∧ _) ∧ (_ ∧ _)
  simp only [mergeCalibrationProfiles, toNat_max, Nat.max_le]
  -- the end of the merged span, where the base, the overlay or neither is open
  split
  · next hbase =>
    rw [hzero] at hbase
    grind
  · next hbase =>
    rw [hzero] at hbase
    split
    · next hoverlay =>
      rw [hzero] at hoverlay
      grind
    · next hoverlay =>
      rw [hzero] at hoverlay
      rw [toNat_min]
      grind

theorem valid_at_merge (timeNs : UInt64) :
    validAt (mergeCalibrationProfiles sortedPoints base overlay mergedId) timeNs =
      (validAt base timeNs && validAt overlay timeNs) := by
  rw [Bool.eq_iff_iff, Bool.and_eq_true, valid_at_iff, valid_at_iff, valid_at_iff, lifetime_merge,
    Set.mem_inter_iff]

/-! ## The points of a merged profile -/

variable {sortedPoints base overlay}

theorem nodup_overlay_points {points : List FrequencyCalibrationPoint} (hbase : Increasing points)
    (overlay : List FrequencyCalibrationPoint) :
    ((overlayPoints points overlay).map frequencyHz).Nodup :=
  KeyedList.nodup_put_all frequencyHz hbase.nodup overlay

/-- Sorting points of which no two are at one frequency makes their frequencies increase. -/
theorem increasing_sorted_points (hsort : Sorts before sortedPoints)
    {points : List FrequencyCalibrationPoint} (hnodup : (points.map frequencyHz).Nodup) :
    Increasing (sortedPoints points) := by
  have hdistinct : (sortedPoints points).Pairwise fun left right =>
      left.frequencyHz ≠ right.frequencyHz := by
    rw [← List.pairwise_map]
    exact ((hsort.perm points).map frequencyHz).nodup_iff.mpr hnodup
  refine ((hsort.pairwise points).and hdistinct).imp ?_
  rintro left right ⟨hle, hne⟩
  exact lt_of_le_of_ne (before_compares.not_less_iff.mp hle) hne

/-- The points of the overlay take the place of those of the base. -/
theorem find_point_merge (hsort : Sorts before sortedPoints) (hbase : Increasing base.points)
    (hoverlay : Increasing overlay.points) (frequencyHz : UInt64) :
    find (mergeCalibrationProfiles sortedPoints base overlay mergedId).points frequencyHz =
      (find overlay.points frequencyHz).or (find base.points frequencyHz) := by
  have hsorted := KeyedList.find_perm _ (nodup_overlay_points hbase overlay.points)
    (hsort.perm (overlayPoints base.points overlay.points)) frequencyHz
  exact hsorted.trans (KeyedList.find_put_all_of_nodup _ base.points hoverlay.nodup frequencyHz)

variable (base overlay)

/-- A merged profile is valid when both are, and holds at each frequency the point of the overlay,
or else that of the base. -/
theorem merge_calibration_profiles_valid_and_points (hsort : Sorts before sortedPoints) :
    let merged := mergeCalibrationProfiles sortedPoints base overlay mergedId
    (∀ timeNs, validAt merged timeNs = (validAt base timeNs && validAt overlay timeNs)) ∧
      (Increasing base.points → Increasing overlay.points →
        Increasing merged.points ∧
          ∀ frequencyHz, find merged.points frequencyHz =
            (find overlay.points frequencyHz).or (find base.points frequencyHz)) := by
  intro merged
  refine ⟨valid_at_merge sortedPoints base overlay mergedId, fun hbase hoverlay => ⟨?_, ?_⟩⟩
  · exact increasing_sorted_points hsort (nodup_overlay_points hbase _)
  · exact find_point_merge mergedId hsort hbase hoverlay

end Merge

/-- A profile open at its end, merged with one that is closed. -/
theorem merge_open_profile_with_closed :
    let base : RfCalibrationProfile :=
      { validFromNs := 10, points := [{ frequencyHz := 100 }, { frequencyHz := 300 }] }
    let overlay : RfCalibrationProfile :=
      { validUntilNs := 50
        points := [{ frequencyHz := 200 }, { frequencyHz := 300, gainCorrectionDb := 1 }] }
    let merged := mergeCalibrationProfiles (stableSort before) base overlay "merged"
    validAt merged 49 = true ∧ validAt merged 50 = false ∧ Increasing merged.points ∧
      find merged.points 300 = some { frequencyHz := 300, gainCorrectionDb := 1 } := by
  intro base overlay merged
  have hmerged := merge_calibration_profiles_valid_and_points base overlay "merged"
    before_compares.stable_sort_sorts
  have hbase : Increasing base.points := by unfold Increasing; decide
  have hoverlay : Increasing overlay.points := by unfold Increasing; decide
  refine ⟨(hmerged.1 49).trans (by decide), (hmerged.1 50).trans (by decide), ?_, ?_⟩
  · exact (hmerged.2 hbase hoverlay).1
  · exact ((hmerged.2 hbase hoverlay).2 300).trans rfl

end Aethon.Rf
