import Mathlib.Data.Rat.Cast.Order
import Aethon.Foundation.Grouping
import Aethon.Foundation.Runs
import Aethon.Rf.SpectrumHistory

/-!
# Where the peaks go

Each peak of a series of observations is placed in one track, and `build_peak_tracks` takes a track
for a carrier that an observation sees at most once: its persistence is the share of the
observations that its points make up. But a peak is placed without regard to the observation it
comes from. `tracked_iff_along` says for which observations no track takes two peaks of one of them.
-/

namespace Aethon.Rf

open Extremum Grouping Runs StableSort Words

/-- A peak of an observation, by the number of the observation. -/
structure Sighting where
  observation : Nat
  timeNs : UInt64
  peak : SpectralPeak

/-- The point that a sighting becomes. -/
def Sighting.point (sighting : Sighting) : PeakTrackPoint :=
  sighting.peak.trackPoint sighting.timeNs

/-- The peaks of the observations, numbered from `first`. -/
def sightings (observations : List SpectrumObservation) (first : Nat) : List Sighting :=
  (observations.zipIdx first).flatMap fun (observation, index) =>
    observation.analysis.peaks.map fun peak => ⟨index, observation.timeNs, peak⟩

/-- A point of an observation at its place among the tracks. -/
structure Placement where
  observation : Nat
  track : Nat
  point : PeakTrackPoint

/-- The tracks with all that was placed in them. -/
structure PeakLog where
  tracks : List PeakTrack := []
  placements : List Placement := []

/-- The track that a peak goes to, or the number of the next one. -/
def chosenTrack (toleranceHz : UInt64) (tracks : List PeakTrack) (peak : SpectralPeak) : Nat :=
  (bestTrackForPeak tracks peak toleranceHz).getD tracks.length

/-- Place a sighting and log where it went. -/
def PeakLog.place (toleranceHz : UInt64) (log : PeakLog) (sighting : Sighting) : PeakLog where
  tracks := placePeak toleranceHz sighting.timeNs log.tracks sighting.peak
  placements := log.placements ++
    [⟨sighting.observation, chosenTrack toleranceHz log.tracks sighting.peak, sighting.point⟩]

/-- The log of all sightings of some observations. -/
def peakLog (toleranceHz : UInt64) (observations : List SpectrumObservation) : PeakLog :=
  run (PeakLog.place toleranceHz) {} (sightings observations 0)

/-- The points placed in a track, in their order. -/
def PeakLog.pointsAt (log : PeakLog) (track : Nat) : List PeakTrackPoint :=
  itemsAt Placement.track Placement.point log.placements track

/-- The tracks that took a peak of an observation, for every peak. -/
def PeakLog.taken (log : PeakLog) : List (Nat × Nat) :=
  log.placements.map fun placement => (placement.observation, placement.track)

/-- The persistence of a track before it is rounded. -/
def exactPersistence (track : PeakTrack) (observations : Nat) : ℚ :=
  track.points.length / observations

/-- What should hold of the tracks that are built. -/
structure Tracked (sortPoints : List PeakTrackPoint → List PeakTrackPoint)
    (sortTracks : List PeakTrack → List PeakTrack) (observations : List SpectrumObservation)
    (toleranceHz : UInt64) : Prop where
  /-- Every peak is placed, once. -/
  placed : (peakLog toleranceHz observations).placements.map (fun placement =>
      (placement.observation, placement.point)) =
    (sightings observations 0).map fun sighting => (sighting.observation, sighting.point)
  /-- Every place is that of one track, which has the points placed there. -/
  filed : ∃ places : List Nat, places.Nodup ∧
    (∀ placement ∈ (peakLog toleranceHz observations).placements, placement.track ∈ places) ∧
    List.Forall₂ (fun track place =>
        track.points.Perm ((peakLog toleranceHz observations).pointsAt place))
      (buildPeakTracks sortPoints sortTracks observations toleranceHz) places
  /-- No two peaks of one observation are placed in one track. -/
  apart : (peakLog toleranceHz observations).taken.Nodup
  few : ∀ track ∈ buildPeakTracks sortPoints sortTracks observations toleranceHz,
    track.points.length ≤ observations.length ∧ exactPersistence track observations.length ≤ 1

/-- A track has taken a peak of an observation. -/
def PeakLog.Took (log : PeakLog) (observation track : Nat) : Prop :=
  (observation, track) ∈ log.taken

instance decidableTook (log : PeakLog) (observation track : Nat) :
    Decidable (log.Took observation track) :=
  inferInstanceAs (Decidable (_ ∈ _))

/-- Of the tracks that have taken a peak of the observation, each one is farther from the next peak
than the tolerance or than a track that has not. Of two at one distance, the later one counts as
farther. -/
def PeakLog.Clear (toleranceHz : UInt64) (log : PeakLog) (sighting : Sighting) : Prop :=
  ∀ entry ∈ log.tracks.zipIdx, log.Took sighting.observation entry.2 →
    toleranceHz < sighting.peak.delta entry.1 ∨
      ∃ other ∈ log.tracks.zipIdx, ¬log.Took sighting.observation other.2 ∧
        Nearer sighting.peak.delta other entry

instance decidableClear (toleranceHz : UInt64) (log : PeakLog) (sighting : Sighting) :
    Decidable (log.Clear toleranceHz sighting) :=
  inferInstanceAs (Decidable (∀ entry ∈ _, _))

/-! ## One peak -/

section Steps

variable {toleranceHz : UInt64}

theorem lt_tolerance_add_one (h : toleranceHz.toNat < 2 ^ 64 - 1) :
    toleranceHz < toleranceHz + 1 := by
  rw [UInt64.lt_iff_toNat_lt, UInt64.toNat_add, UInt64.toNat_one, Nat.mod_eq_of_lt (by omega)]
  exact Nat.lt_succ_self _

/-- A peak goes to a track that exists, or behind the last. -/
theorem chosen_track_le (htolerance : toleranceHz < toleranceHz + 1) (tracks : List PeakTrack)
    (peak : SpectralPeak) : chosenTrack toleranceHz tracks peak ≤ tracks.length := by
  unfold chosenTrack
  cases hbest : bestTrackForPeak tracks peak toleranceHz with
  | none => exact Nat.le_refl _
  | some index => exact Nat.le_of_lt (nearest_lt_length htolerance hbest)

/-- A peak is put behind the points of the chosen track. -/
theorem points_place_peak (htolerance : toleranceHz < toleranceHz + 1) (timeNs : UInt64)
    (tracks : List PeakTrack) (peak : SpectralPeak) :
    (placePeak toleranceHz timeNs tracks peak).map PeakTrack.points =
      putAt (tracks.map PeakTrack.points) (chosenTrack toleranceHz tracks peak)
        (peak.trackPoint timeNs) := by
  unfold placePeak chosenTrack putAt
  cases hbest : bestTrackForPeak tracks peak toleranceHz with
  | none =>
    rw [Option.getD_none, List.length_map, if_neg (Nat.lt_irrefl _), List.map_append]
    rfl
  | some index =>
    have hlt : index < tracks.length := nearest_lt_length htolerance hbest
    rw [Option.getD_some, List.length_map, if_pos hlt]
    refine List.ext_getElem? fun position => ?_
    rw [List.getElem?_map, List.getElem?_modify, List.getElem?_modify, List.getElem?_map]
    cases tracks[position]? with
    | none => rfl
    | some track =>
      by_cases hposition : index = position
      · simp [hposition]
      · simp [hposition]

/-- The tracks have the points that were placed in them. -/
def PeakLog.Filed (log : PeakLog) : Prop :=
  Placed Placement.track Placement.point log.placements (log.tracks.map PeakTrack.points)

theorem filed_empty : PeakLog.Filed {} :=
  Placed.nil _ _

/-- Placing a peak keeps the log filed. -/
theorem filed_place (htolerance : toleranceHz < toleranceHz + 1) (log : PeakLog)
    (sighting : Sighting) (h : log.Filed) : (log.place toleranceHz sighting).Filed := by
  have hchosen := chosen_track_le htolerance log.tracks sighting.peak
  rw [← List.length_map PeakTrack.points] at hchosen
  unfold PeakLog.Filed
  rw [PeakLog.place, points_place_peak htolerance]
  exact Placed.concat h ⟨sighting.observation, _, sighting.point⟩ hchosen

/-- The chosen track has not taken a peak of the observation exactly when the log is clear. -/
theorem not_took_chosen_iff (htolerance : toleranceHz < toleranceHz + 1) {log : PeakLog}
    (h : log.Filed) (sighting : Sighting) :
    ¬log.Took sighting.observation (chosenTrack toleranceHz log.tracks sighting.peak) ↔
      log.Clear toleranceHz sighting := by
  rw [PeakLog.Clear, ← nearest_avoids_iff htolerance log.tracks (log.Took sighting.observation)]
  show _ ↔ ∀ position, bestTrackForPeak log.tracks sighting.peak toleranceHz = some position → _
  unfold chosenTrack
  cases hbest : bestTrackForPeak log.tracks sighting.peak toleranceHz with
  | none =>
    refine iff_of_true (fun htook => ?_) fun position hposition => nomatch hposition
    -- nothing was placed behind the last track
    obtain ⟨placement, hplacement, heq⟩ := List.mem_map.mp htook
    have hlt := h.place_lt placement hplacement
    rw [List.length_map] at hlt
    exact Nat.ne_of_lt hlt (congrArg Prod.snd heq)
  | some index =>
    refine ⟨fun hfresh position hposition => ?_, fun hall => hall index rfl⟩
    obtain rfl : index = position := Option.some.inj hposition
    exact hfresh

end Steps

/-! ## All peaks -/

section Runs

variable {toleranceHz : UInt64} {observations : List SpectrumObservation}

theorem filed_peak_log (htolerance : toleranceHz < toleranceHz + 1)
    (observations : List SpectrumObservation) : (peakLog toleranceHz observations).Filed :=
  run_invariant (filed_place htolerance) filed_empty _

/-- Every peak has been placed once, in its order. -/
theorem placements_run (log : PeakLog) (peaks : List Sighting) :
    (run (PeakLog.place toleranceHz) log peaks).placements.map
        (fun placement => (placement.observation, placement.point)) =
      log.placements.map (fun placement => (placement.observation, placement.point)) ++
        peaks.map fun sighting => (sighting.observation, sighting.point) := by
  induction peaks generalizing log with
  | nil => rw [run_nil, List.map_nil, List.append_nil]
  | cons sighting peaks ih =>
    rw [run_cons, ih, PeakLog.place, List.map_append, List.append_assoc]
    rfl

/-- The tracks of the log are those that the code fills. -/
theorem tracks_run_sightings (log : PeakLog) (first : Nat) :
    (run (PeakLog.place toleranceHz) log (sightings observations first)).tracks =
      observations.foldl (placePeaks toleranceHz) log.tracks := by
  have hpeaks (index : Nat) (timeNs : UInt64) (peaks : List SpectralPeak) (log : PeakLog) :
      (run (PeakLog.place toleranceHz) log
        (peaks.map fun peak => ⟨index, timeNs, peak⟩)).tracks =
        peaks.foldl (placePeak toleranceHz timeNs) log.tracks := by
    induction peaks generalizing log with
    | nil => rfl
    | cons peak peaks ih => exact ih (log.place toleranceHz ⟨index, timeNs, peak⟩)
  induction observations generalizing log first with
  | nil => rfl
  | cons observation observations ih =>
    have hrun := ih (run (PeakLog.place toleranceHz) log
      (observation.analysis.peaks.map fun peak => ⟨first, observation.timeNs, peak⟩)) (first + 1)
    rw [hpeaks] at hrun
    rw [List.foldl_cons, placePeaks, ← hrun, sightings, List.zipIdx_cons, List.flatMap_cons, run,
      List.foldl_append]
    rfl

theorem observation_lt_length {sighting : Sighting} (h : sighting ∈ sightings observations 0) :
    sighting.observation < observations.length := by
  obtain ⟨⟨observation, index⟩, hentry, hsighting⟩ := List.mem_flatMap.mp h
  obtain ⟨peak, -, rfl⟩ := List.mem_map.mp hsighting
  simpa using List.snd_lt_of_mem_zipIdx hentry

/-- A placement is of one of the observations. -/
theorem placement_observation_lt {placement : Placement}
    (h : placement ∈ (peakLog toleranceHz observations).placements) :
    placement.observation < observations.length := by
  have hmem := List.mem_map_of_mem (f := fun placement : Placement =>
    (placement.observation, placement.point)) h
  rw [peakLog, placements_run, List.map_nil, List.nil_append] at hmem
  obtain ⟨sighting, hsighting, heq⟩ := List.mem_map.mp hmem
  rw [← show sighting.observation = placement.observation from congrArg Prod.fst heq]
  exact observation_lt_length hsighting

/-- No two peaks of an observation are placed in one track exactly when each finds the log clear. -/
theorem nodup_taken_iff_along (htolerance : toleranceHz < toleranceHz + 1) :
    (peakLog toleranceHz observations).taken.Nodup ↔
      Along (PeakLog.place toleranceHz) (PeakLog.Clear toleranceHz) {}
        (sightings observations 0) := by
  have hstep (log : PeakLog) (sighting : Sighting) :
      (log.place toleranceHz sighting).taken = log.taken ++
        [(sighting.observation, chosenTrack toleranceHz log.tracks sighting.peak)] :=
    List.map_append
  rw [← along_congr (filed_place htolerance)
    (fun _ sighting hfiled => not_took_chosen_iff htolerance hfiled sighting) filed_empty]
  exact nodup_iff_along hstep (s := {}) List.nodup_nil _

/-! ## The tracks built -/

variable {sortPoints : List PeakTrackPoint → List PeakTrackPoint}
  {sortTracks : List PeakTrack → List PeakTrack}

/-- What becomes of a track when all peaks are placed. -/
def finished (sortPoints : List PeakTrackPoint → List PeakTrackPoint) (observations : Nat)
    (track : PeakTrack) : PeakTrack :=
  finalizeTrack { track with points := sortPoints track.points } observations

/-- The tracks are those of the log, finished and sorted. -/
theorem build_peak_tracks_eq :
    buildPeakTracks sortPoints sortTracks observations toleranceHz =
      sortTracks ((peakLog toleranceHz observations).tracks.map
        (finished sortPoints observations.length)) := by
  rw [peakLog, tracks_run_sightings]
  rfl

theorem points_finished (hpoints : ∀ points, (sortPoints points).Perm points) (n : Nat)
    (track : PeakTrack) : (finished sortPoints n track).points.Perm track.points :=
  hpoints track.points

/-- Sorting and summing up leave the tracks their numbers of points. -/
theorem lengths_build_peak_tracks (hpoints : ∀ points, (sortPoints points).Perm points)
    (htracks : ∀ tracks, (sortTracks tracks).Perm tracks)
    (observations : List SpectrumObservation) (toleranceHz : UInt64) :
    ((buildPeakTracks sortPoints sortTracks observations toleranceHz).map
        fun track => track.points.length).Perm
      ((peakLog toleranceHz observations).tracks.map fun track => track.points.length) := by
  rw [build_peak_tracks_eq]
  refine ((htracks _).map _).trans (List.Perm.of_eq ?_)
  rw [List.map_map]
  exact List.map_congr_left fun track _ => (points_finished hpoints _ track).length_eq

/-- The points of the tracks in the log are those placed there. -/
theorem points_peak_log (htolerance : toleranceHz < toleranceHz + 1) :
    List.Forall₂
      (fun track place => track.points = (peakLog toleranceHz observations).pointsAt place)
      (peakLog toleranceHz observations).tracks
      (List.range (peakLog toleranceHz observations).tracks.length) := by
  have hgroups := (filed_peak_log htolerance observations).groups_eq
  rwa [List.length_map, ← List.forall₂_eq_eq_eq, List.forall₂_map_left_iff,
    List.forall₂_map_right_iff] at hgroups

/-- Every place is that of a track that has the points placed there. -/
theorem filed_tracks (hpoints : ∀ points, (sortPoints points).Perm points)
    (htracks : ∀ tracks, (sortTracks tracks).Perm tracks)
    (htolerance : toleranceHz < toleranceHz + 1) :
    ∃ places : List Nat, places.Nodup ∧
      (∀ placement ∈ (peakLog toleranceHz observations).placements, placement.track ∈ places) ∧
      List.Forall₂ (fun track place =>
          track.points.Perm ((peakLog toleranceHz observations).pointsAt place))
        (buildPeakTracks sortPoints sortTracks observations toleranceHz) places := by
  have hfinished : List.Forall₂ (fun track place =>
      track.points.Perm ((peakLog toleranceHz observations).pointsAt place))
      ((peakLog toleranceHz observations).tracks.map (finished sortPoints observations.length))
      (List.range (peakLog toleranceHz observations).tracks.length) := by
    rw [List.forall₂_map_left_iff]
    refine (points_peak_log htolerance).imp fun track place hplace => ?_
    rw [← hplace]
    exact points_finished hpoints _ track
  rw [build_peak_tracks_eq]
  obtain ⟨places, hfiled, hperm⟩ := List.perm_comp_forall₂ (htracks _) hfinished
  refine ⟨places, hperm.nodup_iff.mpr List.nodup_range, fun placement hplacement => ?_, hfiled⟩
  have hlt := (filed_peak_log htolerance observations).place_lt placement hplacement
  rw [List.length_map] at hlt
  exact hperm.mem_iff.mpr (List.mem_range.mpr hlt)

/-- Where no two peaks of an observation are placed in one track, a track has at most one point for
each observation. -/
theorem length_points_le (hpoints : ∀ points, (sortPoints points).Perm points)
    (htracks : ∀ tracks, (sortTracks tracks).Perm tracks)
    (htolerance : toleranceHz < toleranceHz + 1)
    (hapart : (peakLog toleranceHz observations).taken.Nodup) {track : PeakTrack}
    (htrack : track ∈ buildPeakTracks sortPoints sortTracks observations toleranceHz) :
    track.points.length ≤ observations.length := by
  rw [build_peak_tracks_eq, (htracks _).mem_iff] at htrack
  obtain ⟨old, hold, rfl⟩ := List.mem_map.mp htrack
  have hgroups := (filed_peak_log htolerance observations).groups_eq
  have hpointsOld : old.points ∈ (peakLog toleranceHz observations).tracks.map PeakTrack.points :=
    List.mem_map_of_mem hold
  rw [hgroups] at hpointsOld
  obtain ⟨place, -, hplace⟩ := List.mem_map.mp hpointsOld
  rw [(points_finished hpoints _ old).length_eq, ← hplace]
  exact length_items_at_le (fun _ => placement_observation_lt) hapart place

theorem exact_persistence_le_one {track : PeakTrack} {n : Nat} (h : track.points.length ≤ n) :
    exactPersistence track n ≤ 1 :=
  div_le_one_of_le₀ (Nat.cast_le.mpr h) (Nat.cast_nonneg n)

/-- For all observations: every peak is placed in one track, no track takes two peaks of one
observation, and so none has more points than there are observations, exactly when each peak finds
the log clear. -/
theorem tracked_iff_along (hpoints : ∀ points, (sortPoints points).Perm points)
    (htracks : ∀ tracks, (sortTracks tracks).Perm tracks)
    (observations : List SpectrumObservation) (htolerance : toleranceHz.toNat < 2 ^ 64 - 1) :
    Tracked sortPoints sortTracks observations toleranceHz ↔
      Along (PeakLog.place toleranceHz) (PeakLog.Clear toleranceHz) {}
        (sightings observations 0) := by
  have hlt := lt_tolerance_add_one htolerance
  rw [← nodup_taken_iff_along hlt]
  refine ⟨Tracked.apart, fun hapart => ⟨?_, filed_tracks hpoints htracks hlt, hapart, ?_⟩⟩
  · exact placements_run {} (sightings observations 0)
  · intro track htrack
    have hfew := length_points_le hpoints htracks hlt hapart htrack
    exact ⟨hfew, exact_persistence_le_one hfew⟩

end Runs

/-- A carrier seen in two observations is one track. -/
theorem tracked_carrier_seen_twice :
    Tracked (stableSort PeakTrackPoint.earlier) (stableSort PeakTrack.morePersistent)
      [{ timeNs := 1000, analysis := { peaks := [{ centerFrequencyHz := 100000000 }] } },
        { timeNs := 2000, analysis := { peaks := [{ centerFrequencyHz := 100010000 }] } }]
      25000 := by
  refine (tracked_iff_along (stable_sort_perm _) (stable_sort_perm _) _ (by decide)).mpr ?_
  decide

/-- Two peaks of one observation, nearer to each other than the tolerance, make a track of two
points. -/
theorem two_peaks_in_one_track :
    let observations : List SpectrumObservation :=
      [{ timeNs := 1000
         analysis :=
          { peaks := [{ centerFrequencyHz := 100000000 }, { centerFrequencyHz := 100010000 }] } }]
    ¬Tracked (stableSort PeakTrackPoint.earlier) (stableSort PeakTrack.morePersistent)
        observations 25000 ∧
      (buildPeakTracks (stableSort PeakTrackPoint.earlier) (stableSort PeakTrack.morePersistent)
        observations 25000).map (fun track => track.points.length) = [2] := by
  intro observations
  refine ⟨fun htracked => absurd htracked.apart (by decide), ?_⟩
  have hlog : (peakLog 25000 observations).tracks.map (fun track => track.points.length) = [2] := by
    decide
  have hperm := lengths_build_peak_tracks (stable_sort_perm PeakTrackPoint.earlier)
    (stable_sort_perm PeakTrack.morePersistent) observations 25000
  rw [hlog] at hperm
  exact List.perm_singleton.mp hperm

end Aethon.Rf
