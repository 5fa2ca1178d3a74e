import Aethon.Foundation.Extremum
import Aethon.Foundation.StableSort
import Aethon.Rf.Types

/-!
# Tracks of spectral peaks

The peaks of a series of spectrum observations are gathered into tracks by `build_peak_tracks` of
`rf/spectrum_history.cpp`. Each peak goes to the track whose nominal frequency, the median of its
points, is the nearest within a tolerance, or opens a track of its own. When all are placed, the
points of each track are sorted by time and summed up, and the tracks are sorted.
-/

namespace Aethon.Rf

open StableSort Words

/-- How the power of a track goes on. -/
inductive TrendDirection where
  | stable
  | rising
  | falling
  | intermittent
  | newSignal
  | disappeared
  deriving DecidableEq, Repr

/-- A peak of a spectrum. -/
structure SpectralPeak where
  centerFrequencyHz : UInt64 := 0
  peakPowerDbm : Float := 0
  prominenceDb : Float := 0

/-- What of an analysis a history looks at. -/
structure SpectralAnalysis where
  peaks : List SpectralPeak := []

/-- An analysis and its time. -/
structure SpectrumObservation where
  timeNs : UInt64 := 0
  analysis : SpectralAnalysis := {}

/-- A peak of a track and its time. -/
structure PeakTrackPoint where
  timeNs : UInt64 := 0
  centerFrequencyHz : UInt64 := 0
  peakPowerDbm : Float := 0
  prominenceDb : Float := 0

/-- Peaks that are taken for one signal. -/
structure PeakTrack where
  nominalFrequencyHz : UInt64 := 0
  observedRange : FrequencyRange := {}
  persistence : Float := 0
  meanPowerDbm : Float := 0
  powerSlopeDbPerHour : Float := 0
  frequencyDriftHz : Float := 0
  trend : TrendDirection := .stable
  points : List PeakTrackPoint := []

/-- How far two frequencies are apart. -/
def frequencyDelta (left right : UInt64) : UInt64 :=
  if left > right then left - right else right - left

/-- The hours between two times, none where the second is not later. -/
def hoursBetween (firstNs lastNs : UInt64) : Float :=
  if lastNs ≤ firstNs then 0 else (lastNs - firstNs).toFloat / 3600000000000

/-! ## What a track says of its points -/

/-- The mean of the powers. -/
def meanPower (points : List PeakTrackPoint) : Float :=
  if points.isEmpty then 0
  else points.foldl (fun total point => total + point.peakPowerDbm) 0 / Float.ofNat points.length

/-- The median of the frequencies. -/
def nominalFrequency (points : List PeakTrackPoint) : UInt64 :=
  let values := stableSort (fun left right => decide (left < right))
    (points.map PeakTrackPoint.centerFrequencyHz)
  values.getD (values.length / 2) 0

/-- The smallest range around all frequencies. -/
def observedRange (points : List PeakTrackPoint) : FrequencyRange :=
  points.foldl
    (fun range point => merge range ⟨point.centerFrequencyHz, point.centerFrequencyHz + 1⟩) {}

/-- The powers with their times. -/
def powerSamples (points : List PeakTrackPoint) : List (UInt64 × Float) :=
  points.map fun point => (point.timeNs, point.peakPowerDbm)

/-- How far the frequencies spread. -/
def frequencyDrift (points : List PeakTrackPoint) : Float :=
  let frequencies := points.map PeakTrackPoint.centerFrequencyHz
  if points.length < 2 then 0
  else (frequencyDelta (frequencies.min?.getD 0) (frequencies.max?.getD 0)).toFloat

/-- The slope of a line through samples, in units per hour. -/
def slopePerHour (samples : List (UInt64 × Float)) : Float :=
  if samples.length < 2 then 0
  else
    let firstTime := (samples.head?.map Prod.fst).getD 0
    let sum (value : Float → Float → Float) : Float :=
      samples.foldl (fun total sample => total + value (hoursBetween firstTime sample.1) sample.2) 0
    let sumX := sum fun x _ => x
    let sumY := sum fun _ y => y
    let sumXX := sum fun x _ => x * x
    let sumXY := sum fun x y => x * y
    let n := Float.ofNat samples.length
    let denominator := n * sumXX - sumX * sumX
    if denominator.abs < 1.0e-12 then 0 else (n * sumXY - sumX * sumY) / denominator

/-- The trend that goes with a slope and the first and last power. -/
def classifyTrend (slope first last intermittentRatio : Float) : TrendDirection :=
  let change := last - first
  if intermittentRatio > 0.55 then .intermittent
  else if first == 0 && last != 0 then .newSignal
  else if first != 0 && last == 0 then .disappeared
  else if slope > 1 || change > 3 then .rising
  else if slope < -1 || change < -3 then .falling
  else .stable

/-- The summary of a track among so many observations. -/
def finalizeTrack (track : PeakTrack) (observations : Nat) : PeakTrack :=
  let powerSlopeDbPerHour := slopePerHour (powerSamples track.points)
  let persistence :=
    if observations = 0 then 0 else Float.ofNat track.points.length / Float.ofNat observations
  let first := (track.points.head?.map PeakTrackPoint.peakPowerDbm).getD 0
  let last := (track.points.getLast?.map PeakTrackPoint.peakPowerDbm).getD 0
  let missingRatio := 1 - persistence
  { nominalFrequencyHz := nominalFrequency track.points
    observedRange := observedRange track.points
    persistence
    meanPowerDbm := meanPower track.points
    powerSlopeDbPerHour
    frequencyDriftHz := frequencyDrift track.points
    trend := classifyTrend powerSlopeDbPerHour first last missingRatio
    points := track.points }

/-! ## Placing the peaks -/

/-- The frequency of a track that a peak is compared with. -/
def PeakTrack.reference (track : PeakTrack) : UInt64 :=
  match track.points.getLast? with
  | some point =>
    if track.nominalFrequencyHz = 0 then point.centerFrequencyHz else track.nominalFrequencyHz
  | none => track.nominalFrequencyHz

/-- How far a peak is from a track. -/
def SpectralPeak.delta (peak : SpectralPeak) (track : PeakTrack) : UInt64 :=
  frequencyDelta track.reference peak.centerFrequencyHz

/-- The first of the nearest tracks within the tolerance. -/
def bestTrackForPeak (tracks : List PeakTrack) (peak : SpectralPeak) (toleranceHz : UInt64) :
    Option Nat :=
  Extremum.nearest peak.delta toleranceHz (toleranceHz + 1) tracks

/-- The point that a peak becomes. -/
def SpectralPeak.trackPoint (peak : SpectralPeak) (timeNs : UInt64) : PeakTrackPoint where
  timeNs
  centerFrequencyHz := peak.centerFrequencyHz
  peakPowerDbm := peak.peakPowerDbm
  prominenceDb := peak.prominenceDb

/-- One peak of an observation at a time. -/
def placePeak (matchToleranceHz timeNs : UInt64) (tracks : List PeakTrack) (peak : SpectralPeak) :
    List PeakTrack :=
  let point := peak.trackPoint timeNs
  match bestTrackForPeak tracks peak matchToleranceHz with
  | some index =>
    tracks.modify index fun track =>
      let points := track.points ++ [point]
      { track with points, nominalFrequencyHz := nominalFrequency points }
  | none => tracks ++ [{ nominalFrequencyHz := peak.centerFrequencyHz, points := [point] }]

/-- Place the peaks of an observation one after another. -/
def placePeaks (matchToleranceHz : UInt64) (tracks : List PeakTrack)
    (observation : SpectrumObservation) : List PeakTrack :=
  observation.analysis.peaks.foldl (placePeak matchToleranceHz observation.timeNs) tracks

/-- `sortPoints` and `sortTracks` are the two `std::sort`s, which may leave points of one time, and
tracks of one persistence and mean power, in any order. -/
def buildPeakTracks (sortPoints : List PeakTrackPoint → List PeakTrackPoint)
    (sortTracks : List PeakTrack → List PeakTrack) (observations : List SpectrumObservation)
    (matchToleranceHz : UInt64) : List PeakTrack :=
  let tracks := observations.foldl (placePeaks matchToleranceHz) []
  sortTracks (tracks.map fun track =>
    finalizeTrack { track with points := sortPoints track.points } observations.length)

/-- The order of the points of a track. -/
def PeakTrackPoint.earlier (left right : PeakTrackPoint) : Bool :=
  left.timeNs < right.timeNs

/-- The order of the tracks. -/
def PeakTrack.morePersistent (left right : PeakTrack) : Bool :=
  if left.persistence != right.persistence then left.persistence > right.persistence
  else left.meanPowerDbm > right.meanPowerDbm

end Aethon.Rf
