import Aethon.Foundation.StableSort
import Aethon.Storage.Catalog

/-!
# Capacity forecasts

The totals of records and payload over the archives of a catalog, each stamped with the last time
of its archive, and the growth between the first and the last of them, after
`storage/capacity_forecast.cpp`.
-/

namespace Aethon.Storage

/-- What the archives held at a time. -/
structure CapacitySample where
  timeNs : UInt64 := 0
  recordCount : UInt64 := 0
  payloadBytes : UInt64 := 0
  deriving DecidableEq, Repr

/-- How far a forecast looks ahead, and the size that it warns of. -/
structure CapacityForecastOptions where
  horizonNs : UInt64 := 86400000000000
  targetPayloadBytes : UInt64 := 10 * 1024 * 1024 * 1024
  deriving DecidableEq, Repr

/-- The rates of growth, and the size at the horizon. -/
structure CapacityForecast where
  currentPayloadBytes : UInt64 := 0
  projectedPayloadBytes : UInt64 := 0
  payloadBytesPerNs : Float := 0
  recordsPerNs : Float := 0
  exceedsTarget : Bool := false
  notes : List String := []

/-- The bytes of the payloads that a manifest counts. -/
def manifestPayload (manifest : ArchiveManifest) : UInt64 :=
  manifest.devices.foldl (fun total device => total + device.totalPayloadBytes) 0

/-- The comparison of `sorted_samples`. -/
def CapacitySample.before (left right : CapacitySample) : Bool :=
  left.timeNs < right.timeNs

/-- The growth of a value between two times, zero when it shrinks. -/
def rateBetween (firstValue lastValue firstTime lastTime : UInt64) : Float :=
  if lastTime ≤ firstTime then 0
  else if lastValue < firstValue then 0
  else (lastValue - firstValue).toFloat / (lastTime - firstTime).toFloat

/-- The remarks about a forecast. -/
def appendForecastNotes (forecast : CapacityForecast) (options : CapacityForecastOptions)
    (sampleCount : ℕ) : CapacityForecast :=
  { forecast with
    notes := forecast.notes ++
      warnIf (sampleCount < 2) "forecast is based on fewer than two samples" ++
      warnIf (forecast.payloadBytesPerNs == 0) "payload growth rate is zero or unavailable" ++
      warnIf forecast.exceedsTarget "projected payload exceeds configured target" ++
      warnIf (options.horizonNs = 0) "forecast horizon is zero" }

/-- The loop of `samples_from_catalog`, from the totals reached. -/
def cumulativeSamples (cumulativeRecords cumulativePayload : UInt64) :
    List CatalogEntry → List CapacitySample
  | [] => []
  | entry :: entries =>
    let cumulativeRecords := cumulativeRecords + entry.manifest.summary.recordCount
    let cumulativePayload := cumulativePayload + manifestPayload entry.manifest
    { timeNs := entry.manifest.summary.lastTimeNs
      recordCount := cumulativeRecords
      payloadBytes := cumulativePayload } ::
      cumulativeSamples cumulativeRecords cumulativePayload entries

/-- `sort` is the `std::sort` of `sorted_samples`, which may leave samples of one time in any
order. -/
def samplesFromCatalog (sort : List CapacitySample → List CapacitySample)
    (catalog : ArchiveCatalog) : List CapacitySample :=
  sort (cumulativeSamples 0 0 catalog.entries)

/-- The forecast from the first sample and the last, by time. -/
def forecastCapacity (sort : List CapacitySample → List CapacitySample)
    (input : List CapacitySample) (options : CapacityForecastOptions) : CapacityForecast :=
  let samples := sort input
  match samples.head?, samples.getLast? with
  | some first, some last =>
    let payloadBytesPerNs :=
      rateBetween first.payloadBytes last.payloadBytes first.timeNs last.timeNs
    let projectedGrowth := payloadBytesPerNs * options.horizonNs.toFloat
    let projectedPayloadBytes := last.payloadBytes + projectedGrowth.toUInt64
    let forecast : CapacityForecast :=
      { currentPayloadBytes := last.payloadBytes
        projectedPayloadBytes
        payloadBytesPerNs
        recordsPerNs := rateBetween first.recordCount last.recordCount first.timeNs last.timeNs
        exceedsTarget := options.targetPayloadBytes ≠ 0 &&
          options.targetPayloadBytes < projectedPayloadBytes }
    appendForecastNotes forecast options samples.length
  | _, _ => { notes := ["no capacity samples available"] }

end Aethon.Storage
