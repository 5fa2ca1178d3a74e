import Aethon.Foundation.Limits
import Aethon.Storage.ArchiveIndex

/-!
# Archive queries

A query restricts capture time, device, kind and payload size, each only when it is given, and
limits the number of results when the limit is not zero, after `storage/query.cpp`. `matches_query`
counts what it looks at and which filter refused a record.
-/

namespace Aethon.Storage

open Codec Limits Protocol

/-- The bounds of a query, each of which may be left open. -/
structure ArchiveQuery where
  startTimeNs : Option UInt64 := none
  endTimeNs : Option UInt64 := none
  device : Option DeviceId := none
  kind : Option PacketKind := none
  minPayloadSize : Option UInt64 := none
  maxPayloadSize : Option UInt64 := none
  limit : UInt64 := 0
  deriving DecidableEq, Repr

/-- What a query looked at, and why it skipped records. -/
structure ArchiveQueryStats where
  scannedRecords : UInt64 := 0
  matchedRecords : UInt64 := 0
  skippedByTime : UInt64 := 0
  skippedByDevice : UInt64 := 0
  skippedByKind : UInt64 := 0
  skippedByPayload : UInt64 := 0
  deriving DecidableEq, Repr

/-- The records of a query, and its counts. -/
structure ArchiveQueryResult where
  records : List ArchiveRecord := []
  stats : ArchiveQueryStats := {}
  deriving DecidableEq

/-! ## Filters

Each filter answers with the counters that it leaves. A caller without counters drops them. -/

/-- Whether a time is in the bounds, and the count if it is not. -/
def timeMatches (captureTimeNs : UInt64) (query : ArchiveQuery) (stats : ArchiveQueryStats) :
    Bool × ArchiveQueryStats :=
  if query.startTimeNs.any (captureTimeNs < ·) then
    (false, { stats with skippedByTime := stats.skippedByTime + 1 })
  else if query.endTimeNs.any (captureTimeNs > ·) then
    (false, { stats with skippedByTime := stats.skippedByTime + 1 })
  else (true, stats)

/-- Whether a size is in the bounds, and the count if it is not. -/
def payloadMatches (payloadSize : UInt64) (query : ArchiveQuery) (stats : ArchiveQueryStats) :
    Bool × ArchiveQueryStats :=
  if query.minPayloadSize.any (payloadSize < ·) then
    (false, { stats with skippedByPayload := stats.skippedByPayload + 1 })
  else if query.maxPayloadSize.any (payloadSize > ·) then
    (false, { stats with skippedByPayload := stats.skippedByPayload + 1 })
  else (true, stats)

/-- Whether a record is in all bounds, and the count of what was looked at. -/
def matchesQuery (record : ArchiveRecord) (query : ArchiveQuery)
    (stats : ArchiveQueryStats := {}) : Bool × ArchiveQueryStats :=
  let stats := { stats with scannedRecords := stats.scannedRecords + 1 }
  let (inTime, stats) := timeMatches record.captureTimeNs query stats
  if !inTime then (false, stats)
  else if query.device.any (record.packet.device ≠ ·) then
    (false, { stats with skippedByDevice := stats.skippedByDevice + 1 })
  else if query.kind.any (record.packet.kind ≠ ·) then
    (false, { stats with skippedByKind := stats.skippedByKind + 1 })
  else
    let (inSize, stats) := payloadMatches record.payloadSize query stats
    if !inSize then (false, stats)
    else (true, { stats with matchedRecords := stats.matchedRecords + 1 })

/-- The loop of `query_archive` over the records that the reader yields, and whether the limit ended
it. -/
def queryRecords (query : ArchiveQuery) :
    List ArchiveRecord → ArchiveQueryResult → ArchiveQueryResult × Bool
  | [], result => (result, false)
  | record :: records, result =>
      let (matched, stats) := matchesQuery record query result.stats
      let result := { result with stats }
      if !matched then queryRecords query records result
      else
        let result := { result with records := result.records ++ [record] }
        if Reached query.limit.toNat result.records then (result, true)
        else queryRecords query records result

/-- A loop that the limit ends does not see what comes behind. -/
def queryArchive (file : Option Bytes) (query : ArchiveQuery) :
    Except Error ArchiveQueryResult := do
  let reader ← ArchiveReader.ofFile file
  let (records, ending) := reader.drain
  let (result, stopped) := queryRecords query records {}
  if !stopped then endLoop ending
  pure result

/-! ## Text -/

/-- A filter in the description of a query, when it is given. -/
def describeFilter (name : String) (value : Option Nat) : String :=
  match value with
  | none => ""
  | some value => " " ++ name ++ "=" ++ toString value

/-- A query in words, one field for every bound. -/
def describeQuery (query : ArchiveQuery) : String :=
  "archive_query" ++
    describeFilter "start_time_ns" (query.startTimeNs.map UInt64.toNat) ++
    describeFilter "end_time_ns" (query.endTimeNs.map UInt64.toNat) ++
    describeFilter "device" (query.device.map UInt64.toNat) ++
    describeFilter "kind" (query.kind.map fun kind => kind.raw.toNat) ++
    describeFilter "min_payload_size" (query.minPayloadSize.map UInt64.toNat) ++
    describeFilter "max_payload_size" (query.maxPayloadSize.map UInt64.toNat) ++
    describeFilter "limit" (if query.limit ≠ 0 then some query.limit.toNat else none)

example : describeQuery { device := some 7, limit := 2 } = "archive_query device=7 limit=2" := by
  decide

end Aethon.Storage
