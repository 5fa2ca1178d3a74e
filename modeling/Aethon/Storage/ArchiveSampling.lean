import Aethon.Common.Text
import Aethon.Foundation.BothEnds
import Aethon.Foundation.SortedTable
import Aethon.Storage.ArchiveCollection

/-!
# Samples of a collection

A sample takes some of the references that a query leaves of a collection, in one of five modes,
after `storage/archive_sampling.cpp`. Four of its loops differ in what they take and are one loop
with a `Chooser`. The fifth walks by two indices, and has no result where an index is out of range
or the fuel runs out.
-/

namespace Aethon.Storage

open FileSystem StableSort Text

/-- How a sample is chosen. -/
inductive SamplingMode where
  | firstN
  | everyNth
  | timeBucketFirst
  | deterministicHash
  | payloadExtremes
  deriving DecidableEq, Repr

/-- The mode of a sample and its parameters. -/
structure SamplingOptions where
  mode : SamplingMode := .firstN
  limit : UInt64 := 0
  stride : UInt64 := 1
  bucketWidthNs : UInt64 := 0
  hashModulus : UInt64 := 1
  hashRemainder : UInt64 := 0
  includeRecords : Bool := true
  deriving DecidableEq, Repr

/-- A reference of a sample, with the reason for it and its rank. -/
structure SampledRecordRef where
  ref : ArchiveCollectionRecordRef
  reason : String
  sampleRank : UInt64 := 0
  deriving DecidableEq, Repr

/-- The references of a sample, and the counts of what was seen. -/
structure RecordSample where
  options : SamplingOptions := {}
  refs : List SampledRecordRef := []
  records : List ArchiveRecord := []
  candidatesSeen : UInt64 := 0
  selectedCount : UInt64 := 0
  rejectedCount : UInt64 := 0
  deriving DecidableEq

/-- A width, a stride or a modulus of zero is one. -/
def orOne (n : UInt64) : UInt64 :=
  if n = 0 then 1 else n

/-! ## The hash of a reference -/

/-- `mix`. -/
def mixHash (hash value : UInt64) : UInt64 :=
  (hash ^^^ value) * 1099511628211

/-- A hash of a reference, the same in every run. -/
def deterministicRecordHash (ref : ArchiveCollectionRecordRef) : UInt64 :=
  let hash := [UInt64.ofNat ref.archiveOrdinal, ref.offset, ref.captureTimeNs, ref.payloadSize,
    ref.device, ref.sequence.toUInt64].foldl mixHash 1469598103934665603
  ref.path.chars.foldl (fun hash ch => mixHash hash ch.toUInt8.toUInt64) hash

/-- Whether the hash of a reference takes it into the sample. -/
def shouldTakeHash (ref : ArchiveCollectionRecordRef) (options : SamplingOptions) : Bool :=
  let modulus := orOne options.hashModulus
  deterministicRecordHash ref % modulus = options.hashRemainder % modulus

/-- The number of the time bucket of a reference. -/
def timeBucket (options : SamplingOptions) (ref : ArchiveCollectionRecordRef) : UInt64 :=
  ref.captureTimeNs / orOne options.bucketWidthNs

/-! ## Choosing -/

/-- What a loop takes: a condition on a variable of the loop and the reference, and what becomes of
the variable where the reference is rejected and where it is selected. -/
structure Chooser (τ : Type) where
  take : τ → ArchiveCollectionRecordRef → Bool
  rejected : τ → ArchiveCollectionRecordRef → τ
  selected : τ → ArchiveCollectionRecordRef → τ

/-- A choice that needs no variable. -/
def Chooser.pure (take : ArchiveCollectionRecordRef → Bool) : Chooser Unit where
  take _ := take
  rejected _ _ := ()
  selected _ _ := ()

/-- The variable counts the references. -/
def everyNthChooser (options : SamplingOptions) : Chooser UInt64 where
  take index _ := index % orOne options.stride = 0
  rejected index _ := index + 1
  selected index _ := index + 1

/-- The variable holds the buckets of the selected references. -/
def timeBucketChooser (options : SamplingOptions) : Chooser (SortedTable UInt64 Unit) where
  take seen ref := (seen.lookup (timeBucket options ref)).isNone
  rejected seen _ := seen
  selected seen ref := seen.insert (timeBucket options ref) ()

namespace RecordSample

/-- The sample has as many references as the options allow. -/
def reachedLimit (sample : RecordSample) (options : SamplingOptions) : Bool :=
  options.limit ≠ 0 ∧ sample.refs.length ≥ options.limit.toNat

/-- Count a candidate. -/
def see (sample : RecordSample) : RecordSample :=
  { sample with candidatesSeen := sample.candidatesSeen + 1 }

/-- Count a candidate that was not taken. -/
def reject (sample : RecordSample) : RecordSample :=
  { sample with rejectedCount := sample.rejectedCount + 1 }

end RecordSample

section Loops

variable {κ : Type} (disk : Disk Path κ) (options : SamplingOptions)

/-- Reading the record may fail. -/
def selectRef (sample : RecordSample) (ref : ArchiveCollectionRecordRef) (reason : String) :
    Except Error RecordSample := do
  let sampled : SampledRecordRef :=
    { ref, reason, sampleRank := UInt64.ofNat sample.refs.length }
  let sample := { sample with
    refs := sample.refs ++ [sampled]
    selectedCount := sample.selectedCount + 1 }
  if options.includeRecords then
    let record ← loadCollectionRecord disk ref
    pure { sample with records := sample.records ++ record.toList }
  else pure sample

/-- The loop of the first four modes. -/
def sampleRefs {τ : Type} (chooser : Chooser τ) (reason : String) :
    List ArchiveCollectionRecordRef → τ → RecordSample → Except Error RecordSample
  | [], _, sample => pure sample
  | ref :: refs, state, sample => do
      let sample := sample.see
      if !chooser.take state ref || sample.reachedLimit options then
        sampleRefs chooser reason refs (chooser.rejected state ref) sample.reject
      else
        let sample ← selectRef disk options sample ref reason
        sampleRefs chooser reason refs (chooser.selected state ref) sample

/-- The first references of the query. -/
def sampleFirstN (sample : RecordSample) (refs : List ArchiveCollectionRecordRef) :
    Except Error RecordSample :=
  sampleRefs disk options (.pure fun _ => true) "first records in query order" refs () sample

/-- Every reference at a stride. -/
def sampleEveryNth (sample : RecordSample) (refs : List ArchiveCollectionRecordRef) :
    Except Error RecordSample :=
  sampleRefs disk options (everyNthChooser options) "stride sample" refs 0 sample

/-- The first reference of every bucket of time. -/
def sampleTimeBuckets (sample : RecordSample) (refs : List ArchiveCollectionRecordRef) :
    Except Error RecordSample :=
  sampleRefs disk options (timeBucketChooser options) "first record in time bucket" refs ∅ sample

/-- The references that their hash takes. -/
def sampleHash (sample : RecordSample) (refs : List ArchiveCollectionRecordRef) :
    Except Error RecordSample :=
  sampleRefs disk options (.pure (shouldTakeHash · options)) "deterministic hash match" refs ()
    sample

/-- The comparison of the sort: by payload size, then by capture time. -/
def smallerPayload (left right : ArchiveCollectionRecordRef) : Bool :=
  if left.payloadSize ≠ right.payloadSize then left.payloadSize < right.payloadSize
  else left.captureTimeNs < right.captureTimeNs

/-- `--` on a `std::size_t`. -/
def decrement (index : ℕ) : ℕ :=
  if index = 0 then 2 ^ 64 - 1 else index - 1

/-- The loop over the sorted references by two indices. -/
def walkExtremes (refs : List ArchiveCollectionRecordRef) :
    ℕ → ℕ → ℕ → Bool → RecordSample → Option (Except Error RecordSample)
  | 0, _, _, _, _ => none
  | fuel + 1, low, high, takeLow, sample =>
      if low < refs.length ∧ low ≤ high then
        let sample := sample.see
        match refs[if takeLow then low else high]? with
        | none => none
        | some ref =>
            let low := if takeLow then low + 1 else low
            let high := if takeLow then high else decrement high
            if sample.reachedLimit options then
              walkExtremes refs fuel low high (!takeLow) sample.reject
            else
              match selectRef disk options sample ref "payload size extreme" with
              | .error error => some (.error error)
              | .ok sample =>
                  if high ≥ refs.length then some (.ok sample)
                  else walkExtremes refs fuel low high (!takeLow) sample
      else some (.ok sample)

-- `std::sort`, which may leave references of one payload size and time in any order
variable (sort : List ArchiveCollectionRecordRef → List ArchiveCollectionRecordRef) (fuel : ℕ)

/-- The smallest and the largest payloads in turn. -/
def samplePayloadExtremes (sample : RecordSample) (refs : List ArchiveCollectionRecordRef) :
    Option (Except Error RecordSample) :=
  let refs := sort refs
  walkExtremes disk options refs fuel 0 (if refs = [] then 0 else refs.length - 1) true sample

/-! ## Normalizing -/

/-- The comparison of the stable sort. -/
def sampledEarlier (left right : SampledRecordRef) : Bool :=
  left.ref.captureTimeNs < right.ref.captureTimeNs

/-- Sort a sample and give every reference its rank. -/
def normalizeSample (sample : RecordSample) : RecordSample :=
  { sample with
    refs := (stableSort sampledEarlier sample.refs).zipIdx.map fun place =>
      { place.1 with sampleRank := UInt64.ofNat place.2 }
    records := stableSort recordEarlier sample.records }

/-- Sample the references of a query in the mode of the options. -/
def sampleArchiveCollection (collection : ArchiveCollection) (query : ArchiveQuery) :
    Option (Except Error RecordSample) :=
  let sample : RecordSample := { options }
  let refs := filterCollectionRefs collection query
  let sampled :=
    match options.mode with
    | .firstN => some (sampleFirstN disk options sample refs)
    | .everyNth => some (sampleEveryNth disk options sample refs)
    | .timeBucketFirst => some (sampleTimeBuckets disk options sample refs)
    | .deterministicHash => some (sampleHash disk options sample refs)
    | .payloadExtremes => samplePayloadExtremes disk options sort fuel sample refs
  sampled.map fun outcome => outcome.map normalizeSample

end Loops

/-! ## Texts -/

/-- `sampling_mode_name`. -/
def SamplingMode.name : SamplingMode → Text
  | .firstN => "first_n".toList
  | .everyNth => "every_nth".toList
  | .timeBucketFirst => "time_bucket_first".toList
  | .deterministicHash => "deterministic_hash".toList
  | .payloadExtremes => "payload_extremes".toList

/-- A sample in words. -/
def renderRecordSample (sample : RecordSample) : Text :=
  ["record_sample\n  mode: ".toList, sample.options.mode.name,
    "\n  candidates_seen: ".toList, decimal sample.candidatesSeen.toNat,
    "\n  selected_count: ".toList, decimal sample.selectedCount.toNat,
    "\n  rejected_count: ".toList, decimal sample.rejectedCount.toNat, "\n".toList].flatten ++
    sample.refs.flatMap fun sampled =>
      ["  sample: rank=".toList, decimal sampled.sampleRank.toNat,
        " path=".toList, sampled.ref.path.chars,
        " offset=".toList, decimal sampled.ref.offset.toNat,
        " capture_time_ns=".toList, decimal sampled.ref.captureTimeNs.toNat,
        " device=".toList, decimal sampled.ref.device.toNat,
        " sequence=".toList, decimal sampled.ref.sequence.toNat,
        " payload_size=".toList, decimal sampled.ref.payloadSize.toNat,
        " reason=\"".toList, sampled.reason.toList, "\"\n".toList].flatten

end Aethon.Storage
