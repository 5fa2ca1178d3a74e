import Aethon.Storage.CollectionSearch
import Aethon.Storage.SharedPeriods
import Aethon.Storage.StatisticsTimelines

/-!
# The report of a collection

Each record falls into the bucket of its capture time and into no other, and a bucket that reaches
beyond the largest time counts no archives: `time_buckets_exact`. Every view of a report counts the
same records: the time buckets, the timelines, the payload ranking and the kinds of each device, the
summary and the density. `statistics_account` says so of a report on archives that can be read.
-/

namespace Aethon.Storage

open FileSystem Protocol StableSort Words

/-! ## Time buckets -/

/-- The width that is used. -/
def usedWidth (bucketWidthNs : UInt64) : UInt64 :=
  if bucketWidthNs = 0 then 1 else bucketWidthNs

theorem used_width_pos (bucketWidthNs : UInt64) : 0 < (usedWidth bucketWidthNs).toNat := by
  unfold usedWidth
  split
  · decide
  · next hwidth =>
    exact Nat.pos_of_ne_zero fun hzero => hwidth (UInt64.toNat_inj.mp hzero)

theorem bucket_start_toNat {width : UInt64} (hwidth : 0 < width.toNat) (time : UInt64) :
    (bucketStart time width).toNat = time.toNat / width.toNat * width.toNat := by
  have hne : width ≠ 0 := fun hzero => by rw [hzero] at hwidth; exact absurd hwidth (lt_irrefl _)
  have hle := Nat.div_mul_le_self time.toNat width.toNat
  rw [bucketStart, if_neg hne, UInt64.toNat_mul, UInt64.toNat_div]
  exact Nat.mod_eq_of_lt (hle.trans_lt time.toNat_lt)

/-- A record of the bucket that starts there. -/
def inBucket (width start : UInt64) (ref : ArchiveCollectionRecordRef) : Bool :=
  start ≤ ref.captureTimeNs ∧ ref.captureTimeNs.toNat < start.toNat + width.toNat

/-- The start of the bucket of a record says which bucket it is in. -/
theorem bucket_start_eq_iff {width start : UInt64} (hwidth : 0 < width.toNat)
    (hstart : width.toNat ∣ start.toNat) {ref : ArchiveCollectionRecordRef} :
    bucketStart ref.captureTimeNs width = start ↔ inBucket width start ref = true := by
  obtain ⟨n, hn⟩ := hstart
  rw [inBucket, decide_eq_true_iff, ← UInt64.toNat_inj, bucket_start_toNat hwidth,
    UInt64.le_iff_toNat_le, hn, Nat.mul_comm width.toNat n,
    Nat.mul_left_inj (Nat.ne_of_gt hwidth), Nat.div_eq_iff hwidth]
  constructor
  · rintro ⟨hle, hlt⟩
    exact ⟨hle, by omega⟩
  · rintro ⟨hle, hlt⟩
    exact ⟨hle, by omega⟩

theorem dvd_bucket_start {width : UInt64} (hwidth : 0 < width.toNat) (time : UInt64) :
    width.toNat ∣ (bucketStart time width).toNat := by
  rw [bucket_start_toNat hwidth]
  exact Nat.dvd_mul_left _ _

/-! ## Filled buckets -/

/-- The table of buckets before the archives are counted. -/
def filledBuckets (records : List ArchiveCollectionRecordRef) (width : UInt64) :
    SortedTable UInt64 ArchiveTimeBucket :=
  records.foldl (fun buckets ref => buckets.update (bucketStart ref.captureTimeNs width)
    (countInBucket (bucketStart ref.captureTimeNs width) width ref)) ∅

/-- The bucket that is filled with records of one start. -/
theorem fold_bucket {width start : UInt64} (refs : List ArchiveCollectionRecordRef)
    (hstart : ∀ ref ∈ refs, bucketStart ref.captureTimeNs width = start) :
    refs.foldl (fun held ref =>
        some (countInBucket (bucketStart ref.captureTimeNs width) width ref held)) none =
      if refs = [] then none
      else
        some
          { bucketStartNs := start
            bucketEndNs := start + width - 1
            recordCount := UInt64.ofNat refs.length
            payloadBytes := (refs.map (·.payloadSize)).sum } := by
  induction refs using List.reverseRecOn with
  | nil => rfl
  | append_singleton refs ref ih =>
      have hlast := hstart ref (List.mem_append_right refs List.mem_cons_self)
      have hne : refs ++ [ref] ≠ [] :=
        List.append_ne_nil_of_right_ne_nil refs (List.cons_ne_nil _ _)
      rw [List.foldl_concat, ih fun other hother => hstart other (List.mem_append_left _ hother),
        hlast, if_neg hne]
      by_cases hnil : refs = []
      · rw [if_pos hnil, hnil]
        simp [countInBucket]
      · rw [if_neg hnil, countInBucket, Option.getD_some, List.length_append, List.map_append,
          List.sum_append, UInt64.ofNat_add]
        -- where the count has wrapped, the start and the end are set again
        split <;> simp

/-- A bucket is there when it has records, and counts them. -/
theorem lookup_filled_buckets (records : List ArchiveCollectionRecordRef) {width : UInt64}
    (start : UInt64) :
    let own := records.filter fun ref => bucketStart ref.captureTimeNs width = start
    (filledBuckets records width).lookup start =
      if own = [] then none
      else
        some
          { bucketStartNs := start
            bucketEndNs := start + width - 1
            recordCount := UInt64.ofNat own.length
            payloadBytes := (own.map (·.payloadSize)).sum } := by
  intro own
  rw [filledBuckets, SortedTable.lookup_foldl_update]
  exact fold_bucket own fun ref href => of_decide_eq_true (List.mem_filter.mp href).2

/-- The archives are counted for a bucket that ends at a time, and not for one that does not. -/
theorem bucket_archives_eq (records : List ArchiveCollectionRecordRef) {width : UInt64}
    (hwidth : 0 < width.toNat) {bucket : ArchiveTimeBucket}
    (hend : bucket.bucketEndNs = bucket.bucketStartNs + width - 1) :
    bucketArchives records bucket =
      if bucket.bucketStartNs.toNat + width.toNat ≤ 2 ^ 64 then
        ((records.filter (inBucket width bucket.bucketStartNs)).map (·.archiveOrdinal)).toFinset
      else ∅ := by
  have hstart := bucket.bucketStartNs.toNat_lt
  have hwidth' := width.toNat_lt
  have hvalue : bucket.bucketEndNs.toNat =
      (bucket.bucketStartNs.toNat + width.toNat - 1) % 2 ^ 64 := by
    rw [hend, UInt64.toNat_sub, UInt64.toNat_add]
    show (2 ^ 64 - 1 + _) % 2 ^ 64 = _
    omega
  split
  · next hfits =>
    have hsame : (records.filter fun ref => ref.captureTimeNs ≥ bucket.bucketStartNs
        ∧ ref.captureTimeNs ≤ bucket.bucketEndNs) =
        records.filter (inBucket width bucket.bucketStartNs) := by
      refine List.filter_congr fun ref _ => ?_
      rw [inBucket, decide_eq_decide, @UInt64.le_iff_toNat_le ref.captureTimeNs, hvalue,
        Nat.mod_eq_of_lt (by omega)]
      refine and_congr_right fun _ => ?_
      omega
    rw [bucketArchives, hsame]
  · next hwraps =>
    have hnone : (records.filter fun ref => ref.captureTimeNs ≥ bucket.bucketStartNs
        ∧ ref.captureTimeNs ≤ bucket.bucketEndNs) = [] := by
      refine List.filter_eq_nil_iff.mpr fun ref _ hin => ?_
      obtain ⟨hge, hle⟩ := of_decide_eq_true hin
      rw [UInt64.le_iff_toNat_le, hvalue] at hle
      rw [ge_iff_le, UInt64.le_iff_toNat_le] at hge
      omega
    rw [bucketArchives, hnone]
    rfl

/-- A bucket holds what its records say, and it counts their archives where it ends at a time. -/
structure ArchiveTimeBucket.Exact (records : List ArchiveCollectionRecordRef) (width : UInt64)
    (bucket : ArchiveTimeBucket) : Prop where
  aligned : width.toNat ∣ bucket.bucketStartNs.toNat
  nonempty : ∃ ref ∈ records, inBucket width bucket.bucketStartNs ref
  ends : bucket.bucketEndNs = bucket.bucketStartNs + width - 1
  counted : bucket.recordCount =
    UInt64.ofNat (records.countP (inBucket width bucket.bucketStartNs))
  payload : bucket.payloadBytes =
    ((records.filter (inBucket width bucket.bucketStartNs)).map (·.payloadSize)).sum
  archives : bucket.archiveCount = UInt64.ofNat
    (if bucket.bucketStartNs.toNat + width.toNat ≤ 2 ^ 64 then
      ((records.filter (inBucket width bucket.bucketStartNs)).map (·.archiveOrdinal)).toFinset.card
    else 0)

/-- The last loop of `build_archive_time_buckets`. -/
def countArchives (records : List ArchiveCollectionRecordRef) (bucket : ArchiveTimeBucket) :
    ArchiveTimeBucket :=
  { bucket with archiveCount := UInt64.ofNat (bucketArchives records bucket).card }

theorem time_buckets_eq (collection : ArchiveCollection) (bucketWidthNs : UInt64) :
    buildArchiveTimeBuckets collection bucketWidthNs =
      ((filledBuckets collection.records (usedWidth bucketWidthNs)).map
        (countArchives collection.records)).values := rfl

/-- A bucket that was filled is exact. -/
theorem exact_of_lookup {records : List ArchiveCollectionRecordRef} {width start : UInt64}
    (hwidth : 0 < width.toNat) {bucket : ArchiveTimeBucket}
    (h : (filledBuckets records width).lookup start = some bucket) :
    bucket.bucketStartNs = start ∧ (countArchives records bucket).Exact records width := by
  rw [lookup_filled_buckets] at h
  split at h
  · cases h
  · next hsome =>
    obtain ⟨ref, href⟩ := List.exists_mem_of_ne_nil _ hsome
    obtain ⟨hrecord, hstart⟩ := List.mem_filter.mp href
    have haligned : width.toNat ∣ start.toNat :=
      of_decide_eq_true hstart ▸ dvd_bucket_start hwidth ref.captureTimeNs
    have hown : (records.filter fun ref => bucketStart ref.captureTimeNs width = start) =
        records.filter (inBucket width start) := List.filter_congr fun ref _ =>
      Bool.eq_iff_iff.mpr (decide_eq_true_iff.trans (bucket_start_eq_iff hwidth haligned))
    rw [hown] at h href
    obtain rfl := Option.some.inj h
    refine ⟨rfl, haligned, ⟨ref, hrecord, (List.mem_filter.mp href).2⟩, rfl, ?_, rfl, ?_⟩
    · exact congrArg UInt64.ofNat List.countP_eq_length_filter.symm
    · show UInt64.ofNat (bucketArchives records _).card = _
      rw [bucket_archives_eq records hwidth rfl]
      by_cases hfits : start.toNat + width.toNat ≤ 2 ^ 64
      · rw [if_pos hfits]
        exact congrArg UInt64.ofNat (if_pos hfits).symm
      · rw [if_neg hfits]
        exact congrArg UInt64.ofNat (if_neg hfits).symm

/-- A record adds one to its bucket. -/
theorem count_in_bucket_counts (start width : UInt64) (ref : ArchiveCollectionRecordRef)
    (held : Option ArchiveTimeBucket) : (countInBucket start width ref held).recordCount =
      held.elim 0 (·.recordCount) + 1 := by
  cases held with
  | none => rfl
  | some bucket =>
      rw [countInBucket, Option.getD_some]
      split <;> rfl

/-- A record adds its bytes to its bucket. -/
theorem count_in_bucket_payload (start width : UInt64) (ref : ArchiveCollectionRecordRef)
    (held : Option ArchiveTimeBucket) : (countInBucket start width ref held).payloadBytes =
      held.elim 0 (·.payloadBytes) + ref.payloadSize := by
  cases held with
  | none => rfl
  | some bucket =>
      rw [countInBucket, Option.getD_some]
      split <;> rfl

/-- What every record adds to its bucket adds up to what all records add. -/
theorem sum_buckets {weight : ArchiveTimeBucket → UInt64}
    {amount : ArchiveCollectionRecordRef → UInt64}
    (hcount : ∀ start width ref held,
      weight (countInBucket start width ref held) = held.elim 0 weight + amount ref)
    (collection : ArchiveCollection) (bucketWidthNs : UInt64)
    (harchives : ∀ bucket, weight (countArchives collection.records bucket) = weight bucket) :
    ((buildArchiveTimeBuckets collection bucketWidthNs).map weight).sum =
      (collection.records.map amount).sum := by
  have hvalues : (buildArchiveTimeBuckets collection bucketWidthNs).map weight =
      (filledBuckets collection.records (usedWidth bucketWidthNs)).values.map weight := by
    rw [time_buckets_eq, SortedTable.values_map, List.map_map]
    exact List.map_congr_left fun bucket _ => harchives bucket
  rw [hvalues]
  exact (@SortedTable.sum_foldl_update _ _ _ _ _ _ _ _ _ _ _
    (fun ref : ArchiveCollectionRecordRef =>
      bucketStart ref.captureTimeNs (usedWidth bucketWidthNs))
    (fun ref => countInBucket (bucketStart ref.captureTimeNs (usedWidth bucketWidthNs))
      (usedWidth bucketWidthNs) ref)
    (fun _ _ => True) weight amount (fun _ _ _ => trivial) (fun ref held _ => hcount _ _ ref held)
    collection.records ∅ fun _ _ _ => trivial).trans (zero_add _)

theorem bucket_count_sum (collection : ArchiveCollection) (bucketWidthNs : UInt64) :
    ((buildArchiveTimeBuckets collection bucketWidthNs).map (·.recordCount)).sum =
      UInt64.ofNat collection.records.length := by
  rw [← sum_ones]
  exact sum_buckets (fun start width ref held => count_in_bucket_counts start width ref held)
    collection bucketWidthNs fun _ => rfl

theorem bucket_payload_sum (collection : ArchiveCollection) (bucketWidthNs : UInt64) :
    ((buildArchiveTimeBuckets collection bucketWidthNs).map (·.payloadBytes)).sum =
      (collection.records.map (·.payloadSize)).sum :=
  sum_buckets (fun start width ref held => count_in_bucket_payload start width ref held)
    collection bucketWidthNs fun _ => rfl

/-- **Time buckets.** For every collection and width, the buckets come in ascending order, each
starts at a multiple of the width and counts exactly the records of its period, and every record is
in the period of exactly one of them. The archives of a bucket are counted unless its period reaches
beyond the largest time; then its end wraps around and the count is zero. -/
theorem time_buckets_exact (collection : ArchiveCollection) (bucketWidthNs : UInt64) :
    let buckets := buildArchiveTimeBuckets collection bucketWidthNs
    (buckets.Pairwise fun left right => left.bucketStartNs < right.bucketStartNs) ∧
      (∀ bucket ∈ buckets, bucket.Exact collection.records (usedWidth bucketWidthNs)) ∧
      (∀ ref ∈ collection.records, ∃! bucket, bucket ∈ buckets ∧
        inBucket (usedWidth bucketWidthNs) bucket.bucketStartNs ref) ∧
      (buckets.map (·.recordCount)).sum = UInt64.ofNat collection.records.length ∧
      (buckets.map (·.payloadBytes)).sum = (collection.records.map (·.payloadSize)).sum := by
  intro buckets
  have hwidth := used_width_pos bucketWidthNs
  let filled := filledBuckets collection.records (usedWidth bucketWidthNs)
  have hmem (bucket : ArchiveTimeBucket) : bucket ∈ buckets ↔
      ∃ start held, filled.lookup start = some held ∧
        countArchives collection.records held = bucket := by
    show bucket ∈ (filled.map _).values ↔ _
    simp only [SortedTable.mem_values_iff, SortedTable.lookup_map, Option.map_eq_some_iff]
    rfl
  have hexact : ∀ bucket ∈ buckets,
      bucket.Exact collection.records (usedWidth bucketWidthNs) := by
    intro bucket hbucket
    obtain ⟨start, held, hlookup, rfl⟩ := (hmem bucket).mp hbucket
    exact (exact_of_lookup hwidth hlookup).2
  have hsorted : buckets.Pairwise fun left right => left.bucketStartNs < right.bucketStartNs := by
    show ((filled.map _).entries.map Prod.snd).Pairwise _
    have hkey : ∀ entry ∈ filled.entries, entry.2.bucketStartNs = entry.1 := fun entry hentry =>
      (exact_of_lookup hwidth (SortedTable.mem_entries_iff.mp hentry)).1
    refine List.pairwise_map.mpr (List.pairwise_map.mpr (filled.sorted.imp_of_mem ?_))
    intro left right hleft hright hlt
    rw [← hkey left hleft, ← hkey right hright] at hlt
    exact hlt
  refine ⟨hsorted, hexact, fun ref href => ?_, bucket_count_sum collection bucketWidthNs,
    bucket_payload_sum collection bucketWidthNs⟩
  let start := bucketStart ref.captureTimeNs (usedWidth bucketWidthNs)
  have hstarts (bucket : ArchiveTimeBucket) (hbucket : bucket ∈ buckets) :
      inBucket (usedWidth bucketWidthNs) bucket.bucketStartNs ref = true ↔
        start = bucket.bucketStartNs :=
    (bucket_start_eq_iff hwidth (hexact bucket hbucket).aligned).symm
  have hfilled := @lookup_filled_buckets collection.records (usedWidth bucketWidthNs) start
  dsimp only at hfilled
  rw [if_neg (List.ne_nil_of_mem (List.mem_filter.mpr ⟨href, decide_eq_true rfl⟩))] at hfilled
  have hbucket := (hmem _).mpr ⟨start, _, hfilled, rfl⟩
  refine ⟨_, ⟨hbucket, (hstarts _ hbucket).mpr rfl⟩, ?_⟩
  rintro other ⟨hother, hin⟩
  -- buckets with one start are one bucket
  have hnodup : (buckets.map (·.bucketStartNs)).Nodup :=
    List.pairwise_map.mpr (hsorted.imp UInt64.ne_of_lt)
  exact List.inj_on_of_nodup_map hnodup hother hbucket ((hstarts other hother).mp hin).symm

/-! ## Sums over devices -/

/-- The sum over some items is one over all, with zeros. -/
theorem sum_filter {α : Type} (keep : α → Bool) (weight : α → UInt64) (items : List α) :
    ((items.filter keep).map weight).sum =
      (items.map fun item => if keep item then weight item else 0).sum := by
  induction items with
  | nil => rfl
  | cons item items ih =>
      rw [List.filter_cons, List.map_cons, List.sum_cons, ← ih]
      split
      · rw [List.map_cons, List.sum_cons]
      · rw [UInt64.zero_add]

/-- Where each item counts for the value of its device, the values of some devices add up to the
amounts of the items of these devices. -/
theorem sum_by_device {α β κ : Type} [LT κ] [DecidableEq κ] [LE κ] [Std.LawfulOrderLT κ]
    [DecidableLT κ] [Std.IsLinearOrder κ] {key : α → κ} {change : α → Option β → β}
    {good : κ → β → Prop} {device : β → DeviceId} {deviceOf : α → DeviceId} {count : β → UInt64}
    {amount : α → UInt64}
    (hgood : ∀ item held, (∀ value ∈ held, good (key item) value) →
      good (key item) (change item held))
    (hdevice : ∀ item value, good (key item) value → device value = deviceOf item)
    (hcount : ∀ item held, count (change item held) = held.elim 0 count + amount item)
    (devices : DeviceId → Bool) (items : List α) :
    (((items.foldl (fun table item => table.update (key item) (change item))
        (∅ : SortedTable κ β)).values.filter fun value => devices (device value)).map count).sum =
      ((items.filter fun item => devices (deviceOf item)).map amount).sum := by
  let weight (value : β) : UInt64 := if devices (device value) then count value else 0
  have hchange : ∀ item held, (∀ value ∈ held, good (key item) value) →
      weight (change item held) =
        held.elim 0 weight + if devices (deviceOf item) then amount item else 0 := by
    intro item held hheld
    have hnew := hdevice item _ (hgood item held hheld)
    have hold : held.elim 0 weight = if devices (deviceOf item) then held.elim 0 count else 0 := by
      cases held with
      | none => exact (ite_self 0).symm
      | some value => exact hdevice item value (hheld value rfl) ▸ rfl
    rw [hold]
    show (if devices (device (change item held)) then _ else _) = _
    rw [hnew, hcount]
    split
    · rfl
    · rfl
  rw [sum_filter, sum_filter]
  exact (SortedTable.sum_foldl_update hgood hchange items fun _ _ h => by cases h).trans
    (zero_add _)

/-! ## The views of the devices -/

/-- The references of the devices. -/
def refsOf (devices : DeviceId → Bool) (collection : ArchiveCollection) :
    List ArchiveCollectionRecordRef :=
  collection.records.filter fun ref => devices ref.device

/-- Sorting the points of timelines changes none of their sums. -/
theorem sum_timelines {count : DeviceTimeline → UInt64}
    {amount : ArchiveCollectionRecordRef → UInt64}
    (hsort : ∀ timeline : DeviceTimeline,
      count { timeline with points := stableSort pointBefore timeline.points } = count timeline)
    (hcount : ∀ (ref : ArchiveCollectionRecordRef) (held : Option DeviceTimeline),
      count (updateTimeline { held.getD {} with device := ref.device } (makeTimelinePoint ref)) =
        held.elim 0 count + amount ref)
    (devices : DeviceId → Bool) (collection : ArchiveCollection) :
    (((timelineMap collection).values.filter fun timeline => devices timeline.device).map
        count).sum = ((refsOf devices collection).map amount).sum := by
  rw [timelineMap, SortedTable.values_map, List.filter_map, List.map_map]
  have hsame : ∀ timelines : List DeviceTimeline, timelines.map (count ∘ fun timeline =>
      { timeline with points := stableSort pointBefore timeline.points }) =
        timelines.map count := fun timelines =>
    List.map_congr_left fun timeline _ => hsort timeline
  rw [hsame]
  exact @sum_by_device _ _ _ _ _ _ _ _ _ _ _ (fun device timeline => timeline.device = device)
    DeviceTimeline.device ArchiveCollectionRecordRef.device count amount
    (fun ref held _ => update_timeline_device _ _) (fun _ _ h => h) hcount devices
    collection.records

/-- The points of the timelines are the records of their devices. -/
theorem timeline_points_sum (devices : DeviceId → Bool) (collection : ArchiveCollection) :
    (((timelineMap collection).values.filter fun timeline => devices timeline.device).map
        fun timeline => UInt64.ofNat timeline.points.length).sum =
      UInt64.ofNat (refsOf devices collection).length := by
  rw [← sum_ones]
  refine sum_timelines (fun timeline => ?_) (fun ref held => ?_) devices collection
  · exact congrArg UInt64.ofNat (stable_sort_perm pointBefore timeline.points).length_eq
  · rw [update_timeline_points, List.length_append, UInt64.ofNat_add]
    cases held <;> rfl

theorem update_timeline_payload (timeline : DeviceTimeline) (point : DeviceTimelinePoint) :
    (updateTimeline timeline point).totalPayloadBytes =
      timeline.totalPayloadBytes + point.payloadSize := by
  unfold updateTimeline
  split <;> rfl

theorem timeline_payload_sum (devices : DeviceId → Bool) (collection : ArchiveCollection) :
    (((timelineMap collection).values.filter fun timeline => devices timeline.device).map
        (·.totalPayloadBytes)).sum = ((refsOf devices collection).map (·.payloadSize)).sum := by
  refine sum_timelines (fun _ => rfl) (fun ref held => ?_) devices collection
  rw [update_timeline_payload]
  cases held <;> rfl

/-- The ranks of the devices count every record. -/
theorem rank_sum {count : DevicePayloadRank → UInt64}
    {amount : ArchiveCollectionRecordRef → UInt64}
    (hcount : ∀ ref held, count (countPayload ref held) = held.elim 0 count + amount ref)
    {sortRanks : List DevicePayloadRank → List DevicePayloadRank}
    (hsort : ∀ ranks, (sortRanks ranks).Perm ranks) (devices : DeviceId → Bool)
    (collection : ArchiveCollection) :
    (((rankDevicesByPayload sortRanks collection).filter fun rank => devices rank.device).map
      count).sum = ((refsOf devices collection).map amount).sum := by
  refine (((hsort _).filter _).map _).sum_eq.trans ?_
  refine @sum_by_device _ _ _ _ _ _ _ _ _ _ _ (fun device rank => rank.device = device)
    DevicePayloadRank.device ArchiveCollectionRecordRef.device count amount
    (fun ref held hheld => ?_) (fun _ _ h => h) hcount devices collection.records
  cases held with
  | none => rfl
  | some rank => exact hheld rank rfl

/-! ## Kinds -/

section Disks

variable {κ : Type} {disk : Disk Path κ}

/-- The cell of a key has the device and the kind of the key. -/
def CellAt (key : ℕ ×ₗ ℕ) (cell : DeviceKindMatrixCell) : Prop :=
  cellKey cell.device cell.kind = key

theorem device_of_cell {device : DeviceId} {kind : PacketKind} {cell : DeviceKindMatrixCell}
    (h : CellAt (cellKey device kind) cell) : cell.device = device :=
  UInt64.toNat_inj.mp (congrArg (fun key => (ofLex key).1) h)

/-- The table of located records by device and kind. -/
def kindCounts (items : List LocatedRecord) : SortedTable (ℕ ×ₗ ℕ) DeviceKindMatrixCell :=
  items.foldl (fun counts item =>
    countKind counts item.record.packet.device item.record.packet.kind) ∅

/-- The records are found again, and each is counted with its kind. -/
theorem count_kinds_located {items : List LocatedRecord}
    (hload : ∀ item ∈ items, loadCollectionRecord disk item.ref = .ok (some item.record)) :
    countKinds disk (items.map LocatedRecord.ref) ∅ = .ok (kindCounts items) := by
  have hall (counts : SortedTable (ℕ ×ₗ ℕ) DeviceKindMatrixCell) :
      countKinds disk (items.map LocatedRecord.ref) counts =
        .ok (items.foldl (fun counts item =>
          countKind counts item.record.packet.device item.record.packet.kind) counts) := by
    induction items generalizing counts with
    | nil => rfl
    | cons item items ih =>
        obtain ⟨hfirst, hrest⟩ := List.forall_mem_cons.mp hload
        rw [List.map_cons, countKinds, hfirst]
        exact ih hrest _
  exact hall ∅

/-- The cells of the matrix count every packet. -/
theorem kind_sum {sortCells : List DeviceKindMatrixCell → List DeviceKindMatrixCell}
    (hsort : ∀ cells, (sortCells cells).Perm cells) (devices : DeviceId → Bool)
    (items : List LocatedRecord) :
    (((sortCells (kindCounts items).values).filter fun cell => devices cell.device).map
        (·.recordCount)).sum =
      UInt64.ofNat (items.filter fun item => devices item.record.packet.device).length := by
  rw [← sum_ones]
  refine (((hsort _).filter _).map _).sum_eq.trans ?_
  refine @sum_by_device _ _ _ _ _ _ _ _ _ _ _ CellAt DeviceKindMatrixCell.device
    (fun item : LocatedRecord => item.record.packet.device) _ _ (fun item held hheld => ?_)
    (fun _ _ h => device_of_cell h) (fun item held => ?_) devices items
  · cases held with
    | none => rfl
    | some cell => exact hheld cell rfl
  · cases held <;> rfl

/-! ## Reports -/

/-- The sorts of the views that count records rearrange them. -/
structure StatisticsSorts.Permute (sorts : StatisticsSorts) : Prop where
  timelines : ∀ items, (sorts.timelines items).Perm items
  ranks : ∀ items, (sorts.ranks items).Perm items
  cells : ∀ items, (sorts.cells items).Perm items

theorem summary_record_count (collection : ArchiveCollection) :
    (summarizeCollection collection).recordCount = UInt64.ofNat collection.records.length := by
  unfold summarizeCollection
  split
  · next hnone => rw [hnone]; rfl
  · next hsome => rw [hsome]

/-- The collected records of some devices are the records of these devices in the archives. -/
theorem collected_of_devices (disk : Disk Path κ) (paths : List Path)
    (devices : DeviceId → Bool) :
    (((collectedRecords disk paths).filter fun item => devices item.record.packet.device).map
        LocatedRecord.record).Perm
      ((paths.flatMap fun path => archiveRecords (disk.read path)).filter fun record =>
        devices record.packet.device) := by
  have hlocated := located_filter_records disk (fun record => devices record.packet.device)
    paths.zipIdx
  rw [List.zipIdx_map_fst] at hlocated
  rw [List.filter_flatMap, ← hlocated]
  exact ((collected_perm disk paths).filter _).map _

/-- The references of some devices are as many as the records of these devices, with the same
payloads. -/
theorem refs_of_collected {paths : List Path} {collection : ArchiveCollection}
    (hrecords : collection.records = (collectedRecords disk paths).map LocatedRecord.ref)
    (devices : DeviceId → Bool) :
    let own := (paths.flatMap fun path => archiveRecords (disk.read path)).filter fun record =>
      devices record.packet.device
    (refsOf devices collection).length = own.length ∧
      ((refsOf devices collection).map (·.payloadSize)).sum = (own.map (·.payloadSize)).sum := by
  intro own
  have hown : refsOf devices collection =
      ((collectedRecords disk paths).filter fun item => devices item.record.packet.device).map
        LocatedRecord.ref := by
    rw [refsOf, hrecords, List.filter_map]
    rfl
  have hperm := collected_of_devices disk paths devices
  constructor
  · rw [hown, List.length_map, ← hperm.length_eq, List.length_map]
  · have hsum := (hperm.map (·.payloadSize)).sum_eq
    rw [List.map_map] at hsum
    rw [hown, List.map_map]
    exact hsum

/-- **Accounts.** For all archives that can be read, a report is made, and its views agree on the
records of the archives: the summary, the density and the time buckets count all of them with their
payloads, and for any devices the timelines, the payload ranking and the kinds count the records of
these devices, with their payloads. -/
theorem statistics_account {paths : List Path} (h : ReadableArchives disk paths)
    {sorts : StatisticsSorts} (hsorts : sorts.Permute) (bucketWidthNs gapThresholdNs : UInt64) :
    ∃ collection report, buildArchiveCollection disk paths = .ok collection ∧
      buildArchiveStatisticsReport sorts disk collection bucketWidthNs gapThresholdNs =
        .ok report ∧
      let records := paths.flatMap fun path => archiveRecords (disk.read path)
      let payload (records : List ArchiveRecord) := (records.map (·.payloadSize)).sum
      report.summary.recordCount = UInt64.ofNat records.length ∧
      report.density = ⟨UInt64.ofNat paths.length, UInt64.ofNat records.length, payload records⟩ ∧
      (report.timeBuckets.map (·.recordCount)).sum = UInt64.ofNat records.length ∧
      (report.timeBuckets.map (·.payloadBytes)).sum = payload records ∧
      ∀ devices : DeviceId → Bool,
        let own := records.filter fun record => devices record.packet.device
        let timelines := report.deviceTimelines.filter fun timeline => devices timeline.device
        let ranks := report.payloadRanking.filter fun rank => devices rank.device
        let cells := report.deviceKindMatrix.filter fun cell => devices cell.device
        (timelines.map fun timeline => UInt64.ofNat timeline.points.length).sum =
            UInt64.ofNat own.length ∧
          (timelines.map (·.totalPayloadBytes)).sum = payload own ∧
          (ranks.map (·.recordCount)).sum = UInt64.ofNat own.length ∧
          (ranks.map (·.payloadBytes)).sum = payload own ∧
          (cells.map (·.recordCount)).sum = UInt64.ofNat own.length := by
  obtain ⟨collection, hbuild, hrecords⟩ := collection_records h
  obtain ⟨other, hother, harchives⟩ := collection_archives h
  obtain rfl : collection = other := Except.ok.inj (hbuild.symm.trans hother)
  have hcells := count_kinds_located (load_collected h)
  rw [← hrecords] at hcells
  have hreport : ∃ report, buildArchiveStatisticsReport sorts disk collection bucketWidthNs
      gapThresholdNs = .ok report ∧ report =
        { summary := summarizeCollection collection
          timeBuckets := buildArchiveTimeBuckets collection bucketWidthNs
          deviceTimelines := buildDeviceTimelines sorts.timelines collection
          gaps := detectArchiveGaps sorts.timelines sorts.gaps collection gapThresholdNs
          overlaps := detectArchiveOverlaps sorts.overlaps collection
          sequenceAnomalies := detectSequenceAnomalies sorts.timelines sorts.anomalies collection
          payloadRanking := rankDevicesByPayload sorts.ranks collection
          deviceKindMatrix := sorts.cells (kindCounts (collectedRecords disk paths)).values
          density := calculateArchiveDensity collection } := by
    rw [buildArchiveStatisticsReport, buildDeviceKindMatrix, hcells]
    exact ⟨_, rfl, rfl⟩
  obtain ⟨report, hmake, rfl⟩ := hreport
  refine ⟨collection, _, hbuild, hmake, ?_⟩
  intro records payload
  have hlength (devices : DeviceId → Bool) : (refsOf devices collection).length =
      (records.filter fun record => devices record.packet.device).length :=
    (refs_of_collected hrecords devices).1
  have hpayload (devices : DeviceId → Bool) :
      ((refsOf devices collection).map (·.payloadSize)).sum =
        payload (records.filter fun record => devices record.packet.device) :=
    (refs_of_collected hrecords devices).2
  have hall : refsOf (fun _ => true) collection = collection.records :=
    List.filter_eq_self.mpr fun _ _ => rfl
  have hcount : collection.records.length = records.length := by
    have hevery := hlength fun _ => true
    rwa [hall, List.filter_eq_self.mpr fun _ _ => rfl] at hevery
  have htotal : (collection.records.map (·.payloadSize)).sum = payload records := by
    have hevery := hpayload fun _ => true
    rwa [hall, List.filter_eq_self.mpr fun _ _ => rfl] at hevery
  have htimelines (devices : DeviceId → Bool) :
      ((buildDeviceTimelines sorts.timelines collection).filter fun timeline =>
        devices timeline.device).Perm
          ((timelineMap collection).values.filter fun timeline => devices timeline.device) :=
    (hsorts.timelines _).filter _
  refine ⟨?_, ?_, ?_, ?_, fun devices => ⟨?_, ?_, ?_, ?_, ?_⟩⟩
  · rw [← hcount]
    exact summary_record_count collection
  · rw [← hcount, ← htotal, harchives.length_eq]
    rfl
  · rw [← hcount]
    exact bucket_count_sum collection bucketWidthNs
  · rw [← htotal]
    exact bucket_payload_sum collection bucketWidthNs
  · rw [← hlength, ← timeline_points_sum]
    exact ((htimelines devices).map _).sum_eq
  · rw [← hpayload, ← timeline_payload_sum]
    exact ((htimelines devices).map _).sum_eq
  · rw [← hlength, ← sum_ones]
    exact rank_sum (fun ref held => by cases held <;> rfl) hsorts.ranks devices collection
  · rw [← hpayload]
    exact rank_sum (fun ref held => by cases held <;> rfl) hsorts.ranks devices collection
  · rw [← (collected_of_devices disk paths devices).length_eq, List.length_map]
    exact kind_sum hsorts.cells devices _

end Disks

/-- A stable sort is one of the sorts that may be used. -/
def stableSorts : StatisticsSorts where
  timelines := stableSort timelineBefore
  gaps := stableSort gapBefore
  overlaps := stableSort overlapBefore
  anomalies := stableSort anomalyBefore
  ranks := stableSort rankBefore
  cells := stableSort cellBefore

/-- The account of the report over two archives. -/
theorem account_of_days :
    ∃ collection report, buildArchiveCollection daysDisk days = .ok collection ∧
      buildArchiveStatisticsReport stableSorts daysDisk collection 1000 0 = .ok report ∧
      report.summary.recordCount =
        UInt64.ofNat (days.flatMap fun path => archiveRecords (daysDisk.read path)).length := by
  obtain ⟨collection, report, hbuild, hreport, hcount, -⟩ := @statistics_account _ daysDisk
    days days_readable stableSorts
    ⟨stable_sort_perm _, stable_sort_perm _, stable_sort_perm _⟩ 1000 0
  exact ⟨collection, report, hbuild, hreport, hcount⟩

end Aethon.Storage
