import Aethon.Foundation.GreedyBlocks
import Aethon.Storage.ArchiveRotation
import Aethon.Storage.ManifestAggregates

/-!
# The limits of a rotation

`WithinLimits` says in naturals what a policy asks of the records of a shard. The counters of the
shard that is being filled decide it for one more record: `boundary_reason_none_iff`.
-/

namespace Aethon.Storage

open GreedyBlocks

/-- The bytes of the payloads of some records. -/
def payloadTotal (records : List RotationRecordProjection) : Nat :=
  (records.map fun record => record.payloadSize.toNat).sum

/-- The estimate for a file with these records, without a bound on numbers. -/
def estimatedTotal (records : List RotationRecordProjection) : Nat :=
  36 + (records.map fun record => 16 + record.payloadSize.toNat).sum

/-- Records that exceed no limit of the policy. A limit of zero is no limit. -/
structure WithinLimits (policy : RotationPolicy) (records : List RotationRecordProjection) :
    Prop where
  recordCount : policy.maxRecordsPerArchive ≠ 0 →
    records.length ≤ policy.maxRecordsPerArchive.toNat
  payload : policy.maxPayloadBytesPerArchive ≠ 0 →
    payloadTotal records ≤ policy.maxPayloadBytesPerArchive.toNat
  span : policy.maxCaptureSpanNs ≠ 0 → ∀ first ∈ records, ∀ last ∈ records,
    last.captureTimeNs.toNat - first.captureTimeNs.toNat ≤ policy.maxCaptureSpanNs.toNat
  fileBytes : policy.maxEstimatedFileBytes ≠ 0 →
    estimatedTotal records ≤ policy.maxEstimatedFileBytes.toNat
  idleGap : policy.idleGapNs ≠ 0 → records.IsChain fun earlier later =>
    later.captureTimeNs.toNat - earlier.captureTimeNs.toNat ≤ policy.idleGapNs.toNat

/-! ## The counters of a shard -/

/-- The shard of some records, without an output. -/
def shardOf (records : List RotationRecordProjection) : RotationShard :=
  records.foldl appendRecord { estimatedFileBytes := archiveHeaderBytes }

theorem shardOf_concat (records : List RotationRecordProjection)
    (record : RotationRecordProjection) :
    shardOf (records ++ [record]) = appendRecord (shardOf records) record := by
  simp [shardOf]

theorem payloadTotal_concat (records : List RotationRecordProjection)
    (record : RotationRecordProjection) :
    payloadTotal (records ++ [record]) = payloadTotal records + record.payloadSize.toNat := by
  simp [payloadTotal]

theorem estimatedTotal_concat (records : List RotationRecordProjection)
    (record : RotationRecordProjection) : estimatedTotal (records ++ [record]) =
      estimatedTotal records + (16 + record.payloadSize.toNat) := by
  simp [estimatedTotal, Nat.add_assoc]

/-- The estimate is the header, sixteen bytes for each record, and the payloads. -/
theorem payload_length_le_estimated (records : List RotationRecordProjection) :
    payloadTotal records + 16 * records.length + 36 = estimatedTotal records := by
  induction records using List.reverseRecOn with
  | nil => rfl
  | append_singleton records record ih =>
      rw [payloadTotal_concat, estimatedTotal_concat, List.length_append, List.length_singleton]
      omega

/-- The counters say what the shard holds. -/
structure Counts (shard : RotationShard) (records : List RotationRecordProjection) : Prop where
  content : shard.records = records
  count : shard.recordCount.toNat = records.length
  payload : shard.payloadBytes.toNat = payloadTotal records
  fileBytes : shard.estimatedFileBytes.toNat = estimatedTotal records
  first : ∀ first ∈ records.head?, shard.firstTimeNs = first.captureTimeNs
  last : ∀ last ∈ records.getLast?, shard.lastTimeNs = last.captureTimeNs

/-- A record behind others in order is no earlier than they are. -/
theorem times_le_of_in_order {records : List RotationRecordProjection}
    {record : RotationRecordProjection}
    (h : InOrder ((records ++ [record]).map RotationRecordProjection.captureTimeNs)) :
    ∀ earlier ∈ records, earlier.captureTimeNs ≤ record.captureTimeNs := by
  rw [List.map_append, InOrder, List.pairwise_append] at h
  exact fun earlier hearlier =>
    h.2.2 _ (List.mem_map_of_mem hearlier) _ (List.mem_singleton_self _)

/-! What the shard would hold with one more record. The sums stay in their words because the
estimated size does. -/

section Another

variable {shard : RotationShard} {records : List RotationRecordProjection}
  {record : RotationRecordProjection}

theorem Counts.count_eq_zero_iff (h : Counts shard records) :
    shard.recordCount = 0 ↔ records = [] := by
  rw [← UInt64.toNat_inj, h.count]
  exact List.length_eq_zero_iff

/-- One more record is counted. -/
theorem Counts.count_another (h : Counts shard records)
    (hsize : estimatedTotal (records ++ [record]) < 2 ^ 64) :
    (shard.recordCount + 1).toNat = (records ++ [record]).length := by
  have htotal := payload_length_le_estimated records
  rw [estimatedTotal_concat] at hsize
  have hfits : shard.recordCount.toNat + (1 : UInt64).toNat < 2 ^ 64 := by
    rw [h.count]
    show _ + 1 < _
    omega
  rw [Words.toNat_add_of_lt hfits, h.count, List.length_append]
  rfl

theorem Counts.payload_another (h : Counts shard records)
    (hsize : estimatedTotal (records ++ [record]) < 2 ^ 64) :
    (shard.payloadBytes + record.payloadSize).toNat = payloadTotal (records ++ [record]) := by
  have htotal := payload_length_le_estimated (records ++ [record])
  rw [payloadTotal_concat, ← h.payload] at htotal ⊢
  exact Words.toNat_add_of_lt (by omega)

theorem toNat_overhead_add (hsize : estimatedTotal (records ++ [record]) < 2 ^ 64) :
    (archiveRecordOverheadBytes + record.payloadSize).toNat = 16 + record.payloadSize.toNat := by
  rw [estimatedTotal_concat] at hsize
  refine Words.toNat_add_of_lt ?_
  show 16 + _ < _
  omega

/-- One more record goes into the estimate of the file. -/
theorem Counts.file_another (h : Counts shard records)
    (hsize : estimatedTotal (records ++ [record]) < 2 ^ 64) :
    (shard.estimatedFileBytes + (archiveRecordOverheadBytes + record.payloadSize)).toNat =
      estimatedTotal (records ++ [record]) := by
  have hrecord := toNat_overhead_add hsize
  rw [estimatedTotal_concat, ← h.fileBytes] at hsize ⊢
  rw [Words.toNat_add_of_lt (by rw [hrecord]; exact hsize), hrecord]

theorem Counts.first_another (h : Counts shard records)
    (hsorted : InOrder ((records ++ [record]).map RotationRecordProjection.captureTimeNs)) :
    ∀ first ∈ records.head?, min shard.firstTimeNs record.captureTimeNs = first.captureTimeNs := by
  intro first hfirst
  rw [h.first first hfirst]
  exact if_pos (times_le_of_in_order hsorted first (List.mem_of_mem_head? hfirst))

/-- One more record is the last in time. -/
theorem Counts.last_another (h : Counts shard records)
    (hsorted : InOrder ((records ++ [record]).map RotationRecordProjection.captureTimeNs)) :
    ∀ last ∈ records.getLast?,
      max shard.lastTimeNs record.captureTimeNs = record.captureTimeNs := by
  intro last hlast
  rw [h.last last hlast]
  exact if_pos (times_le_of_in_order hsorted last (List.mem_of_mem_getLast? hlast))

/-- One more record in time is counted. -/
theorem Counts.append (h : Counts shard records)
    (hsorted : InOrder ((records ++ [record]).map RotationRecordProjection.captureTimeNs))
    (hsize : estimatedTotal (records ++ [record]) < 2 ^ 64) :
    Counts (appendRecord shard record) (records ++ [record]) := by
  have hcount := h.count_another hsize
  have hpayload := h.payload_another hsize
  by_cases hzero : shard.recordCount = 0
  · -- the first record sets the times and the size of the header
    obtain rfl := h.count_eq_zero_iff.mp hzero
    have hrecord := toNat_overhead_add hsize
    have hfile : (archiveHeaderBytes + (archiveRecordOverheadBytes + record.payloadSize)).toNat =
        estimatedTotal [record] := by
      rw [Words.toNat_add_of_lt (by rw [hrecord]; exact hsize), hrecord]
      rfl
    simp only [appendRecord, if_pos hzero]
    exact ⟨by rw [h.content], hcount, hpayload, hfile, by simp, by simp⟩
  · have hne : records ≠ [] := fun hnil => hzero (h.count_eq_zero_iff.mpr hnil)
    simp only [appendRecord, if_neg hzero]
    refine ⟨by rw [h.content], hcount, hpayload, h.file_another hsize, ?_, ?_⟩
    · intro first hfirst
      rw [List.head?_append_of_ne_nil _ hne] at hfirst
      exact h.first_another hsorted first hfirst
    · intro last hlast
      rw [List.getLast?_concat] at hlast
      rw [h.last_another hsorted _ (List.getLast?_eq_some_getLast hne), ← Option.some.inj hlast]

end Another

/-- The counts of an output are those of its records. -/
theorem shard_of_counts {records : List RotationRecordProjection}
    (hsorted : InOrder (records.map RotationRecordProjection.captureTimeNs))
    (hsize : estimatedTotal records < 2 ^ 64) : Counts (shardOf records) records := by
  induction records using List.reverseRecOn with
  | nil => exact ⟨rfl, rfl, rfl, rfl, by simp, by simp⟩
  | append_singleton records record ih =>
      have hfront := hsize
      rw [estimatedTotal_concat] at hfront
      rw [shardOf_concat]
      refine (ih ?_ (by omega)).append hsorted hsize
      rw [List.map_append, List.map_singleton, in_order_concat] at hsorted
      exact hsorted.1

/-! ## Room for one more record -/

/-- A record that exceeds no limit of the policy behind the records of a shard. -/
structure RoomFor (policy : RotationPolicy) (records : List RotationRecordProjection)
    (record : RotationRecordProjection) : Prop where
  recordCount : policy.maxRecordsPerArchive ≠ 0 →
    records.length < policy.maxRecordsPerArchive.toNat
  payload : policy.maxPayloadBytesPerArchive ≠ 0 →
    payloadTotal (records ++ [record]) ≤ policy.maxPayloadBytesPerArchive.toNat
  span : policy.maxCaptureSpanNs ≠ 0 → ∀ first ∈ records.head?,
    record.captureTimeNs.toNat - first.captureTimeNs.toNat ≤ policy.maxCaptureSpanNs.toNat
  fileBytes : policy.maxEstimatedFileBytes ≠ 0 →
    estimatedTotal (records ++ [record]) ≤ policy.maxEstimatedFileBytes.toNat
  idleGap : policy.idleGapNs ≠ 0 → ∀ last ∈ records.getLast?,
    record.captureTimeNs.toNat - last.captureTimeNs.toNat ≤ policy.idleGapNs.toNat

theorem boundary_eq_none_iff {c : Prop} [Decidable c] {reason : RotationReason}
    {rest : Option RotationReason} :
    (if c then some reason else rest) = none ↔ ¬ c ∧ rest = none := by
  by_cases h : c
  · simp [h]
  · simp [h]

/-- The span of a shard with one more record is the one between its first record and that. -/
theorem Counts.span_another {shard : RotationShard} {records : List RotationRecordProjection}
    (h : Counts shard records) {record first : RotationRecordProjection}
    (hsorted : InOrder ((records ++ [record]).map RotationRecordProjection.captureTimeNs))
    (hfirst : records.head? = some first) : (spanAfter shard record).toNat =
      record.captureTimeNs.toNat - first.captureTimeNs.toNat := by
  have hne : records ≠ [] := by
    rintro rfl
    cases hfirst
  have hnonzero : shard.recordCount ≠ 0 := fun hzero => hne (h.count_eq_zero_iff.mp hzero)
  rw [spanAfter, if_neg hnonzero, h.first_another hsorted first hfirst,
    h.last_another hsorted _ (List.getLast?_eq_some_getLast hne)]
  exact UInt64.toNat_sub_of_le _ _
    (times_le_of_in_order hsorted first (List.mem_of_mem_head? hfirst))

/-- No boundary is put in front of the first record of a shard, or of one there is room for. -/
theorem boundary_reason_none_iff {policy : RotationPolicy} {shard : RotationShard}
    {records : List RotationRecordProjection} (h : Counts shard records)
    {record : RotationRecordProjection}
    (hsorted : InOrder ((records ++ [record]).map RotationRecordProjection.captureTimeNs))
    (hsize : estimatedTotal (records ++ [record]) < 2 ^ 64) :
    boundaryReason policy shard record = none ↔ records = [] ∨ RoomFor policy records record := by
  by_cases hzero : shard.recordCount = 0
  · simp [boundaryReason, hzero, h.count_eq_zero_iff.mp hzero]
  have hne : records ≠ [] := fun hnil => hzero (h.count_eq_zero_iff.mpr hnil)
  have hfile : (estimateFileBytesAfter shard record).toNat =
      estimatedTotal (records ++ [record]) := by
    rw [estimateFileBytesAfter, UInt64.add_assoc]
    exact h.file_another hsize
  obtain ⟨first, hfirst⟩ : ∃ first, records.head? = some first :=
    ⟨_, List.head?_eq_some_head hne⟩
  obtain ⟨last, hlast⟩ : ∃ last, records.getLast? = some last :=
    ⟨_, List.getLast?_eq_some_getLast hne⟩
  have hgap : (record.captureTimeNs - last.captureTimeNs).toNat =
      record.captureTimeNs.toNat - last.captureTimeNs.toNat :=
    UInt64.toNat_sub_of_le _ _ (times_le_of_in_order hsorted last (List.mem_of_mem_getLast? hlast))
  simp only [boundaryReason, if_neg hzero, boundary_eq_none_iff, and_true, not_and,
    Nat.not_lt, ge_iff_le, gt_iff_lt, Nat.not_le, UInt64.lt_iff_toNat_lt,
    UInt64.le_iff_toNat_le, h.count, h.payload_another hsize, hfile,
    h.span_another hsorted hfirst, h.last last hlast, hgap, hne, false_or]
  constructor
  · intro hroom
    obtain ⟨hcount, hpayload, hspan, hfile, hidle⟩ := hroom
    refine ⟨hcount, hpayload, ?_, hfile, ?_⟩
    · intro hlimit other hother
      obtain rfl := Option.some.inj (hfirst.symm.trans hother)
      exact hspan hlimit
    · intro hlimit other hother
      obtain rfl := Option.some.inj (hlast.symm.trans hother)
      rcases Nat.lt_or_ge last.captureTimeNs.toNat record.captureTimeNs.toNat with hlt | hge
      · exact hidle hlimit hlt
      · rw [Nat.sub_eq_zero_of_le hge]
        exact Nat.zero_le _
  · intro hroom
    exact ⟨hroom.recordCount, hroom.payload, fun hlimit => hroom.span hlimit first hfirst,
      hroom.fileBytes, fun hlimit _ => hroom.idleGap hlimit last hlast⟩

/-- A record there is no room for does not fit the limits. -/
theorem not_within_of_no_room {policy : RotationPolicy} {records : List RotationRecordProjection}
    {record : RotationRecordProjection} (h : ¬ RoomFor policy records record) :
    ¬ WithinLimits policy (records ++ [record]) := by
  intro hwithin
  refine h ⟨?_, hwithin.payload, ?_, hwithin.fileBytes, ?_⟩
  · intro hlimit
    have hcount := hwithin.recordCount hlimit
    rw [List.length_append, List.length_singleton] at hcount
    omega
  · intro hlimit first hfirst
    exact hwithin.span hlimit first (List.mem_append_left _ (List.mem_of_mem_head? hfirst)) record
      (List.mem_append_right _ (List.mem_singleton_self record))
  · intro hlimit last hlast
    exact (List.isChain_append.mp (hwithin.idleGap hlimit)).2.2 last hlast record rfl

/-- A shard whose records were put in one by one where there was room is within the limits. -/
theorem within_of_room {policy : RotationPolicy} {records : List RotationRecordProjection}
    {record : RotationRecordProjection}
    (hsorted : InOrder ((records ++ [record]).map RotationRecordProjection.captureTimeNs))
    (hroom : RoomFor policy records record) (hnonempty : records ≠ [])
    (hgaps : policy.idleGapNs ≠ 0 → (records ++ [record]).IsChain fun earlier later =>
      later.captureTimeNs.toNat - earlier.captureTimeNs.toNat ≤ policy.idleGapNs.toNat) :
    WithinLimits policy (records ++ [record]) := by
  have hle : ∀ earlier ∈ records ++ [record],
      earlier.captureTimeNs.toNat ≤ record.captureTimeNs.toNat := by
    intro earlier hearlier
    rcases List.mem_append.mp hearlier with hearlier | hearlier
    · exact UInt64.le_iff_toNat_le.mp (times_le_of_in_order hsorted earlier hearlier)
    · rw [List.mem_singleton.mp hearlier]
  refine ⟨?_, hroom.payload, ?_, hroom.fileBytes, hgaps⟩
  · intro hlimit
    rw [List.length_append, List.length_singleton]
    exact hroom.recordCount hlimit
  · intro hlimit
    obtain ⟨head, tail, rfl⟩ := List.exists_cons_of_ne_nil hnonempty
    have hspan := hroom.span hlimit head rfl
    -- no record is earlier than the first one, and none is later than the last one
    have hge : ∀ later ∈ head :: tail ++ [record],
        head.captureTimeNs.toNat ≤ later.captureTimeNs.toNat := by
      intro later hlater
      rcases List.mem_cons.mp hlater with rfl | hlater
      · exact le_rfl
      · have hhead := (List.pairwise_cons.mp hsorted).1 _ (List.mem_map_of_mem hlater)
        exact UInt64.le_iff_toNat_le.mp hhead
    intro first hfirst last hlast
    have := hge first hfirst
    have := hle last hlast
    omega

end Aethon.Storage
