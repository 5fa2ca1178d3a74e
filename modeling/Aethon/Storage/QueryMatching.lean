import Aethon.Storage.ArchiveRecords
import Aethon.Storage.Query

/-!
# What a query finds

The filters of a query as predicates, apart from what they count. `query_archive_spec` says what a
query finds in an archive that is read to its end: the first records that all filters accept.
-/

namespace Aethon.Storage

open Limits Protocol

namespace ArchiveQuery

variable (query : ArchiveQuery)

/-- A time in the bounds of a query. -/
def inTime (captureTimeNs : UInt64) : Bool :=
  query.startTimeNs.all (· ≤ captureTimeNs) && query.endTimeNs.all (captureTimeNs ≤ ·)

/-- A size in the bounds of a query. -/
def inSize (payloadSize : UInt64) : Bool :=
  query.minPayloadSize.all (· ≤ payloadSize) && query.maxPayloadSize.all (payloadSize ≤ ·)

/-- The device that a query asks for. -/
def ofDevice (device : DeviceId) : Bool :=
  query.device.all (device = ·)

/-- The kind that a query asks for. -/
def ofKind (kind : PacketKind) : Bool :=
  query.kind.all (kind = ·)

/-- The filters that an index can answer, all but the packet kind. -/
def passes (record : ArchiveRecord) : Bool :=
  query.inTime record.captureTimeNs && query.ofDevice record.packet.device &&
    query.inSize record.payloadSize

/-- A record that a query finds. -/
def accepts (record : ArchiveRecord) : Bool :=
  query.passes record && query.ofKind record.packet.kind

end ArchiveQuery

/-! ## The filters of the source -/

/-- A bound that is not given refuses nothing. -/
theorem any_eq_not_all {α : Type} {p q : α → Bool} (h : ∀ a, p a = !q a) (bound : Option α) :
    bound.any p = !bound.all q := by
  cases bound with
  | none => rfl
  | some a => exact h a

theorem any_above (bound : Option UInt64) (value : UInt64) :
    bound.any (value < ·) = !bound.all (· ≤ value) := by
  refine any_eq_not_all (fun given => ?_) bound
  rw [← decide_not]
  exact decide_eq_decide.mpr UInt64.not_le.symm

theorem any_below (bound : Option UInt64) (value : UInt64) :
    bound.any (value > ·) = !bound.all (value ≤ ·) := by
  refine any_eq_not_all (fun given => ?_) bound
  rw [← decide_not]
  exact decide_eq_decide.mpr UInt64.not_le.symm

theorem any_different {α : Type} [DecidableEq α] (wanted : Option α) (value : α) :
    wanted.any (value ≠ ·) = !wanted.all (value = ·) :=
  any_eq_not_all (fun _ => decide_not) wanted

/-- A time matches when it is in the bounds. -/
theorem time_matches_fst (captureTimeNs : UInt64) (query : ArchiveQuery)
    (stats : ArchiveQueryStats) :
    (timeMatches captureTimeNs query stats).1 = query.inTime captureTimeNs := by
  unfold timeMatches ArchiveQuery.inTime
  rw [any_above, any_below]
  cases query.startTimeNs.all (· ≤ captureTimeNs) <;>
    cases query.endTimeNs.all (captureTimeNs ≤ ·) <;> rfl

/-- A size matches when it is in the bounds. -/
theorem payload_matches_fst (payloadSize : UInt64) (query : ArchiveQuery)
    (stats : ArchiveQueryStats) :
    (payloadMatches payloadSize query stats).1 = query.inSize payloadSize := by
  unfold payloadMatches ArchiveQuery.inSize
  rw [any_above, any_below]
  cases query.minPayloadSize.all (· ≤ payloadSize) <;>
    cases query.maxPayloadSize.all (payloadSize ≤ ·) <;> rfl

/-- A record matches when the query accepts it. -/
theorem matches_query_fst (record : ArchiveRecord) (query : ArchiveQuery)
    (stats : ArchiveQueryStats) :
    (matchesQuery record query stats).1 = query.accepts record := by
  unfold matchesQuery ArchiveQuery.accepts ArchiveQuery.passes ArchiveQuery.ofDevice
    ArchiveQuery.ofKind
  dsimp only
  rw [time_matches_fst, any_different, any_different]
  cases query.inTime record.captureTimeNs
  · rfl
  cases query.device.all (record.packet.device = ·)
  · rfl
  cases query.kind.all (record.packet.kind = ·)
  · exact (Bool.and_false _).symm
  simp only [Bool.not_true, Bool.false_eq_true, if_false, payload_matches_fst]
  cases query.inSize record.payloadSize <;> rfl

/-! ## The scan of an archive -/

/-- The loop finds the first records that the query accepts. -/
theorem query_records_spec (query : ArchiveQuery) (records : List ArchiveRecord)
    {result : ArchiveQueryResult} (h : ¬Reached query.limit.toNat result.records) :
    (queryRecords query records result).1.records =
      firstOf query.limit.toNat (result.records ++ records.filter query.accepts) := by
  induction records generalizing result with
  | nil => rw [List.filter_nil, List.append_nil, firstOf_of_not_reached h]; rfl
  | cons record records ih =>
    have hmatch := matches_query_fst record query result.stats
    unfold queryRecords
    cases haccepts : query.accepts record with
    | false =>
      rw [List.filter_cons_of_neg (by rw [haccepts]; exact Bool.false_ne_true)]
      simp only [hmatch, haccepts, Bool.not_false, if_true]
      exact ih h
    | true =>
      rw [List.filter_cons_of_pos haccepts,
        List.append_cons result.records record (records.filter query.accepts)]
      simp only [hmatch, haccepts, Bool.not_true, Bool.false_eq_true, if_false]
      split
      · next hreached => rw [firstOf_append_of_reached h hreached]
      · next hreached => exact ih hreached

/-- A query over an archive returns its matching records, up to the limit. -/
theorem query_archive_spec {file : Option Bytes} {header : ArchiveSummary}
    (h : readArchive file = .ok (header, archiveRecords file)) (query : ArchiveQuery) :
    ∃ result, queryArchive file query = .ok result ∧ result.records =
      firstOf query.limit.toNat ((archiveRecords file).filter query.accepts) := by
  obtain ⟨reader, hopen, hdrain, -⟩ := read_archive_reader_iff.mp h
  refine ⟨(queryRecords query (archiveRecords file) {}).1, ?_, ?_⟩
  · rw [queryArchive, hopen]
    show (do
      if !(queryRecords query reader.drain.1 {}).2 then endLoop reader.drain.2
      pure (queryRecords query reader.drain.1 {}).1) = _
    rw [hdrain]
    cases (queryRecords query (archiveRecords file) {}).2 <;> rfl
  · exact query_records_spec query (archiveRecords file) (not_reached_nil _)

/-- Without a limit a query finds all that its filters accept. -/
theorem query_archive_unlimited {file : Option Bytes} {header : ArchiveSummary}
    (h : readArchive file = .ok (header, archiveRecords file)) (query : ArchiveQuery) :
    ∃ result, queryArchive file { query with limit := 0 } = .ok result ∧
      result.records = (archiveRecords file).filter query.accepts :=
  query_archive_spec h { query with limit := 0 }

/-- Queries one after the other find what each of them finds. -/
theorem query_each {α : Type} {items : List α} {answer : α → Except Error ArchiveQueryResult}
    {found : α → List ArchiveRecord}
    (h : ∀ item ∈ items, ∃ result, answer item = .ok result ∧ result.records = found item) :
    ∃ results, items.mapM answer = .ok results ∧
      results.flatMap ArchiveQueryResult.records = items.flatMap found := by
  induction items with
  | nil => exact ⟨[], rfl, rfl⟩
  | cons item items ih =>
      obtain ⟨⟨result, hresult, hfound⟩, hitems⟩ := List.forall_mem_cons.mp h
      obtain ⟨results, hresults, hrest⟩ := ih hitems
      refine ⟨result :: results, by rw [List.mapM_cons, hresult, hresults]; rfl, ?_⟩
      rw [List.flatMap_cons, List.flatMap_cons, hrest, hfound]

end Aethon.Storage
