import Mathlib.Data.Prod.Lex
import Aethon.Storage.ArchiveCollection
import Aethon.Storage.AuditFindings

/-!
# The records of a collection

A located record is a record with its archive and the place of that in the list. The references of
a collection are those of the located records, sorted stably by capture time: the archives of the
list and the offsets of a file come in order, so the comparison by time, archive and offset has
nothing left to choose. `collection_source` says the same of the references that a query looks at.
-/

namespace Aethon.Storage

open FileSystem Limits Protocol StableSort Parsing

/-- A record with the archive that it is in. -/
structure LocatedRecord where
  ordinal : Nat
  path : Path
  record : ArchiveRecord
  deriving DecidableEq

namespace LocatedRecord

/-- The reference for a record. -/
def ref (item : LocatedRecord) : ArchiveCollectionRecordRef where
  path := item.path
  archiveOrdinal := item.ordinal
  offset := item.record.offset
  captureTimeNs := item.record.captureTimeNs
  payloadSize := item.record.payloadSize
  device := item.record.packet.device
  sequence := item.record.packet.sequence

/-- The comparison by capture time. -/
def earlier (left right : LocatedRecord) : Bool :=
  recordEarlier left.record right.record

/-- The place of a record: its archive, then its offset. -/
def place (item : LocatedRecord) : ℕ ×ₗ ℕ :=
  toLex (item.ordinal, item.record.offset.toNat)

end LocatedRecord

/-! ## Orders -/

/-- The time of a reference. -/
def refTime (ref : ArchiveCollectionRecordRef) : ℕ :=
  ref.captureTimeNs.toNat

/-- The place of the record that a reference is for. -/
def refPlace (ref : ArchiveCollectionRecordRef) : ℕ ×ₗ ℕ :=
  toLex (ref.archiveOrdinal, ref.offset.toNat)

theorem ref_earlier_compares : Compares refEarlier refTime := by
  intro left right
  rw [refEarlier, decide_eq_true_iff, UInt64.lt_iff_toNat_lt, refTime, refTime]

theorem record_earlier_compares :
    Compares recordEarlier fun record => record.captureTimeNs.toNat := by
  intro left right
  rw [recordEarlier, decide_eq_true_iff, UInt64.lt_iff_toNat_lt]

theorem earlier_compares :
    Compares LocatedRecord.earlier fun item => item.record.captureTimeNs.toNat :=
  fun left right => record_earlier_compares left.record right.record

/-- References in order are those with earlier times, then with earlier places. -/
theorem by_time_iff {left right : ArchiveCollectionRecordRef} :
    byTime left right = true ↔ Before refTime refPlace left right := by
  simp only [Before, refTime, refPlace, Prod.Lex.toLex_lt_toLex, UInt64.toNat_inj,
    ← UInt64.lt_iff_toNat_lt]
  unfold byTime
  by_cases htime : left.captureTimeNs = right.captureTimeNs
  · by_cases hordinal : left.archiveOrdinal = right.archiveOrdinal
    · simp [htime, hordinal]
    · simp [htime, hordinal]
  · simp [htime]

/-- References that stand at different places are in one order, whatever order they come in. -/
theorem sort_by_time_eq {refs placed : List ArchiveCollectionRecordRef} (hperm : refs.Perm placed)
    (hplaces : placed.Pairwise fun left right => refPlace left < refPlace right) :
    stableSort byTime refs = stableSort refEarlier placed := by
  have hall : (stableSort byTime refs).Perm placed := (stable_sort_perm byTime refs).trans hperm
  have hdifferent : refs.Pairwise fun left right => refPlace left ≠ refPlace right :=
    (hperm.pairwise_iff Ne.symm).mpr (hplaces.imp ne_of_lt)
  exact stable_sort_unique ref_earlier_compares hplaces
    (pairwise_sort (fun _ _ => by_time_iff) hdifferent) hall

/-! ## The collected references -/

/-- The references of the entries in the order in which they are added. -/
def entryRefs (entries : List ArchiveCollectionEntry) : List ArchiveCollectionRecordRef :=
  entries.flatMap fun archive => archive.index.records.map (makeRef archive)

/-- Adding references appends each to the list of its device as well. -/
theorem add_record_refs (refs : List ArchiveCollectionRecordRef) (collection : ArchiveCollection)
    (device : DeviceId) :
    (refs.foldl addRecordRef collection).records = collection.records ++ refs ∧
      (refs.foldl addRecordRef collection).recordsByDevice[device]?.getD [] =
        collection.recordsByDevice[device]?.getD [] ++ refs.filter (·.device = device) := by
  induction refs generalizing collection with
  | nil => exact ⟨(List.append_nil _).symm, (List.append_nil _).symm⟩
  | cons ref refs ih =>
    obtain ⟨hrecords, hdevice⟩ := ih (addRecordRef collection ref)
    rw [List.foldl_cons, hrecords, hdevice]
    refine ⟨List.append_assoc .., ?_⟩
    have hinsert : (addRecordRef collection ref).recordsByDevice[device]? =
        if device = ref.device then
          some (collection.recordsByDevice[ref.device]?.getD [] ++ [ref])
        else collection.recordsByDevice[device]? := OrderedMap.getElem?_insert _ _ _ _
    rw [hinsert]
    by_cases hsame : device = ref.device
    · rw [if_pos hsame, List.filter_cons_of_pos (by simpa using hsame.symm), hsame,
        Option.getD_some, List.append_assoc, List.singleton_append]
    · rw [if_neg hsame, List.filter_cons_of_neg (by simpa using fun h => hsame h.symm)]

/-- The references that a query looks at are those of its device, in the order of the sort. -/
theorem source_collection_of (entries : List ArchiveCollectionEntry) (query : ArchiveQuery) :
    ((collectionOf entries).source query).getD [] =
      (stableSort byTime (entryRefs entries)).filter fun ref =>
        query.device.all (ref.device = ·) := by
  have hfold : entries.foldl (fun collection archive => archive.index.records.foldl
        (fun collection record => addRecordRef collection (makeRef archive record)) collection)
      { archives := entries } = (entryRefs entries).foldl addRecordRef { archives := entries } := by
    simp only [entryRefs, List.foldl_flatMap, List.foldl_map]
  rw [collectionOf, hfold, ArchiveCollection.source]
  rcases query.device with _ | device
  · show stableSort byTime _ = _
    rw [(add_record_refs (entryRefs entries) _ 0).1]
    exact (List.filter_eq_self.mpr fun _ _ => rfl).symm
  · have hmap : (sortCollection ((entryRefs entries).foldl addRecordRef
        { archives := entries })).recordsByDevice[device]? =
        ((entryRefs entries).foldl addRecordRef
          { archives := entries }).recordsByDevice[device]?.map (stableSort byTime) :=
      Std.ExtTreeMap.getElem?_map
    have hsorted : ∀ refs : Option (List ArchiveCollectionRecordRef),
        (refs.map (stableSort byTime)).getD [] = stableSort byTime (refs.getD []) := by
      intro refs
      cases refs with
      | none => exact (stable_sort_nil byTime).symm
      | some refs => rfl
    have hdevice := (add_record_refs (entryRefs entries) { archives := entries } device).2
    dsimp only
    rw [hmap, hsorted, hdevice, filter_stable_sort (compares_lex fun _ _ => by_time_iff)]
    rfl

section Disks

variable {κ : Type} {disk : Disk Path κ}

/-- The records of archives, each with its place in the list, in the order of the files. -/
def locatedAt (disk : Disk Path κ) (places : List (Path × Nat)) : List LocatedRecord :=
  places.flatMap fun (path, ordinal) =>
    (archiveRecords (disk.read path)).map fun record => ⟨ordinal, path, record⟩

theorem locatedAt_cons (disk : Disk Path κ) (place : Path × Nat) (places : List (Path × Nat)) :
    locatedAt disk (place :: places) =
      (archiveRecords (disk.read place.1)).map (LocatedRecord.mk place.2 place.1) ++
        locatedAt disk places := rfl

/-- The records of the archives at the paths, in their order. -/
def locatedRecords (disk : Disk Path κ) (paths : List Path) : List LocatedRecord :=
  locatedAt disk paths.zipIdx

/-- What a collection lists: the located records by their capture times. -/
def collectedRecords (disk : Disk Path κ) (paths : List Path) : List LocatedRecord :=
  stableSort LocatedRecord.earlier (locatedRecords disk paths)

/-- Located records come in the order of their places. -/
theorem located_in_order (disk : Disk Path κ) (paths : List Path) :
    (locatedRecords disk paths).Pairwise fun left right => left.place < right.place := by
  refine List.pairwise_flatMap.mpr ⟨?_, ?_⟩
  · rintro ⟨path, ordinal⟩ -
    refine List.pairwise_map.mpr ((offsets_increase disk path).imp fun hlt => ?_)
    exact Prod.Lex.toLex_lt_toLex.mpr (.inr ⟨rfl, UInt64.lt_iff_toNat_lt.mp hlt⟩)
  · have hordinals : paths.zipIdx.Pairwise fun left right => left.2 < right.2 := by
      rw [← List.pairwise_map, List.zipIdx_map_snd]
      exact List.pairwise_lt_range'
    refine hordinals.imp ?_
    rintro ⟨path, ordinal⟩ ⟨path', ordinal'⟩ hlt item hitem item' hitem'
    obtain ⟨record, -, rfl⟩ := List.mem_map.mp hitem
    obtain ⟨record', -, rfl⟩ := List.mem_map.mp hitem'
    exact Prod.Lex.toLex_lt_toLex.mpr (.inl hlt)

/-- A located record is from its archive. -/
theorem located_source {paths : List Path} {item : LocatedRecord}
    (h : item ∈ locatedRecords disk paths) :
    item.path ∈ paths ∧ item.record ∈ archiveRecords (disk.read item.path) := by
  obtain ⟨⟨path, ordinal⟩, hplace, hitem⟩ := List.mem_flatMap.mp h
  obtain ⟨record, hrecord, rfl⟩ := List.mem_map.mp hitem
  exact ⟨List.mem_of_getElem? (List.mem_zipIdx_iff_getElem?.mp hplace), hrecord⟩

/-- The entry of a readable archive holds the references of its records. -/
theorem build_entry_refs {path : Path} {header : ArchiveSummary} {records : List ArchiveRecord}
    (h : readArchive (disk.read path) = .ok (header, records)) (ordinal : Nat) :
    ∃ entry, buildEntry disk path ordinal = .ok entry ∧
      (entry.index.records.map (makeRef entry)).Perm
        ((records.map (LocatedRecord.mk ordinal path)).map LocatedRecord.ref) := by
  obtain ⟨index, hindex, hperm⟩ := build_archive_index_perm h
  let entry : ArchiveCollectionEntry :=
    { path, manifest := manifestOf header records, index, ordinal }
  refine ⟨entry, ?_, ?_⟩
  · rw [buildEntry, build_manifest_of_read h, hindex]
    rfl
  · have hrefs := hperm.map (makeRef entry)
    rw [List.map_map] at hrefs ⊢
    exact hrefs

/-- Archives that can be read become entries. -/
theorem build_entries {places : List (Path × Nat)}
    (h : ∀ place ∈ places, ∃ header records,
      readArchive (disk.read place.1) = .ok (header, records)) :
    ∃ entries, (places.mapM fun place => buildEntry disk place.1 place.2) = .ok entries ∧
      (entryRefs entries).Perm ((locatedAt disk places).map LocatedRecord.ref) := by
  induction places with
  | nil => exact ⟨[], rfl, List.Perm.nil⟩
  | cons place places ih =>
    obtain ⟨header, records, hrecords⟩ := h place List.mem_cons_self
    obtain ⟨entry, hentry, hrefs⟩ := build_entry_refs hrecords place.2
    obtain ⟨entries, hentries, hrest⟩ :=
      ih fun other hother => h other (List.mem_cons_of_mem _ hother)
    refine ⟨entry :: entries, by rw [List.mapM_cons, hentry, hentries]; rfl, ?_⟩
    rw [locatedAt_cons, List.map_append, entryRefs, List.flatMap_cons]
    refine List.Perm.append ?_ hrest
    simp only [archiveRecords, hrecords]
    exact hrefs

theorem earlier_ref (left right : LocatedRecord) :
    left.earlier right = refEarlier left.ref right.ref := rfl

/-- The references that a query looks at are those of the collected records of its device. -/
theorem collection_source {paths : List Path} (h : ReadableArchives disk paths) :
    ∃ collection, buildArchiveCollection disk paths = .ok collection ∧
      ∀ query : ArchiveQuery, (collection.source query).getD [] =
        ((collectedRecords disk paths).filter fun item =>
          query.device.all (item.record.packet.device = ·)).map LocatedRecord.ref := by
  have hread : ∀ place ∈ paths.zipIdx, ∃ header records,
      readArchive (disk.read place.1) = .ok (header, records) := fun place hplace =>
    h place.1 (List.mem_of_getElem? (List.mem_zipIdx_iff_getElem?.mp hplace))
  obtain ⟨entries, hentries, hperm⟩ := build_entries hread
  refine ⟨collectionOf entries, by rw [buildArchiveCollection, hentries]; rfl, fun query => ?_⟩
  have hplaces : ((locatedRecords disk paths).map LocatedRecord.ref).Pairwise fun left right =>
      refPlace left < refPlace right :=
    List.pairwise_map.mpr (located_in_order disk paths)
  rw [source_collection_of, sort_by_time_eq hperm hplaces, collectedRecords,
    ← map_stable_sort earlier_ref, List.filter_map]
  rfl

/-- The references are those of the collected records. -/
theorem collection_records {paths : List Path} (h : ReadableArchives disk paths) :
    ∃ collection, buildArchiveCollection disk paths = .ok collection ∧
      collection.records = (collectedRecords disk paths).map LocatedRecord.ref := by
  obtain ⟨collection, hbuild, hsource⟩ := collection_source h
  have hall : (collectedRecords disk paths).filter (fun item =>
      ({} : ArchiveQuery).device.all (item.record.packet.device = ·)) =
        collectedRecords disk paths := List.filter_eq_self.mpr fun _ _ => rfl
  exact ⟨collection, hbuild, (hsource {}).trans (congrArg (List.map LocatedRecord.ref) hall)⟩

end Disks

end Aethon.Storage
