import Aethon.Storage.ArchiveStatistics
import Aethon.Storage.CatalogSelection
import Aethon.Storage.CollectionRecords

/-!
# Archives that share a period

An archive covers the times from its first record to its last one. Two archives of a collection are
reported exactly when some time is covered by both, and the report names these times:
`archive_overlaps_exact`.
-/

namespace Aethon.Storage

open FileSystem Protocol Parsing Words

/-! ## Pairs -/

/-- The pairs of two elements of a list in their order. -/
def orderedPairs {α : Type} : List α → List (α × α)
  | [] => []
  | first :: items => items.map (first, ·) ++ orderedPairs items

/-- The overlaps are those of the ordered pairs whose periods meet. -/
theorem overlap_pairs_eq (archives : List ArchiveCollectionEntry) :
    overlapPairs archives = ((orderedPairs archives).filter fun pair =>
      archivesHaveTimeOverlap pair.1 pair.2).map fun pair => makeOverlap pair.1 pair.2 := by
  induction archives with
  | nil => rfl
  | cons left archives ih =>
      rw [overlapPairs, orderedPairs, List.filter_append, List.map_append, ih, List.filter_map,
        List.map_map]
      rfl

/-- Pairs of related lists are related. -/
theorem forall₂_ordered_pairs {α β : Type} {R : α → β → Prop} {items : List α} {others : List β}
    (h : List.Forall₂ R items others) :
    List.Forall₂ (fun pair other => R pair.1 other.1 ∧ R pair.2 other.2) (orderedPairs items)
      (orderedPairs others) := by
  induction h with
  | nil => exact List.Forall₂.nil
  | @cons first other items others hfirst hrest ih =>
      refine List.rel_append (List.forall₂_map_left_iff.mpr (List.forall₂_map_right_iff.mpr ?_)) ih
      exact hrest.imp fun _ _ hrel => ⟨hfirst, hrel⟩

/-! ## Covered times -/

/-- The time is not before all records of an archive and not behind all of them. -/
def Covers (records : List ArchiveRecord) (time : UInt64) : Prop :=
  (∃ record ∈ records, record.captureTimeNs ≤ time) ∧
    ∃ record ∈ records, time ≤ record.captureTimeNs

instance (records : List ArchiveRecord) (time : UInt64) : Decidable (Covers records time) :=
  inferInstanceAs (Decidable (_ ∧ _))

/-- Some time is covered by both archives. -/
def SharePeriod (left right : List ArchiveRecord) : Prop :=
  ∃ time, Covers left time ∧ Covers right time

noncomputable instance (left right : List ArchiveRecord) : Decidable (SharePeriod left right) :=
  Classical.propDecidable _

/-- The times from the first record to the last one. -/
structure Spans (records : List ArchiveRecord) (first last : UInt64) : Prop where
  first_mem : ∃ record ∈ records, record.captureTimeNs = first
  last_mem : ∃ record ∈ records, record.captureTimeNs = last
  between : ∀ record ∈ records, first ≤ record.captureTimeNs ∧ record.captureTimeNs ≤ last

/-- An archive covers the times from its first to its last. -/
theorem Spans.covers_iff {records : List ArchiveRecord} {first last : UInt64}
    (h : Spans records first last) {time : UInt64} :
    Covers records time ↔ first ≤ time ∧ time ≤ last := by
  constructor
  · rintro ⟨⟨early, hearly, hbefore⟩, late, hlate, hbehind⟩
    exact ⟨(h.between early hearly).1.trans hbefore, hbehind.trans (h.between late hlate).2⟩
  · rintro ⟨hfirst, hlast⟩
    obtain ⟨early, hearly, rfl⟩ := h.first_mem
    obtain ⟨late, hlate, rfl⟩ := h.last_mem
    exact ⟨⟨early, hearly, hfirst⟩, late, hlate, hlast⟩

theorem Spans.first_le {records : List ArchiveRecord} {first last : UInt64}
    (h : Spans records first last) : first ≤ last := by
  obtain ⟨record, hrecord, rfl⟩ := h.first_mem
  exact (h.between record hrecord).2

/-- The header that describes records has the times that they span. -/
theorem spans_of_describes {summary : ArchiveSummary} {records : List ArchiveRecord}
    (h : Describes summary (records.map ArchiveRecord.entry)) (hne : records ≠ []) :
    Spans records summary.firstTimeNs summary.lastTimeNs := by
  have htimes : (records.map ArchiveRecord.entry).map Prod.fst =
      records.map ArchiveRecord.captureTimeNs := by
    rw [List.map_map]
    rfl
  have hbetween : ∀ record ∈ records, summary.firstTimeNs ≤ record.captureTimeNs ∧
      record.captureTimeNs ≤ summary.lastTimeNs := fun record hrecord =>
    describes_time h (List.mem_map_of_mem hrecord)
  obtain ⟨record, hrecord⟩ := List.exists_mem_of_ne_nil records hne
  have hmem := List.mem_map_of_mem (f := ArchiveRecord.captureTimeNs) hrecord
  obtain ⟨-, hfirst, hlast⟩ := h
  rw [htimes] at hfirst hlast
  obtain ⟨least, hleast⟩ := Option.isSome_iff_exists.mp (List.isSome_min?_of_mem hmem)
  obtain ⟨greatest, hgreatest⟩ := Option.isSome_iff_exists.mp (List.isSome_max?_of_mem hmem)
  rw [hleast, Option.getD_some] at hfirst
  rw [hgreatest, Option.getD_some] at hlast
  refine ⟨?_, ?_, hbetween⟩
  · rw [hfirst]
    exact List.mem_map.mp (List.min?_mem hleast)
  · rw [hlast]
    exact List.mem_map.mp (List.max?_mem hgreatest)

/-! ## Entries -/

/-- The entry of a collection describes the records of an archive. -/
structure EntryOf (records : List ArchiveRecord) (entry : ArchiveCollectionEntry) : Prop where
  summary : Describes entry.manifest.summary (records.map ArchiveRecord.entry)
  index : entry.index.records.Perm (records.map ArchiveRecord.indexEntry)

theorem EntryOf.record_count {records : List ArchiveRecord} {entry : ArchiveCollectionEntry}
    (h : EntryOf records entry) : entry.manifest.summary.recordCount = 0 ↔ records = [] := by
  rw [← UInt64.toNat_inj, h.summary.1, List.length_map]
  exact List.length_eq_zero_iff

theorem EntryOf.spans {records : List ArchiveRecord} {entry : ArchiveCollectionEntry}
    (h : EntryOf records entry) (hne : records ≠ []) :
    Spans records entry.manifest.summary.firstTimeNs entry.manifest.summary.lastTimeNs :=
  spans_of_describes h.summary hne

/-- Two archives are reported when some time is covered by both. -/
theorem archives_overlap_iff {left right : List ArchiveRecord}
    {leftEntry rightEntry : ArchiveCollectionEntry} (hleft : EntryOf left leftEntry)
    (hright : EntryOf right rightEntry) :
    archivesHaveTimeOverlap leftEntry rightEntry = true ↔ SharePeriod left right := by
  have hcounts : leftEntry.manifest.summary.recordCount = 0 ∨
      rightEntry.manifest.summary.recordCount = 0 ↔ left = [] ∨ right = [] :=
    or_congr hleft.record_count hright.record_count
  unfold archivesHaveTimeOverlap
  by_cases hempty : left = [] ∨ right = []
  · rw [if_pos (hcounts.mpr hempty)]
    refine iff_of_false Bool.false_ne_true ?_
    rintro ⟨time, ⟨⟨record, hrecord, -⟩, -⟩, ⟨record', hrecord', -⟩, -⟩
    rcases hempty with rfl | rfl
    · exact List.not_mem_nil hrecord
    · exact List.not_mem_nil hrecord'
  · rw [if_neg fun h => hempty (hcounts.mp h), decide_eq_true_iff]
    have hspans := hleft.spans fun hnil => hempty (.inl hnil)
    have hspans' := hright.spans fun hnil => hempty (.inr hnil)
    simp only [SharePeriod, hspans.covers_iff, hspans'.covers_iff]
    constructor
    · rintro ⟨hbefore, hbehind⟩
      exact ⟨_, ⟨le_max_left _ _, max_le hspans.first_le hbehind⟩, le_max_right _ _,
        max_le hbefore hspans'.first_le⟩
    · rintro ⟨time, ⟨hfirst, hlast⟩, hfirst', hlast'⟩
      exact ⟨hfirst.trans hlast', hfirst'.trans hlast⟩

/-- An overlap names the times that both archives cover and counts their records in these. -/
structure ArchiveOverlap.Exact (left right : List ArchiveRecord) (overlap : ArchiveOverlap) :
    Prop where
  covered : ∀ time, overlap.overlapStartNs ≤ time ∧ time ≤ overlap.overlapEndNs ↔
    Covers left time ∧ Covers right time
  ordered : overlap.overlapStartNs ≤ overlap.overlapEndNs
  span : overlap.overlapSpanNs = overlap.overlapEndNs - overlap.overlapStartNs
  leftRecords : overlap.leftRecordsInOverlap = UInt64.ofNat (left.countP fun record =>
    overlap.overlapStartNs ≤ record.captureTimeNs ∧ record.captureTimeNs ≤ overlap.overlapEndNs)
  rightRecords : overlap.rightRecordsInOverlap = UInt64.ofNat (right.countP fun record =>
    overlap.overlapStartNs ≤ record.captureTimeNs ∧ record.captureTimeNs ≤ overlap.overlapEndNs)
  starts : ∃ record ∈ left ++ right, record.captureTimeNs = overlap.overlapStartNs
  ends : ∃ record ∈ left ++ right, record.captureTimeNs = overlap.overlapEndNs

theorem EntryOf.count_records {records : List ArchiveRecord} {entry : ArchiveCollectionEntry}
    (h : EntryOf records entry) (startNs endNs : UInt64) :
    countRecordsInWindow entry startNs endNs = UInt64.ofNat (records.countP fun record =>
      startNs ≤ record.captureTimeNs ∧ record.captureTimeNs ≤ endNs) := by
  rw [countRecordsInWindow, h.index.countP_eq, List.countP_map]
  rfl

/-- The overlap of two archives that share a time is exact. -/
theorem make_overlap_exact {left right : List ArchiveRecord}
    {leftEntry rightEntry : ArchiveCollectionEntry} (hleft : EntryOf left leftEntry)
    (hright : EntryOf right rightEntry) {time : UInt64} (hcovered : Covers left time)
    (hcovered' : Covers right time) :
    (makeOverlap leftEntry rightEntry).Exact left right := by
  have hspans := hleft.spans (List.ne_nil_of_mem hcovered.1.choose_spec.1)
  have hspans' := hright.spans (List.ne_nil_of_mem hcovered'.1.choose_spec.1)
  have hle := hspans.covers_iff.mp hcovered
  have hle' := hspans'.covers_iff.mp hcovered'
  have hordered : (makeOverlap leftEntry rightEntry).overlapStartNs ≤
      (makeOverlap leftEntry rightEntry).overlapEndNs :=
    (max_le hle.1 hle'.1).trans (le_min hle.2 hle'.2)
  have hfrom {time bound : UInt64} {records : List ArchiveRecord} (hsub : records ⊆ left ++ right)
      (h : ∃ record ∈ records, record.captureTimeNs = time) (hbound : bound = time) :
      ∃ record ∈ left ++ right, record.captureTimeNs = bound := by
    obtain ⟨record, hrecord, htime⟩ := h
    exact ⟨record, hsub hrecord, htime.trans hbound.symm⟩
  refine ⟨fun other => ?_, hordered, if_pos hordered, hleft.count_records _ _,
    hright.count_records _ _, ?_, ?_⟩
  · rw [hspans.covers_iff, hspans'.covers_iff]
    show max _ _ ≤ other ∧ other ≤ min _ _ ↔ _
    rw [max_le_iff, le_min_iff]
    exact and_and_and_comm
  · rcases max_choice leftEntry.manifest.summary.firstTimeNs
      rightEntry.manifest.summary.firstTimeNs with hmax | hmax
    · exact hfrom (List.subset_append_left _ _) hspans.first_mem hmax
    · exact hfrom (List.subset_append_right _ _) hspans'.first_mem hmax
  · rcases min_choice leftEntry.manifest.summary.lastTimeNs
      rightEntry.manifest.summary.lastTimeNs with hmin | hmin
    · exact hfrom (List.subset_append_left _ _) hspans.last_mem hmin
    · exact hfrom (List.subset_append_right _ _) hspans'.last_mem hmin

section Disks

variable {κ : Type} {disk : Disk Path κ}

/-- An archive that was read becomes an entry of its records. -/
theorem build_entry_of {path : Path} {header : ArchiveSummary} {records : List ArchiveRecord}
    (h : readArchive (disk.read path) = .ok (header, records)) (ordinal : Nat) :
    ∃ entry, buildEntry disk path ordinal = .ok entry ∧ entry.path = path ∧
      EntryOf records entry := by
  obtain ⟨index, hindex, hperm⟩ := build_archive_index_perm h
  let entry : ArchiveCollectionEntry :=
    { path, manifest := manifestOf header records, index, ordinal }
  refine ⟨entry, ?_, rfl, ?_, hperm⟩
  · rw [buildEntry, build_manifest_of_read h, hindex]
    rfl
  · rcases hfile : disk.read path with _ | content
    · rw [hfile] at h
      cases h
    · rw [hfile] at h
      have hsize := Disk.read_addressable hfile
      exact (manifest_exact (records_of_read h (by omega)).2).summary

/-- The archives of a collection are described in the order of their paths. -/
theorem collection_archives {paths : List Path} (h : ReadableArchives disk paths) :
    ∃ collection, buildArchiveCollection disk paths = .ok collection ∧
      List.Forall₂ (fun path entry => entry.path = path ∧
        EntryOf (archiveRecords (disk.read path)) entry) paths collection.archives := by
  have hentries (places : List (Path × Nat)) (hplaces : ∀ place ∈ places, place.1 ∈ paths) :
      ∃ entries, (places.mapM fun place => buildEntry disk place.1 place.2) = .ok entries ∧
        List.Forall₂ (fun path entry => entry.path = path ∧
          EntryOf (archiveRecords (disk.read path)) entry) (places.map Prod.fst) entries := by
    induction places with
    | nil => exact ⟨[], rfl, List.Forall₂.nil⟩
    | cons place places ih =>
      obtain ⟨hfirst, hrest⟩ := List.forall_mem_cons.mp hplaces
      obtain ⟨header, hread⟩ := read_archive_of_readable h hfirst
      obtain ⟨entry, hentry, hdescribes⟩ := build_entry_of hread place.2
      obtain ⟨entries, hbuild, hall⟩ := ih hrest
      exact ⟨entry :: entries, by rw [List.mapM_cons, hentry, hbuild]; rfl, .cons hdescribes hall⟩
  obtain ⟨entries, hbuild, hall⟩ := hentries paths.zipIdx fun place hplace =>
    List.mem_of_getElem? (List.mem_zipIdx_iff_getElem?.mp hplace)
  rw [List.zipIdx_map_fst] at hall
  have hkept (refs : List ArchiveCollectionRecordRef) (collection : ArchiveCollection) :
      (refs.foldl addRecordRef collection).archives = collection.archives := by
    induction refs generalizing collection with
    | nil => rfl
    | cons ref refs ih => rw [List.foldl_cons, ih]; rfl
  have harchives : (collectionOf entries).archives = entries := by
    have hfold := hkept (entryRefs entries) { archives := entries }
    simp only [entryRefs, List.foldl_flatMap, List.foldl_map] at hfold
    exact hfold
  exact ⟨collectionOf entries, by rw [buildArchiveCollection, hbuild]; rfl, harchives.symm ▸ hall⟩

/-- **Overlaps.** For all archives that can be read, the pairs of archives that are reported are, in
some order, those of which some time is covered by both, each pair once. Every report names exactly
the times that both cover, they begin and end with a record, and it counts the records in them. -/
theorem archive_overlaps_exact {paths : List Path} (h : ReadableArchives disk paths)
    {sortOverlaps : List ArchiveOverlap → List ArchiveOverlap}
    (hsort : ∀ overlaps, (sortOverlaps overlaps).Perm overlaps) :
    ∃ collection, buildArchiveCollection disk paths = .ok collection ∧
      ∃ found : List (Path × Path), found.Perm ((orderedPairs paths).filter fun pair =>
          SharePeriod (archiveRecords (disk.read pair.1)) (archiveRecords (disk.read pair.2))) ∧
        List.Forall₂ (fun pair overlap => overlap.leftArchive = pair.1 ∧
            overlap.rightArchive = pair.2 ∧
            overlap.Exact (archiveRecords (disk.read pair.1)) (archiveRecords (disk.read pair.2)))
          found (detectArchiveOverlaps sortOverlaps collection) := by
  obtain ⟨collection, hbuild, hentries⟩ := collection_archives h
  refine ⟨collection, hbuild, ?_⟩
  let report (overlap : ArchiveOverlap) (pair : Path × Path) : Prop :=
    overlap.leftArchive = pair.1 ∧ overlap.rightArchive = pair.2 ∧
      overlap.Exact (archiveRecords (disk.read pair.1)) (archiveRecords (disk.read pair.2))
  have hreports : List.Forall₂ report (overlapPairs collection.archives)
      ((orderedPairs paths).filter fun pair =>
        SharePeriod (archiveRecords (disk.read pair.1)) (archiveRecords (disk.read pair.2))) := by
    have hall := forall₂_ordered_pairs hentries
    rw [overlap_pairs_eq]
    generalize orderedPairs paths = pairs, orderedPairs collection.archives = entries at hall ⊢
    induction hall with
    | nil => exact List.Forall₂.nil
    | @cons pair entries pairs others hpair hrest ih =>
      obtain ⟨⟨hleftPath, hleft⟩, hrightPath, hright⟩ := hpair
      have hiff := archives_overlap_iff hleft hright
      rw [List.filter_cons, List.filter_cons]
      by_cases hshared : SharePeriod (archiveRecords (disk.read pair.1))
          (archiveRecords (disk.read pair.2))
      · rw [if_pos (hiff.mpr hshared), if_pos (decide_eq_true hshared), List.map_cons]
        obtain ⟨time, hcovered, hcovered'⟩ := hshared
        exact .cons ⟨hleftPath, hrightPath, make_overlap_exact hleft hright hcovered hcovered'⟩ ih
      · rw [if_neg fun h => hshared (hiff.mp h),
          if_neg fun h => hshared (of_decide_eq_true h)]
        exact ih
  have hperm : (detectArchiveOverlaps sortOverlaps collection).Perm
      (overlapPairs collection.archives) := by
    unfold detectArchiveOverlaps
    split
    · next hfew =>
      rcases harchives : collection.archives with _ | ⟨first, _ | ⟨second, archives⟩⟩
      · exact List.Perm.nil
      · exact List.Perm.nil
      · rw [harchives, List.length_cons, List.length_cons] at hfew
        exact absurd hfew (by omega)
    · exact hsort _
  -- the pairs follow the order of the reports
  obtain ⟨found, hfound, hpairs⟩ := List.perm_comp_forall₂ hperm hreports
  exact ⟨found, hpairs, hfound.flip⟩

end Disks

/-- The second shift begins before the last record of the first. -/
theorem archive_overlaps_of_shifts :
    ∃ collection overlap, buildArchiveCollection shiftsDisk shifts = .ok collection ∧
      detectArchiveOverlaps id collection = [overlap] ∧
      overlap.leftArchive = ⟨"early.ath"⟩ ∧ overlap.rightArchive = ⟨"late.ath"⟩ ∧
      overlap.Exact (recordsAt 36 earlyShift) (recordsAt 36 lateShift) := by
  obtain ⟨collection, hbuild, found, hperm, hreports⟩ := @archive_overlaps_exact _ _ _
    shifts_readable id fun overlaps => List.Perm.refl overlaps
  have hearly : archiveRecords (shiftsDisk.read ⟨"early.ath"⟩) = recordsAt 36 earlyShift := by
    rw [archiveRecords, read_shifts.1]
  have hlate : archiveRecords (shiftsDisk.read ⟨"late.ath"⟩) = recordsAt 36 lateShift := by
    rw [archiveRecords, read_shifts.2]
  have hshared : SharePeriod (recordsAt 36 earlyShift) (recordsAt 36 lateShift) :=
    ⟨2000, by decide +kernel, by decide +kernel⟩
  have hpairs : (orderedPairs shifts).filter (fun pair => SharePeriod
      (archiveRecords (shiftsDisk.read pair.1)) (archiveRecords (shiftsDisk.read pair.2))) =
      [(⟨"early.ath"⟩, ⟨"late.ath"⟩)] := by
    show List.filter _ [((⟨"early.ath"⟩ : Path), (⟨"late.ath"⟩ : Path))] = _
    rw [List.filter_cons_of_pos, List.filter_nil]
    simpa only [decide_eq_true_eq, hearly, hlate] using hshared
  rw [hpairs] at hperm
  obtain rfl := List.perm_singleton.mp hperm
  obtain ⟨overlap, _, ⟨hleft, hright, hexact⟩, hnone, hoverlap⟩ :=
    List.forall₂_cons_left_iff.mp hreports
  obtain rfl := List.forall₂_nil_left_iff.mp hnone
  rw [hearly, hlate] at hexact
  exact ⟨collection, overlap, hbuild, hoverlap, hleft, hright, hexact⟩

end Aethon.Storage
