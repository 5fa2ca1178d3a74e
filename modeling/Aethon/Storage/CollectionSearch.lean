import Aethon.Storage.CollectionRecords
import Aethon.Storage.QueryMatching

/-!
# Searching a collection

A search goes through the references in the order of the collection, filters by them and reads the
records again for their packet kinds. `search_collection_spec` says what it finds among the
collected records, which makes it the scan of the archives in the list, sorted by capture time.
Filtering the references alone leaves the packet kind out.
-/

namespace Aethon.Storage

open FileSystem Limits Protocol StableSort Parsing

variable {κ : Type} {disk : Disk Path κ}

/-! ## Filters -/

/-- Whether a reference matches, by its time, its device and its size. -/
theorem ref_matches_fst (ref : ArchiveCollectionRecordRef) (query : ArchiveQuery)
    (stats : ArchiveQueryStats) :
    (refMatchesQuery ref query stats).1 =
      (query.inTime ref.captureTimeNs && query.ofDevice ref.device &&
        query.inSize ref.payloadSize) := by
  unfold refMatchesQuery ArchiveQuery.ofDevice
  dsimp only
  rw [time_matches_fst, any_different]
  cases query.inTime ref.captureTimeNs
  · rfl
  cases query.device.all (ref.device = ·)
  · rfl
  simp only [Bool.not_true, Bool.false_eq_true, if_false, payload_matches_fst]
  cases query.inSize ref.payloadSize <;> rfl

/-! ## Loading -/

/-- The reference of a record of a readable archive leads back to the record. -/
theorem load_located {item : LocatedRecord}
    (hread : ∃ header records, readArchive (disk.read item.path) = .ok (header, records))
    (hrecord : item.record ∈ archiveRecords (disk.read item.path)) :
    loadCollectionRecord disk item.ref = .ok (some item.record) := by
  obtain ⟨header, records, hread⟩ := hread
  rcases hfile : disk.read item.path with _ | content
  · rw [hfile] at hread
    cases hread
  · rw [hfile] at hread hrecord
    rw [archiveRecords, hread] at hrecord
    have hfound := read_record_at_of_mem hread (Disk.read_addressable hfile) hrecord
    have hpath : disk.read item.ref.path = some content := hfile
    have hload : loadRecordAtOffset (disk.read item.ref.path) item.ref.offset =
        .ok (some item.record) := by
      rw [hpath]
      exact hfound
    rw [loadCollectionRecord, hload]
    show (if _ then _ else _) = _
    rw [if_neg]
    · rfl
    · rintro (h | h | h)
      all_goals exact h rfl

/-! ## The loop -/

/-- The result with one more item. -/
def pushItem (options : CollectionSearchOptions) (result : CollectionSearchResult)
    (item : LocatedRecord) (stats : ArchiveQueryStats) : CollectionSearchResult where
  records := result.records ++ if options.loadRecords then [item.record] else []
  refs := result.refs ++ [item.ref]
  stats := stats

/-- One round of the loop pushes an item that the query accepts, whichever branch it goes through,
and passes over any other. -/
theorem search_refs_step {options : CollectionSearchOptions} {item : LocatedRecord}
    (hload : loadCollectionRecord disk item.ref = .ok (some item.record))
    (refs : List ArchiveCollectionRecordRef) (result : CollectionSearchResult) :
    ∃ stats, searchRefs disk options (item.ref :: refs) result =
      if options.query.accepts item.record then
        if Reached options.query.limit.toNat (pushItem options result item stats).refs then
          .ok (pushItem options result item stats)
        else searchRefs disk options refs (pushItem options result item stats)
      else searchRefs disk options refs { result with stats } := by
  have hmatch : (refMatchesQuery item.ref options.query result.stats).1 =
      options.query.passes item.record := ref_matches_fst item.ref options.query result.stats
  rw [searchRefs]
  cases hpasses : options.query.passes item.record with
  | false =>
    have hrejects : options.query.accepts item.record = false := by
      rw [ArchiveQuery.accepts, hpasses, Bool.false_and]
    refine ⟨(refMatchesQuery item.ref options.query result.stats).2, ?_⟩
    simp only [hmatch, hpasses, hrejects, Bool.not_false, Bool.false_eq_true, if_true, if_false]
  | true =>
    simp only [hmatch, hpasses, Bool.not_true, Bool.false_eq_true, if_false]
    cases hkind : options.query.kind with
    | none =>
      have haccepts : options.query.accepts item.record = true := by
        rw [ArchiveQuery.accepts, hpasses, ArchiveQuery.ofKind, hkind]
        rfl
      refine ⟨(refMatchesQuery item.ref options.query result.stats).2, ?_⟩
      rw [if_pos haccepts]
      cases hloads : options.loadRecords with
      | true =>
        simp only [hload, if_true, pushItem, hloads]
        rfl
      | false =>
        simp only [pushItem, hloads]
        rfl
    | some kind =>
      have hloaded : loadCollectionRecord disk item.ref = pure (some item.record) := hload
      by_cases hsame : item.record.packet.kind = kind
      · have haccepts : options.query.accepts item.record = true := by
          rw [ArchiveQuery.accepts, hpasses, ArchiveQuery.ofKind, hkind]
          simpa using hsame
        have hfound : (some item.record).filter (fun record => record.packet.kind = kind) =
            some item.record := Option.filter_some_pos (by simpa using hsame)
        refine ⟨(refMatchesQuery item.ref options.query result.stats).2, ?_⟩
        rw [if_pos haccepts]
        simp only [hloaded, pure_bind, hfound]
        rfl
      · have hrejects : options.query.accepts item.record = false := by
          rw [ArchiveQuery.accepts, hpasses, ArchiveQuery.ofKind, hkind]
          simpa using hsame
        have hfound : (some item.record).filter (fun record => record.packet.kind = kind) =
            none := Option.filter_some_neg (by simpa using hsame)
        let stats := (refMatchesQuery item.ref options.query result.stats).2
        refine ⟨{ stats with
          matchedRecords := stats.matchedRecords - 1
          skippedByKind := stats.skippedByKind + 1 }, ?_⟩
        have hno : ¬options.query.accepts item.record = true := by
          rw [hrejects]
          exact Bool.false_ne_true
        rw [if_neg hno]
        simp only [hloaded, pure_bind, hfound]
        rfl

/-- The result of a loop holds what was found. -/
structure Holds (options : CollectionSearchOptions) (found : List LocatedRecord)
    (result : CollectionSearchResult) : Prop where
  refs : result.refs = found.map LocatedRecord.ref
  records : result.records =
    if options.loadRecords then found.map LocatedRecord.record else []

/-- A reference that is found keeps the result in step with what was found. -/
theorem Holds.push {options : CollectionSearchOptions} {found : List LocatedRecord}
    {result : CollectionSearchResult} (h : Holds options found result) (item : LocatedRecord)
    (stats : ArchiveQueryStats) :
    Holds options (found ++ [item]) (pushItem options result item stats) where
  refs := by rw [pushItem, h.refs, List.map_append, List.map_singleton]
  records := by
    rw [pushItem, h.records]
    cases options.loadRecords
    · rfl
    · show found.map LocatedRecord.record ++ [item].map LocatedRecord.record = _
      exact List.map_append.symm

theorem Holds.reached_iff {options : CollectionSearchOptions} {found : List LocatedRecord}
    {result : CollectionSearchResult} (h : Holds options found result) (limit : Nat) :
    Reached limit result.refs ↔ Reached limit found := by
  rw [Reached, Reached, h.refs, List.length_map]

/-- The loop finds the first items that the query accepts, where their records can be read. -/
theorem search_refs_spec {options : CollectionSearchOptions} (items : List LocatedRecord)
    (hload : ∀ item ∈ items, loadCollectionRecord disk item.ref = .ok (some item.record))
    {found : List LocatedRecord} {result : CollectionSearchResult}
    (hholds : Holds options found result) (hroom : ¬Reached options.query.limit.toNat found) :
    ∃ result', searchRefs disk options (items.map LocatedRecord.ref) result = .ok result' ∧
      Holds options (firstOf options.query.limit.toNat
        (found ++ items.filter fun item => options.query.accepts item.record)) result' := by
  induction items generalizing found result with
  | nil =>
    refine ⟨result, rfl, ?_⟩
    rw [List.filter_nil, List.append_nil, firstOf_of_not_reached hroom]
    exact hholds
  | cons item items ih =>
    have hrest := fun other h => hload other (List.mem_cons_of_mem item h)
    obtain ⟨stats, hstep⟩ := search_refs_step (hload item List.mem_cons_self)
      (items.map LocatedRecord.ref) result
    rw [List.map_cons, hstep]
    cases haccepts : options.query.accepts item.record with
    | false =>
      rw [List.filter_cons_of_neg (by rw [haccepts]; exact Bool.false_ne_true),
        if_neg Bool.false_ne_true]
      exact ih hrest ⟨hholds.refs, hholds.records⟩ hroom
    | true =>
      have hnext := hholds.push item stats
      rw [List.filter_cons_of_pos
          (p := fun item : LocatedRecord => options.query.accepts item.record) haccepts,
        List.append_cons found item, if_pos rfl]
      split
      · next hreached =>
        rw [firstOf_append_of_reached hroom ((hnext.reached_iff _).mp hreached)]
        exact ⟨_, rfl, hnext⟩
      · next hreached => exact ih hrest hnext fun h => hreached ((hnext.reached_iff _).mpr h)

/-! ## Whole collections -/

theorem collected_perm (disk : Disk Path κ) (paths : List Path) :
    (collectedRecords disk paths).Perm (locatedRecords disk paths) :=
  stable_sort_perm _ _

/-- The references of collected records are different. -/
theorem collected_refs_nodup (disk : Disk Path κ) (paths : List Path) :
    ((collectedRecords disk paths).map LocatedRecord.ref).Nodup := by
  refine (((collected_perm disk paths).map LocatedRecord.ref).nodup_iff).mpr ?_
  rw [List.Nodup, List.pairwise_map]
  refine (located_in_order disk paths).imp fun {left right} hlt heq => hlt.ne ?_
  exact congrArg refPlace heq

/-- Every collected record can be loaded. -/
theorem load_collected {paths : List Path} (h : ReadableArchives disk paths) :
    ∀ item ∈ collectedRecords disk paths,
      loadCollectionRecord disk item.ref = .ok (some item.record) := by
  intro item hitem
  obtain ⟨hpath, hrecord⟩ := located_source ((collected_perm disk paths).mem_iff.mp hitem)
  exact load_located (h item.path hpath) hrecord

/-- What the query accepts among the collected records, as far as the limit goes. -/
def foundRecords (disk : Disk Path κ) (paths : List Path) (query : ArchiveQuery) :
    List LocatedRecord :=
  firstOf query.limit.toNat
    ((collectedRecords disk paths).filter fun item => query.accepts item.record)

theorem found_sublist (disk : Disk Path κ) (paths : List Path) (query : ArchiveQuery) :
    (foundRecords disk paths query).Sublist (collectedRecords disk paths) :=
  (firstOf_isPrefix _ _).sublist.trans List.filter_sublist

/-- What was found comes in the order of the capture times. -/
theorem found_in_order (disk : Disk Path κ) (paths : List Path) (query : ArchiveQuery) :
    (foundRecords disk paths query).Pairwise fun left right =>
      left.record.captureTimeNs.toNat ≤ right.record.captureTimeNs.toNat :=
  (pairwise_key earlier_compares (locatedRecords disk paths)).sublist
    (found_sublist disk paths query)

theorem passes_of_device {query : ArchiveQuery} {record : ArchiveRecord}
    (h : query.passes record = true) : query.ofDevice record.packet.device = true := by
  rw [ArchiveQuery.passes, Bool.and_eq_true, Bool.and_eq_true] at h
  exact h.1.2

theorem accepts_of_device {query : ArchiveQuery} {record : ArchiveRecord}
    (h : query.accepts record = true) : query.ofDevice record.packet.device = true := by
  rw [ArchiveQuery.accepts, Bool.and_eq_true] at h
  exact passes_of_device h.1

/-- To look at the references of one device first loses nothing. -/
theorem filter_of_device (query : ArchiveQuery) {p : ArchiveRecord → Bool}
    (h : ∀ record, p record = true → query.ofDevice record.packet.device = true)
    (items : List LocatedRecord) :
    (items.filter fun item => query.ofDevice item.record.packet.device).filter
        (fun item => p item.record) = items.filter fun item => p item.record := by
  rw [List.filter_filter]
  refine List.filter_congr fun item _ => ?_
  cases hp : p item.record with
  | false => rfl
  | true => rw [h item.record hp]; rfl

/-- The references of a query are those that match, up to the limit. -/
theorem filter_collection_refs_eq (collection : ArchiveCollection) (query : ArchiveQuery) :
    filterCollectionRefs collection query =
      firstOf query.limit.toNat (((collection.source query).getD []).filter fun ref =>
        (refMatchesQuery ref query).1) := by
  have hcollect : filterCollectionRefs collection query =
      collect (fun ref => (refMatchesQuery ref query).1) query.limit.toNat
        ((collection.source query).getD []) [] := by
    unfold filterCollectionRefs
    cases collection.source query <;> rfl
  rw [hcollect, collect_eq _ _ _ (not_reached_nil _), List.nil_append]

/-- A search is a search for references, sorted when it is asked for. -/
theorem search_collection_eq (disk : Disk Path κ) (collection : ArchiveCollection)
    (options : CollectionSearchOptions) :
    searchArchiveCollection disk collection options = (do
      let result ← searchRefs disk options ((collection.source options.query).getD []) {}
      if options.sortByTime then
        pure { result with
          records := stableSort recordEarlier result.records
          refs := stableSort refEarlier result.refs }
      else pure result) := by
  unfold searchArchiveCollection
  cases collection.source options.query with
  | some refs => rfl
  | none =>
    cases options.sortByTime with
    | false => rfl
    | true =>
      show Except.ok _ = Except.ok _
      rw [stable_sort_nil, stable_sort_nil]

/-- The final sort leaves in place what comes in the order of the capture times. -/
theorem Holds.sorted {options : CollectionSearchOptions} {found : List LocatedRecord}
    {result : CollectionSearchResult} (h : Holds options found result)
    (horder : found.Pairwise fun left right =>
      left.record.captureTimeNs.toNat ≤ right.record.captureTimeNs.toNat) :
    { result with
      records := stableSort recordEarlier result.records
      refs := stableSort refEarlier result.refs } = result := by
  have hrecords : stableSort recordEarlier result.records = result.records := by
    rw [h.records]
    cases options.loadRecords with
    | false => exact stable_sort_nil _
    | true => exact stable_sort_of_pairwise record_earlier_compares (List.pairwise_map.mpr horder)
  have hrefs : stableSort refEarlier result.refs = result.refs := by
    rw [h.refs]
    exact stable_sort_of_pairwise ref_earlier_compares (List.pairwise_map.mpr horder)
  rw [hrecords, hrefs]

/-- Filtering finds the first of the collected records that pass, a search the first that the query
accepts. The final sort of a search leaves them in place. -/
theorem search_collection_spec {paths : List Path} (h : ReadableArchives disk paths) :
    ∃ collection, buildArchiveCollection disk paths = .ok collection ∧
      (∀ query : ArchiveQuery, filterCollectionRefs collection query =
        (firstOf query.limit.toNat ((collectedRecords disk paths).filter fun item =>
          query.passes item.record)).map LocatedRecord.ref) ∧
      ∀ options : CollectionSearchOptions,
        ∃ found, searchArchiveCollection disk collection options = .ok found ∧
          Holds options (foundRecords disk paths options.query) found := by
  obtain ⟨collection, hbuild, hsource⟩ := collection_source h
  refine ⟨collection, hbuild, fun query => ?_, fun options => ?_⟩
  · have hrefs : (fun ref => (refMatchesQuery ref query).1) ∘ LocatedRecord.ref =
        fun item => query.passes item.record :=
      funext fun item => ref_matches_fst item.ref query {}
    rw [filter_collection_refs_eq, hsource, List.filter_map, hrefs, ← map_firstOf]
    exact congrArg (fun items => (firstOf query.limit.toNat items).map LocatedRecord.ref)
      (filter_of_device query (fun _ => passes_of_device) _)
  · have hload := load_collected h
    have hempty : Holds options [] {} := ⟨rfl, by cases options.loadRecords <;> rfl⟩
    obtain ⟨result, hsearch, hholds⟩ := search_refs_spec
      ((collectedRecords disk paths).filter fun item =>
        options.query.ofDevice item.record.packet.device)
      (fun item hitem => hload item (List.mem_filter.mp hitem).1) hempty (not_reached_nil _)
    rw [List.nil_append, filter_of_device options.query fun _ => accepts_of_device] at hholds
    have hloop : searchRefs disk options ((collection.source options.query).getD []) {} =
        .ok result := by
      rw [hsource]
      exact hsearch
    refine ⟨result, ?_, hholds⟩
    have hsort := hholds.sorted (found_in_order disk paths options.query)
    rw [search_collection_eq, hloop]
    show (if options.sortByTime then Except.ok _ else Except.ok result) = Except.ok result
    rw [hsort, ite_self]

/-! ## Searching and scanning -/

/-- The records of the archives in the list, without their places. -/
theorem located_filter_records (disk : Disk Path κ) (p : ArchiveRecord → Bool)
    (places : List (Path × Nat)) :
    ((locatedAt disk places).filter fun item => p item.record).map LocatedRecord.record =
      (places.map Prod.fst).flatMap fun path => (archiveRecords (disk.read path)).filter p := by
  induction places with
  | nil => rfl
  | cons place places ih =>
    have hfirst : (((archiveRecords (disk.read place.1)).map
        (LocatedRecord.mk place.2 place.1)).filter fun item => p item.record).map
          LocatedRecord.record = (archiveRecords (disk.read place.1)).filter p := by
      rw [List.filter_map, List.map_map]
      exact List.map_id _
    rw [locatedAt_cons, List.filter_append, List.map_append, ih, hfirst, List.map_cons,
      List.flatMap_cons]

/-- A query without a limit over archives finds what it accepts in each. -/
theorem scan_archives {paths : List Path} (h : ReadableArchives disk paths)
    (query : ArchiveQuery) :
    ∃ results, (paths.mapM fun path =>
        queryArchive (disk.read path) { query with limit := 0 }) = .ok results ∧
      results.flatMap ArchiveQueryResult.records =
        paths.flatMap fun path => (archiveRecords (disk.read path)).filter query.accepts := by
  refine query_each fun path hpath => ?_
  obtain ⟨header, hread⟩ := read_archive_of_readable h hpath
  exact query_archive_unlimited hread query

/-- The scan, sorted by capture time and cut off at the limit, is what a search finds. -/
theorem sorted_scan (disk : Disk Path κ) (paths : List Path) (query : ArchiveQuery) :
    firstOf query.limit.toNat (stableSort recordEarlier
        (paths.flatMap fun path => (archiveRecords (disk.read path)).filter query.accepts)) =
      (foundRecords disk paths query).map LocatedRecord.record := by
  have hrecords := located_filter_records disk query.accepts paths.zipIdx
  rw [List.zipIdx_map_fst] at hrecords
  have hmap : ∀ items : List LocatedRecord,
      (stableSort LocatedRecord.earlier items).map LocatedRecord.record =
        stableSort recordEarlier (items.map LocatedRecord.record) :=
    map_stable_sort fun _ _ => rfl
  rw [← hrecords, foundRecords, map_firstOf, collectedRecords,
    filter_stable_sort earlier_compares, hmap, locatedRecords]

/-- A search that loads its records finds, for every list of readable archives, what a query finds
in one archive after the other, sorted stably by capture time and cut off at the limit. Each
reference is that of its record, and no reference comes twice. -/
theorem search_refines_scan {paths : List Path} (hread : ReadableArchives disk paths)
    {options : CollectionSearchOptions} (hload : options.loadRecords = true) :
    ∃ collection results found, buildArchiveCollection disk paths = .ok collection ∧
      (paths.mapM fun path =>
        queryArchive (disk.read path) { options.query with limit := 0 }) = .ok results ∧
      searchArchiveCollection disk collection options = .ok found ∧
      found.records = firstOf options.query.limit.toNat
        (stableSort recordEarlier (results.flatMap ArchiveQueryResult.records)) ∧
      found.refs.Nodup ∧
      List.Forall₂ (fun ref record => loadCollectionRecord disk ref = .ok (some record))
        found.refs found.records := by
  obtain ⟨collection, hbuild, -, hsearch⟩ := search_collection_spec hread
  obtain ⟨results, hresults, hscan⟩ := scan_archives hread options.query
  obtain ⟨found, hfound, hholds⟩ := hsearch options
  have hrecords : found.records =
      (foundRecords disk paths options.query).map LocatedRecord.record := by
    rw [hholds.records, if_pos hload]
  refine ⟨collection, results, found, hbuild, hresults, hfound, ?_, ?_, ?_⟩
  · rw [hscan, sorted_scan, hrecords]
  · rw [hholds.refs]
    exact (collected_refs_nodup disk paths).sublist
      ((found_sublist disk paths options.query).map LocatedRecord.ref)
  · rw [hholds.refs, hrecords, List.forall₂_map_left_iff, List.forall₂_map_right_iff,
      List.forall₂_same]
    intro item hitem
    exact load_collected hread item ((found_sublist disk paths options.query).subset hitem)

/-- The first two heartbeats of two shifts, of which each has one. -/
theorem search_refines_scan_of_shifts :
    let query : ArchiveQuery := { kind := some .heartbeat, device := some 0, limit := 2 }
    ∃ collection results found, buildArchiveCollection shiftsDisk shifts = .ok collection ∧
      (shifts.mapM fun path => queryArchive (shiftsDisk.read path) { query with limit := 0 }) =
        .ok results ∧
      searchArchiveCollection shiftsDisk collection { query } = .ok found ∧
      found.records = firstOf query.limit.toNat
        (stableSort recordEarlier (results.flatMap ArchiveQueryResult.records)) ∧
      found.refs.Nodup ∧
      List.Forall₂ (fun ref record => loadCollectionRecord shiftsDisk ref = .ok (some record))
        found.refs found.records := by
  intro query
  exact @search_refines_scan _ _ _ shifts_readable { query } rfl

/-! ## Filtering and searching -/

/-- What passes and is of the kind is accepted. -/
theorem filter_of_kind (query : ArchiveQuery) (items : List LocatedRecord) :
    (items.filter fun item => query.passes item.record).filter
        (fun item => query.ofKind item.record.packet.kind) =
      items.filter fun item => query.accepts item.record := by
  rw [List.filter_filter]
  exact List.filter_congr fun item _ => Bool.and_comm _ _

theorem of_kind_iff {query : ArchiveQuery} {kind : PacketKind} :
    query.ofKind kind = true ↔ ∀ wanted ∈ query.kind, kind = wanted := by
  rw [ArchiveQuery.ofKind, Option.all_eq_true]
  exact forall₂_congr fun wanted _ => decide_eq_true_iff

/-- The references that pass are those that are found exactly when the first of them are of the
kind. -/
theorem filter_search_iff (disk : Disk Path κ) (paths : List Path) (query : ArchiveQuery) :
    (firstOf query.limit.toNat ((collectedRecords disk paths).filter fun item =>
        query.passes item.record)).map LocatedRecord.ref =
        (foundRecords disk paths query).map LocatedRecord.ref ↔
      ∀ kind ∈ query.kind, ∀ item ∈ firstOf query.limit.toNat
        ((collectedRecords disk paths).filter fun item => query.passes item.record),
        item.record.packet.kind = kind := by
  have hinjective := List.inj_on_of_nodup_map (collected_refs_nodup disk paths)
  have hfound : foundRecords disk paths query = firstOf query.limit.toNat
      (((collectedRecords disk paths).filter fun item => query.passes item.record).filter
        fun item => query.ofKind item.record.packet.kind) := by
    rw [filter_of_kind, foundRecords]
  constructor
  · intro h kind hkind item hitem
    have href : item.ref ∈ (foundRecords disk paths query).map LocatedRecord.ref :=
      h ▸ List.mem_map_of_mem hitem
    obtain ⟨other, hother, hsame⟩ := List.mem_map.mp href
    -- a reference leads to one record only
    have hequal : other = item := hinjective
      ((found_sublist disk paths query).subset hother)
      (List.mem_filter.mp ((firstOf_isPrefix _ _).subset hitem)).1 hsame
    rw [hfound, hequal] at hother
    exact of_kind_iff.mp (List.mem_filter.mp ((firstOf_isPrefix _ _).subset hother)).2 kind hkind
  · intro h
    rw [hfound, (firstOf_filter_iff _ _ _).mpr fun item hitem =>
      of_kind_iff.mpr fun kind hkind => h kind hkind item hitem]

/-- Filtering the references agrees with searching exactly when the query asks for no packet kind,
or each of the first records that its other filters let through is of that kind. -/
theorem filter_agrees_iff {paths : List Path} (hread : ReadableArchives disk paths)
    (query : ArchiveQuery) (loadRecords : Bool) :
    ∃ collection found, buildArchiveCollection disk paths = .ok collection ∧
      searchArchiveCollection disk collection { query, sortByTime := true, loadRecords } =
        .ok found ∧
      (filterCollectionRefs collection query = found.refs ↔
        ∀ kind ∈ query.kind, ∀ item ∈ firstOf query.limit.toNat
          ((collectedRecords disk paths).filter fun item => query.passes item.record),
          item.record.packet.kind = kind) := by
  obtain ⟨collection, hbuild, hfilter, hsearch⟩ := search_collection_spec hread
  obtain ⟨found, hfound, hholds⟩ := hsearch { query, sortByTime := true, loadRecords }
  refine ⟨collection, found, hbuild, hfound, ?_⟩
  rw [hfilter, hholds.refs]
  exact filter_search_iff disk paths query

/-- The first two records of two shifts, filtered and searched for heartbeats. -/
theorem filter_agrees_on_shifts :
    let query : ArchiveQuery := { kind := some .heartbeat, device := some 0, limit := 2 }
    ∃ collection found, buildArchiveCollection shiftsDisk shifts = .ok collection ∧
      searchArchiveCollection shiftsDisk collection
        { query, sortByTime := true, loadRecords := true } = .ok found ∧
      (filterCollectionRefs collection query = found.refs ↔
        ∀ kind ∈ query.kind, ∀ item ∈ firstOf query.limit.toNat
          ((collectedRecords shiftsDisk shifts).filter fun item => query.passes item.record),
          item.record.packet.kind = kind) := by
  intro query
  exact filter_agrees_iff shifts_readable query true

/-- The record of an archive. -/
def dayEntries : List (UInt64 × Packet) :=
  [(1000, { payload := [1] })]

/-- A disk with one archive of an observation. -/
def dayDisk : Disk Path Path :=
  diskOf [(⟨"day.ath"⟩, dayEntries)]

/-- The archive is read with its record. -/
theorem read_day_disk : ∃ header,
    readArchive (dayDisk.read ⟨"day.ath"⟩) = .ok (header, [⟨36, 1000, { payload := [1] }⟩]) := by
  have hlimits : ∀ entry ∈ dayEntries, ReadableLimits entry.2 := by
    intro entry hentry
    rw [List.mem_singleton.mp hentry]
    exact readable_observation 0 0 (by decide)
  have hsize : (archiveWire dayEntries).length < 2 ^ 63 := by
    simp [dayEntries, archiveWire, recordsWire, length_packet_frame, Packet.sectionsWire]
  exact ⟨summarize {} dayEntries, read_disk_of rfl hlimits hsize⟩

theorem day_disk_readable : ReadableArchives dayDisk [⟨"day.ath"⟩] := by
  intro path hpath
  obtain ⟨header, hread⟩ := read_day_disk
  rw [List.mem_singleton.mp hpath]
  exact ⟨header, _, hread⟩

/-- An observation is filtered for heartbeats and comes through, where a search finds nothing. -/
theorem filter_leaves_kind_out :
    ReadableArchives dayDisk [⟨"day.ath"⟩] ∧
      ∃ collection found, buildArchiveCollection dayDisk [⟨"day.ath"⟩] = .ok collection ∧
        searchArchiveCollection dayDisk collection
          { query := { kind := some .heartbeat }, sortByTime := true } = .ok found ∧
        filterCollectionRefs collection { kind := some .heartbeat } ≠ found.refs := by
  obtain ⟨header, hread⟩ := read_day_disk
  have hlocated : collectedRecords dayDisk [⟨"day.ath"⟩] =
      [⟨0, ⟨"day.ath"⟩, ⟨36, 1000, { payload := [1] }⟩⟩] := by
    have hrecords : archiveRecords (dayDisk.read ⟨"day.ath"⟩) =
        [⟨36, 1000, { payload := [1] }⟩] := by rw [archiveRecords, hread]
    show stableSort _ ((archiveRecords (dayDisk.read ⟨"day.ath"⟩)).map _ ++ []) = _
    rw [hrecords]
    exact List.mergeSort_singleton _
  obtain ⟨collection, hbuild, hfilter, hsearch⟩ := search_collection_spec day_disk_readable
  obtain ⟨found, hfound, hholds⟩ := hsearch { query := { kind := some .heartbeat } }
  refine ⟨day_disk_readable, collection, found, hbuild, hfound, ?_⟩
  rw [hfilter, hholds.refs, foundRecords, hlocated]
  decide

end Aethon.Storage
