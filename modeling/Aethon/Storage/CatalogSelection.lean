import Aethon.Storage.AuditFindings
import Aethon.Storage.Catalog
import Aethon.Storage.QueryMatching

/-!
# Selecting archives

The manifest of an archive covers its records, so an archive that is no candidate holds nothing that
the query accepts. The limit then cuts off the candidates as if each held one such record.
`select_enough_iff` says when the archives that are left still answer the query.
-/

namespace Aethon.Storage

open FileSystem Limits Protocol

variable {κ : Type} {disk : Disk Path κ}

/-! ## Manifests cover records -/

/-- The time of an entry is in the period of its summary. -/
theorem describes_time {summary : ArchiveSummary} {entries : List (UInt64 × Packet)}
    (h : Describes summary entries) {entry : UInt64 × Packet} (hentry : entry ∈ entries) :
    summary.firstTimeNs ≤ entry.1 ∧ entry.1 ≤ summary.lastTimeNs := by
  obtain ⟨-, hfirst, hlast⟩ := h
  have hmem : entry.1 ∈ entries.map Prod.fst := List.mem_map_of_mem hentry
  constructor
  · obtain ⟨least, hleast⟩ := Option.isSome_iff_exists.mp (List.isSome_min?_of_mem hmem)
    rw [hfirst, hleast, Option.getD_some]
    exact (List.le_min?_iff hleast).mp (UInt64.le_refl _) _ hmem
  · obtain ⟨greatest, hgreatest⟩ := Option.isSome_iff_exists.mp (List.isSome_max?_of_mem hmem)
    rw [hlast, hgreatest, Option.getD_some]
    exact (List.max?_le_iff hgreatest).mp (UInt64.le_refl _) _ hmem

/-- An archive with a record that the query accepts is a candidate. -/
theorem candidate_of_accepts {entry : CatalogEntry} {entries : List (UInt64 × Packet)}
    (hexact : entry.manifest.Exact entries) {record : ArchiveRecord}
    (hrecord : record.entry ∈ entries) {query : ArchiveQuery}
    (haccepts : query.accepts record = true) : ArchiveCatalog.candidate query entry = true := by
  obtain ⟨hfirst, hlast⟩ := describes_time hexact.summary hrecord
  simp only [ArchiveQuery.accepts, ArchiveQuery.passes, ArchiveQuery.inTime, ArchiveQuery.ofDevice,
    ArchiveQuery.ofKind, Bool.and_eq_true, Option.all_eq_true, decide_eq_true_iff] at haccepts
  obtain ⟨⟨⟨⟨hstart, hend⟩, hdevice⟩, -⟩, hkind⟩ := haccepts
  have htime : overlapsQueryTime entry.manifest query = true := by
    have hlower : query.startTimeNs.all (· ≤ entry.manifest.summary.lastTimeNs) = true :=
      (Option.all_eq_true ..).mpr fun bound hbound =>
        decide_eq_true (UInt64.le_trans (hstart bound hbound) hlast)
    have hupper : query.endTimeNs.all (entry.manifest.summary.firstTimeNs ≤ ·) = true :=
      (Option.all_eq_true ..).mpr fun bound hbound =>
        decide_eq_true (UInt64.le_trans hfirst (hend bound hbound))
    rw [overlapsQueryTime, any_above, any_below, hlower, hupper]
    rfl
  have hdevices : query.device.all (containsDevice entry.manifest ·) = true := by
    refine (Option.all_eq_true ..).mpr fun device hquery => ?_
    have hlisted := (hexact.devices record.packet.device).mpr (List.mem_map_of_mem hrecord)
    obtain ⟨summary, hsummary, hsame⟩ := List.mem_map.mp hlisted
    exact List.any_eq_true.mpr ⟨summary, hsummary,
      decide_eq_true (hsame.trans (hdevice device hquery))⟩
  have hkinds : query.kind.all (containsKind entry.manifest ·) = true := by
    refine (Option.all_eq_true ..).mpr fun kind hquery => ?_
    have hlisted := (hexact.kinds record.packet.kind).mpr (List.mem_map_of_mem hrecord)
    obtain ⟨count, hcount, hsame⟩ := List.mem_map.mp hlisted
    exact List.any_eq_true.mpr ⟨count, hcount, decide_eq_true (hsame.trans (hkind kind hquery))⟩
  rw [ArchiveCatalog.candidate, htime, hdevices, hkinds]
  rfl

/-! ## Catalogs of readable archives -/

/-- Every entry is of an archive in the list, with its manifest. -/
def Listed (disk : Disk Path κ) (paths : List Path) (catalog : ArchiveCatalog) : Prop :=
  ∀ entry ∈ catalog.entries, entry.path ∈ paths ∧
    ∃ header, readArchive (disk.read entry.path) =
        .ok (header, archiveRecords (disk.read entry.path)) ∧
      entry.manifest = manifestOf header (archiveRecords (disk.read entry.path))

/-- An archive that was read keeps the catalog listed. -/
theorem Listed.add {paths : List Path} {catalog : ArchiveCatalog}
    (h : Listed disk paths catalog) {path : Path} (hpath : path ∈ paths) {header : ArchiveSummary}
    (hread : readArchive (disk.read path) = .ok (header, archiveRecords (disk.read path))) :
    Listed disk paths
      (catalog.add { path, manifest := manifestOf header (archiveRecords (disk.read path)) }) := by
  intro entry hentry
  have hmem := (List.mergeSort_perm _ _).mem_iff.mp hentry
  rcases List.mem_append.mp hmem with hold | hnew
  · exact h entry (List.mem_filter.mp hold).1
  · rw [List.mem_singleton.mp hnew]
    exact ⟨hpath, header, hread, rfl⟩

/-- Readable archives make a catalog that lists them. -/
theorem build_catalog_listed {paths : List Path} (h : ReadableArchives disk paths) :
    ∃ catalog, buildCatalog disk paths = .ok catalog ∧ Listed disk paths catalog := by
  have hfold : ∀ (rest : List Path) (catalog : ArchiveCatalog), (∀ path ∈ rest, path ∈ paths) →
      Listed disk paths catalog → ∃ last, rest.foldlM (fun catalog path => do
          let manifest ← buildArchiveManifest (disk.read path)
          pure (catalog.add { path, manifest })) catalog = .ok last ∧ Listed disk paths last := by
    intro rest
    induction rest with
    | nil => exact fun catalog _ hlisted => ⟨catalog, rfl, hlisted⟩
    | cons path rest ih =>
      intro catalog hrest hlisted
      have hpath := hrest path List.mem_cons_self
      obtain ⟨header, hread⟩ := read_archive_of_readable h hpath
      obtain ⟨last, hlast, hall⟩ := ih _ (fun other hother =>
        hrest other (List.mem_cons_of_mem _ hother)) (hlisted.add hpath hread)
      refine ⟨last, ?_, hall⟩
      rw [List.foldlM_cons, build_manifest_of_read hread]
      exact hlast
  exact hfold paths {} (fun _ hpath => hpath) fun _ hentry => absurd hentry List.not_mem_nil

/-! ## What the selection finds -/

/-- The records of an entry that a query accepts. -/
def matching (disk : Disk Path κ) (query : ArchiveQuery) (entry : CatalogEntry) :
    List ArchiveRecord :=
  (archiveRecords (disk.read entry.path)).filter query.accepts

/-- An archive that is no candidate holds nothing that the query accepts. -/
theorem matching_of_not_candidate {paths : List Path} {catalog : ArchiveCatalog}
    (h : Listed disk paths catalog) {query : ArchiveQuery} {entry : CatalogEntry}
    (hentry : entry ∈ catalog.entries)
    (hcandidate : ArchiveCatalog.candidate query entry = false) :
    matching disk query entry = [] := by
  obtain ⟨-, header, hread, hmanifest⟩ := h entry hentry
  have hexact : entry.manifest.Exact
      ((archiveRecords (disk.read entry.path)).map ArchiveRecord.entry) := by
    rw [hmanifest]
    rcases hfile : disk.read entry.path with _ | content
    · rw [hfile] at hread
      cases hread
    · have hsize := Disk.read_addressable hfile
      rw [hfile] at hread
      exact manifest_exact (records_of_read hread (by omega)).2
  refine List.filter_eq_nil_iff.mpr fun record hrecord haccepts => ?_
  have := candidate_of_accepts hexact (List.mem_map_of_mem hrecord) haccepts
  rw [hcandidate] at this
  exact Bool.false_ne_true this

/-- So the candidates hold all that the query accepts. -/
theorem matching_candidates {paths : List Path} {catalog : ArchiveCatalog}
    (h : Listed disk paths catalog) (query : ArchiveQuery) :
    (catalog.entries.filter (ArchiveCatalog.candidate query)).flatMap (matching disk query) =
      catalog.entries.flatMap (matching disk query) := by
  have hpruned : ∀ entries : List CatalogEntry, (∀ entry ∈ entries, entry ∈ catalog.entries) →
      (entries.filter (ArchiveCatalog.candidate query)).flatMap (matching disk query) =
        entries.flatMap (matching disk query) := by
    intro entries
    induction entries with
    | nil => exact fun _ => rfl
    | cons entry entries ih =>
      intro hentries
      have hrest := ih fun other hother => hentries other (List.mem_cons_of_mem _ hother)
      rw [List.flatMap_cons]
      cases hcandidate : ArchiveCatalog.candidate query entry with
      | true => rw [List.filter_cons_of_pos hcandidate, List.flatMap_cons, hrest]
      | false =>
        have hnone := matching_of_not_candidate h (hentries entry List.mem_cons_self) hcandidate
        rw [List.filter_cons_of_neg (by rw [hcandidate]; exact Bool.false_ne_true), hrest, hnone,
          List.nil_append]
  exact hpruned catalog.entries fun _ hentry => hentry

theorem select_eq (catalog : ArchiveCatalog) (query : ArchiveQuery) :
    catalog.select query =
      firstOf query.limit.toNat (catalog.entries.filter (ArchiveCatalog.candidate query)) := by
  rw [ArchiveCatalog.select, collect_eq _ _ _ (not_reached_nil _), List.nil_append]

/-- A query over entries finds the first of what it accepts in each. -/
theorem query_entries {entries : List CatalogEntry}
    (h : ∀ entry ∈ entries, ∃ header,
      readArchive (disk.read entry.path) = .ok (header, archiveRecords (disk.read entry.path)))
    (query : ArchiveQuery) :
    ∃ results, (entries.mapM fun entry => queryArchive (disk.read entry.path) query) =
        .ok results ∧
      results.flatMap ArchiveQueryResult.records =
        entries.flatMap fun entry => firstOf query.limit.toNat (matching disk query entry) := by
  refine query_each fun entry hentry => ?_
  obtain ⟨header, hread⟩ := h entry hentry
  exact query_archive_spec hread query

/-- As many records as the query asks for: all of them without a limit, else as many as there are up
to the limit. -/
def Enough (query : ArchiveQuery) (found total : Nat) : Prop :=
  if query.limit = 0 then found = total else min query.limit.toNat total ≤ found

/-- The archives that are selected answer the query exactly when it has no limit, the first
candidates, one for each record of the limit, hold as many records that it accepts, or no other
candidate holds any. -/
theorem select_enough_iff {paths : List Path} (hread : ReadableArchives disk paths)
    (query : ArchiveQuery) :
    ∃ catalog results, buildCatalog disk paths = .ok catalog ∧
      ((catalog.select query).mapM fun entry => queryArchive (disk.read entry.path) query) =
        .ok results ∧
      (Enough query (results.flatMap ArchiveQueryResult.records).length
          (catalog.entries.flatMap (matching disk query)).length ↔
        query.limit = 0 ∨
          query.limit.toNat ≤ (((catalog.entries.filter (ArchiveCatalog.candidate query)).take
            query.limit.toNat).flatMap (matching disk query)).length ∨
          ∀ entry ∈ (catalog.entries.filter (ArchiveCatalog.candidate query)).drop
            query.limit.toNat, matching disk query entry = []) := by
  obtain ⟨catalog, hbuild, hlisted⟩ := build_catalog_listed hread
  have hselected : ∀ entry ∈ catalog.select query, ∃ header,
      readArchive (disk.read entry.path) =
        .ok (header, archiveRecords (disk.read entry.path)) := by
    intro entry hentry
    rw [select_eq] at hentry
    have hmem := (List.mem_filter.mp ((firstOf_isPrefix _ _).subset hentry)).1
    obtain ⟨-, header, hheader, -⟩ := hlisted entry hmem
    exact ⟨header, hheader⟩
  obtain ⟨results, hresults, hfound⟩ := query_entries hselected query
  refine ⟨catalog, results, hbuild, hresults, ?_⟩
  rw [hfound, ← matching_candidates hlisted query, select_eq, Enough]
  by_cases hlimit : query.limit = 0
  · -- without a limit every candidate is selected and read to its end
    have hzero : query.limit.toNat = 0 := by rw [hlimit]; rfl
    rw [if_pos hlimit, hzero]
    exact iff_of_true rfl (.inl hlimit)
  · have hnat : query.limit.toNat ≠ 0 := fun h => hlimit (UInt64.toNat_inj.mp h)
    rw [if_neg hlimit, first_parts_enough_iff hnat, or_iff_right hlimit]

/-! ## Two days -/

/-- The records of an archive. -/
def monday : List (UInt64 × Packet) :=
  [(1000, { payload := [1] })]

/-- The records of a later archive. -/
def tuesday : List (UInt64 × Packet) :=
  [(2000, { payload := [1, 2] })]

/-- Two archives, of which the later one holds the longer payload. -/
def daysDisk : Disk Path Path :=
  diskOf [(⟨"monday.ath"⟩, monday), (⟨"tuesday.ath"⟩, tuesday)]

/-- The paths of the two archives. -/
def days : List Path :=
  [⟨"monday.ath"⟩, ⟨"tuesday.ath"⟩]

/-- Both archives are read with their records. -/
theorem read_days : readArchive (daysDisk.read ⟨"monday.ath"⟩) =
      .ok (summarize {} monday, [⟨36, 1000, { payload := [1] }⟩]) ∧
    readArchive (daysDisk.read ⟨"tuesday.ath"⟩) =
      .ok (summarize {} tuesday, [⟨36, 2000, { payload := [1, 2] }⟩]) := by
  constructor
  · refine read_disk_of rfl (fun entry hentry => ?_) ?_
    · rw [List.mem_singleton.mp hentry]
      exact readable_observation 0 0 (by decide)
    · simp [monday, archiveWire, recordsWire, length_packet_frame, Packet.sectionsWire]
  · refine read_disk_of rfl (fun entry hentry => ?_) ?_
    · rw [List.mem_singleton.mp hentry]
      exact readable_observation 0 0 (by decide)
    · simp [tuesday, archiveWire, recordsWire, length_packet_frame, Packet.sectionsWire]

/-- Both archives can be read. -/
theorem days_readable : ReadableArchives daysDisk days := by
  obtain ⟨hmonday, htuesday⟩ := read_days
  intro path hpath
  simp only [days, List.mem_cons, List.not_mem_nil, or_false] at hpath
  rcases hpath with rfl | rfl
  · exact ⟨_, _, hmonday⟩
  · exact ⟨_, _, htuesday⟩

/-- A selection of one archive is enough for one record. -/
theorem select_enough_on_days :
    ∃ catalog results, buildCatalog daysDisk days = .ok catalog ∧
      ((catalog.select { limit := 1 }).mapM fun entry =>
        queryArchive (daysDisk.read entry.path) { limit := 1 }) = .ok results ∧
      (Enough { limit := 1 } (results.flatMap ArchiveQueryResult.records).length
          (catalog.entries.flatMap (matching daysDisk { limit := 1 })).length ↔
        (1 : UInt64) = 0 ∨
          1 ≤ (((catalog.entries.filter (ArchiveCatalog.candidate { limit := 1 })).take
            1).flatMap (matching daysDisk { limit := 1 })).length ∨
          ∀ entry ∈ (catalog.entries.filter (ArchiveCatalog.candidate { limit := 1 })).drop 1,
            matching daysDisk { limit := 1 } entry = []) :=
  select_enough_iff days_readable { limit := 1 }

/-- The later archive holds the one record that is long enough, and is not selected. -/
theorem select_leaves_record_out :
    ReadableArchives daysDisk days ∧
      ∃ catalog results, buildCatalog daysDisk days = .ok catalog ∧
        ((catalog.select { minPayloadSize := some 2, limit := 1 }).mapM fun entry =>
          queryArchive (daysDisk.read entry.path) { minPayloadSize := some 2, limit := 1 }) =
            .ok results ∧
        ¬Enough { minPayloadSize := some 2, limit := 1 }
          (results.flatMap ArchiveQueryResult.records).length
          (catalog.entries.flatMap
            (matching daysDisk { minPayloadSize := some 2, limit := 1 })).length := by
  obtain ⟨hmonday, htuesday⟩ := read_days
  let first : CatalogEntry := ⟨⟨"monday.ath"⟩,
    manifestOf (summarize {} monday) [⟨36, 1000, { payload := [1] }⟩]⟩
  let second : CatalogEntry := ⟨⟨"tuesday.ath"⟩,
    manifestOf (summarize {} tuesday) [⟨36, 2000, { payload := [1, 2] }⟩]⟩
  have hrecords : archiveRecords (daysDisk.read ⟨"monday.ath"⟩) =
      [⟨36, 1000, { payload := [1] }⟩] := by rw [archiveRecords, hmonday]
  have hrecords' : archiveRecords (daysDisk.read ⟨"tuesday.ath"⟩) =
      [⟨36, 2000, { payload := [1, 2] }⟩] := by rw [archiveRecords, htuesday]
  have hcatalog : (({} : ArchiveCatalog).add first).add second = ⟨[first, second]⟩ := by
    have hone : ({} : ArchiveCatalog).add first = ⟨[first]⟩ :=
      ArchiveCatalog.add_last (by decide) (by decide)
    rw [hone]
    exact ArchiveCatalog.add_last (by decide) (by decide)
  have hbuild : buildCatalog daysDisk days = .ok ⟨[first, second]⟩ := by
    rw [← hcatalog, buildCatalog, days, List.foldlM_cons, build_manifest_of_read hmonday]
    show List.foldlM _ (({} : ArchiveCatalog).add first) _ = _
    rw [List.foldlM_cons, build_manifest_of_read htuesday]
    rfl
  obtain ⟨result, hresult, hfound⟩ := query_archive_spec
    (hrecords.symm ▸ hmonday) { minPayloadSize := some 2, limit := 1 }
  refine ⟨days_readable, ⟨[first, second]⟩, [result], hbuild, ?_, ?_⟩
  · show List.mapM _ [first] = _
    rw [List.mapM_cons, hresult]
    rfl
  · have hnone : result.records = [] := by
      rw [hfound, hrecords]
      decide
    rw [List.flatMap_singleton, hnone, List.flatMap_cons, List.flatMap_singleton, matching,
      matching, hrecords, hrecords', Enough, if_neg (by decide)]
    decide

end Aethon.Storage
