import Aethon.Storage.CollectionSearch
import Aethon.Storage.CompactionLatest
import Aethon.Storage.RotationOverwrites

/-!
# Searching archives that were rewritten

A search depends on the entries of its archives alone. A rotation that keeps its records writes them
in the order of their capture times, and `search_survives_rotation` says that whoever searches the
new archives in place of the old ones finds the same. A compaction drops records, and
`search_survives_compaction_iff` says for which queries that makes no difference.
-/

namespace Aethon.Storage

open Actions FileSystem Codec Limits Protocol Parsing StableSort

variable {κ : Type} {disk : Disk Path κ}

/-! ## Entries -/

/-- The entries of archives, in the order of the list and of the files. -/
def archivedEntries (disk : Disk Path κ) (paths : List Path) : List (UInt64 × Packet) :=
  paths.flatMap fun path => (archiveRecords (disk.read path)).map ArchiveRecord.entry

/-- The comparison by capture time. -/
def entryEarlier (left right : UInt64 × Packet) : Bool :=
  left.1 < right.1

theorem entry_earlier_compares : Compares entryEarlier fun entry => entry.1.toNat := by
  intro left right
  rw [entryEarlier, decide_eq_true_iff, UInt64.lt_iff_toNat_lt]

/-- A query looks at nothing of a record but its entry. -/
def ArchiveQuery.acceptsEntry (query : ArchiveQuery) (entry : UInt64 × Packet) : Bool :=
  query.accepts ⟨0, entry.1, entry.2⟩

/-- What is found has the entries of a scan, sorted by capture time and cut off at the limit. -/
theorem found_entries (disk : Disk Path κ) (paths : List Path) (query : ArchiveQuery) :
    ((foundRecords disk paths query).map LocatedRecord.record).map ArchiveRecord.entry =
      firstOf query.limit.toNat
        (stableSort entryEarlier ((archivedEntries disk paths).filter query.acceptsEntry)) := by
  have hentries : (paths.flatMap fun path =>
        (archiveRecords (disk.read path)).filter query.accepts).map ArchiveRecord.entry =
      (archivedEntries disk paths).filter query.acceptsEntry := by
    rw [archivedEntries, List.map_flatMap, List.filter_flatMap]
    refine congrArg (fun f => paths.flatMap f) (funext fun path => ?_)
    rw [List.filter_map]
    rfl
  have hsort : ∀ records : List ArchiveRecord,
      (stableSort recordEarlier records).map ArchiveRecord.entry =
        stableSort entryEarlier (records.map ArchiveRecord.entry) :=
    map_stable_sort fun _ _ => rfl
  rw [← sorted_scan, map_firstOf, hsort, hentries]

/-- Entries in the order of their capture times, searched for in place of others that are the same
in some order. -/
structure SameEntries (entries others : List (UInt64 × Packet)) : Prop where
  perm : others.Perm entries
  inOrder : others.Pairwise fun left right => left.1.toNat ≤ right.1.toNat

theorem SameEntries.filter {entries others : List (UInt64 × Packet)}
    (h : SameEntries entries others) (p : UInt64 × Packet → Bool) :
    SameEntries (entries.filter p) (others.filter p) where
  perm := h.perm.filter p
  inOrder := h.inOrder.filter p

/-- Sorted lists of the same entries have the same capture times, place by place. -/
theorem SameEntries.times {entries others : List (UInt64 × Packet)}
    (h : SameEntries entries others) : (stableSort entryEarlier others).map Prod.fst =
      (stableSort entryEarlier entries).map Prod.fst := by
  have hperm := ((stable_sort_perm entryEarlier others).trans
    (h.perm.trans (stable_sort_perm entryEarlier entries).symm)).map Prod.fst
  have hsorted : ∀ items, ((stableSort entryEarlier items).map Prod.fst).Pairwise
      fun left right => left.toNat ≤ right.toNat := fun items =>
    List.pairwise_map.mpr (pairwise_key entry_earlier_compares items)
  exact List.Perm.eq_of_pairwise (fun left right _ _ hle hge =>
    UInt64.toNat.inj (Nat.le_antisymm hle hge)) (hsorted others) (hsorted entries) hperm

/-- What a search finds in archives with the same entries. -/
theorem found_in_same_entries {disk' : Disk Path κ} {paths paths' : List Path}
    (h : SameEntries (archivedEntries disk paths) (archivedEntries disk' paths'))
    (query : ArchiveQuery) :
    let found := ((foundRecords disk paths query).map LocatedRecord.record).map ArchiveRecord.entry
    let found' :=
      ((foundRecords disk' paths' query).map LocatedRecord.record).map ArchiveRecord.entry
    found'.map Prod.fst = found.map Prod.fst ∧
      (query.limit = 0 → found'.Perm found) ∧
      (archivedEntries disk' paths' = stableSort entryEarlier (archivedEntries disk paths) →
        found' = found) := by
  intro found found'
  have hfound : found = firstOf query.limit.toNat (stableSort entryEarlier
      ((archivedEntries disk paths).filter query.acceptsEntry)) := found_entries disk paths query
  have hfound' : found' = firstOf query.limit.toNat (stableSort entryEarlier
      ((archivedEntries disk' paths').filter query.acceptsEntry)) :=
    found_entries disk' paths' query
  have hsame := h.filter query.acceptsEntry
  rw [hfound, hfound', map_firstOf, map_firstOf, hsame.times]
  refine ⟨rfl, fun hlimit => ?_, fun hsorted => ?_⟩
  · rw [hlimit]
    exact (stable_sort_perm _ _).trans (hsame.perm.trans (stable_sort_perm _ _).symm)
  · rw [stable_sort_of_pairwise entry_earlier_compares hsame.inOrder, hsorted,
      filter_stable_sort entry_earlier_compares]

/-! ## The entries of a plan -/

/-- A record of an input is planned with its entry. -/
theorem planned_entry_of_record {path : Path} {stored : ArchiveRecord}
    (h : stored ∈ archiveRecords (disk.read path)) :
    plannedEntry disk (stored.indexEntry.projection path) = some stored.entry := by
  show ((archiveRecords (disk.read path)).find? fun other => other.offset = stored.offset).map
    ArchiveRecord.entry = _
  have hsome : ((archiveRecords (disk.read path)).find? fun other =>
      other.offset = stored.offset).isSome = true :=
    List.find?_isSome.mpr ⟨stored, h, by simp⟩
  obtain ⟨other, hother⟩ := Option.isSome_iff_exists.mp hsome
  have hoffset : other.offset = stored.offset := by simpa using List.find?_some hother
  rw [hother, List.inj_on_of_nodup_map (offsets_distinct disk path)
    (List.mem_of_find?_eq_some hother) h hoffset]
  rfl

/-- A record of a plan with its capture time, beside the entry that it stands for. -/
def stampedEntry (disk : Disk Path κ) (record : RotationRecordProjection) :
    UInt64 × Option (UInt64 × Packet) :=
  (record.captureTimeNs, plannedEntry disk record)

/-- An entry under its time, to be copied. -/
def stamped (entry : UInt64 × Packet) : UInt64 × Option (UInt64 × Packet) :=
  (entry.1, some entry)

/-- The records of the inputs stand for the archived entries. -/
theorem input_records_stamped (disk : Disk Path κ) (inputs : List RotationInputArchive) :
    (inputRecords disk inputs).map (stampedEntry disk) =
      (archivedEntries disk (inputs.map RotationInputArchive.path)).map stamped := by
  rw [inputRecords, archivedEntries, List.map_flatMap, List.flatMap_map, List.map_flatMap]
  refine congrArg (fun f => inputs.flatMap f) (funext fun input => ?_)
  rw [List.map_map, List.map_map]
  refine List.map_congr_left fun stored hstored => ?_
  show (stored.captureTimeNs, plannedEntry disk (stored.indexEntry.projection input.path)) = _
  rw [planned_entry_of_record hstored]
  rfl

/-- Entries that stand for records in the order of the sort are those of the inputs. -/
theorem same_entries_of_planned {inputs : List RotationInputArchive}
    {records : List RotationRecordProjection} {entries : List (UInt64 × Packet)}
    (hperm : records.Perm (inputRecords disk inputs))
    (hsorted : records.Pairwise fun left right => rotationKey left < rotationKey right)
    (h : entries.map some = records.map (plannedEntry disk)) :
    SameEntries (archivedEntries disk (inputs.map RotationInputArchive.path)) entries ∧
      records.map (stampedEntry disk) = entries.map stamped := by
  have hinput := input_records_stamped disk inputs
  -- each record is stamped with the capture time of its entry
  have htimes : ∀ record ∈ records, (stampedEntry disk record).2.map Prod.fst =
      some record.captureTimeNs := by
    intro record hrecord
    have hmem : stampedEntry disk record ∈
        (archivedEntries disk (inputs.map RotationInputArchive.path)).map stamped :=
      hinput ▸ List.mem_map_of_mem (hperm.mem_iff.mp hrecord)
    obtain ⟨entry, -, hentry⟩ := List.mem_map.mp hmem
    rw [← hentry]
    exact congrArg some (congrArg Prod.fst hentry)
  have hstamps : entries.map Prod.fst = records.map RotationRecordProjection.captureTimeNs := by
    refine (Option.some_injective UInt64).list_map ?_
    rw [List.map_map, List.map_map]
    refine Eq.trans ?_ (List.map_congr_left htimes)
    have hboth := congrArg (List.map (Option.map Prod.fst)) h
    rw [List.map_map, List.map_map] at hboth
    exact hboth
  have hstamped : records.map (stampedEntry disk) = entries.map stamped := by
    have hzip : (records.map RotationRecordProjection.captureTimeNs).zip
        (records.map (plannedEntry disk)) = (entries.map Prod.fst).zip (entries.map some) := by
      rw [h, hstamps]
    rw [List.zip_map', List.zip_map'] at hzip
    exact hzip
  refine ⟨⟨?_, ?_⟩, hstamped⟩
  · have hall := (hperm.map (stampedEntry disk)).map Prod.snd
    rw [hinput, hstamped, List.map_map, List.map_map] at hall
    exact (List.map_perm_map_iff (Option.some_injective _)).mp hall
  · have htimes : (entries.map Prod.fst).Pairwise fun left right => left.toNat ≤ right.toNat := by
      rw [hstamps, List.pairwise_map]
      refine hsorted.imp fun hlt => ?_
      rcases Prod.Lex.toLex_lt_toLex.mp hlt with hlt | ⟨heq, -⟩
      · exact hlt.le
      · exact heq.le
    have hentries := List.pairwise_map.mp htimes
    exact hentries

/-- Inputs that are listed in the order of their paths are sorted stably. -/
theorem sorted_entries_of_planned {inputs : List RotationInputArchive}
    {records : List RotationRecordProjection} {entries : List (UInt64 × Packet)}
    (hperm : records.Perm (inputRecords disk inputs))
    (hsorted : records.Pairwise fun left right => rotationKey left < rotationKey right)
    (hstamped : records.map (stampedEntry disk) = entries.map stamped)
    (hpaths : inputs.Pairwise fun left right => left.path.chars < right.path.chars) :
    entries =
      stableSort entryEarlier (archivedEntries disk (inputs.map RotationInputArchive.path)) := by
  let place (record : RotationRecordProjection) : List Char ×ₗ ℕ :=
    toLex (record.sourcePath.chars, record.sourceOffset.toNat)
  let earlier (left right : RotationRecordProjection) : Bool :=
    left.captureTimeNs < right.captureTimeNs
  let stampEarlier (left right : UInt64 × Option (UInt64 × Packet)) : Bool := left.1 < right.1
  have hcompares : Compares earlier fun record => record.captureTimeNs.toNat :=
    fun left right => decide_eq_true_iff.trans UInt64.lt_iff_toNat_lt
  have hplaces : (inputRecords disk inputs).Pairwise fun left right =>
      place left < place right := by
    refine List.pairwise_flatMap.mpr ⟨fun input _ => ?_, hpaths.imp fun hlt => ?_⟩
    · refine List.pairwise_map.mpr ((offsets_increase disk input.path).imp fun hlt => ?_)
      exact Prod.Lex.toLex_lt_toLex.mpr (.inr ⟨rfl, UInt64.lt_iff_toNat_lt.mp hlt⟩)
    · intro left hleft right hright
      obtain ⟨stored, -, rfl⟩ := List.mem_map.mp hleft
      obtain ⟨stored', -, rfl⟩ := List.mem_map.mp hright
      exact Prod.Lex.toLex_lt_toLex.mpr (.inl hlt)
  have hrecords : records = stableSort earlier (inputRecords disk inputs) :=
    stable_sort_unique hcompares hplaces
      (hsorted.imp fun hlt => Prod.Lex.toLex_lt_toLex.mp hlt) hperm
  -- sorting commutes with the stamps
  have hsort : (stableSort earlier (inputRecords disk inputs)).map (stampedEntry disk) =
      (stableSort entryEarlier (archivedEntries disk (inputs.map RotationInputArchive.path))).map
        stamped := by
    have hleft : ∀ items : List RotationRecordProjection,
        (stableSort earlier items).map (stampedEntry disk) =
          stableSort stampEarlier (items.map (stampedEntry disk)) :=
      map_stable_sort fun _ _ => rfl
    have hright : ∀ items : List (UInt64 × Packet),
        (stableSort entryEarlier items).map stamped =
          stableSort stampEarlier (items.map stamped) :=
      map_stable_sort fun _ _ => rfl
    rw [hleft, hright, input_records_stamped]
  rw [← hrecords, hstamped] at hsort
  have hinjective : Function.Injective stamped := fun left right hsame =>
    Option.some.inj (congrArg Prod.snd hsame)
  exact hinjective.list_map hsort

/-! ## Whole rotations -/

/-- Archives that are read one after the other hold what is read, one behind the other. -/
theorem archived_entries_of_reads {paths : List Path} {written : List (List (UInt64 × Packet))}
    (h : List.Forall₂ (fun path entries => ∃ header records,
      readArchive (disk.read path) = .ok (header, records) ∧
        records.map ArchiveRecord.entry = entries) paths written) :
    ReadableArchives disk paths ∧ archivedEntries disk paths = written.flatten := by
  induction h with
  | nil => exact ⟨fun _ h => (List.not_mem_nil h).elim, rfl⟩
  | @cons path entries paths written hpath _ ih =>
    obtain ⟨header, records, hrecords, hpart⟩ := hpath
    refine ⟨List.forall_mem_cons.mpr ⟨⟨header, records, hrecords⟩, ih.1⟩, ?_⟩
    rw [archivedEntries, List.flatMap_cons, List.flatten_cons, archiveRecords, hrecords]
    exact congrArg₂ (· ++ ·) hpart ih.2

section Rotations

variable [DecidableEq κ] {flushed : Bytes → Bytes} {disk' : Disk Path κ}

/-- What returns without leave to overwrite returns the same with it. -/
theorem ensure_output_overwrites {path : Path} {overwrite : Bool} {warnings : List String}
    (h : start (ensureOutputAvailable path overwrite) disk = (.ok warnings, disk')) :
    start (ensureOutputAvailable path true) disk = (.ok warnings, disk') := by
  cases overwrite with
  | true => exact h
  | false =>
    rw [ensureOutputAvailable, start_get_bind] at h ⊢
    by_cases hfile : disk.isFile path = true
    · rw [if_pos hfile, start_rejectIf_bind_ok_iff] at h
      exact absurd rfl h.1
    · rw [if_neg hfile] at h ⊢
      exact h

/-- An output that could be written may be written over. -/
theorem execute_shard_overwrites {options : RotationExecutionOptions} {shard : RotationShard}
    {report report' : RotationExecutionReport}
    (h : start (executeShard flushed options report shard) disk = (.ok report', disk')) :
    start (executeShard flushed { overwriteOutputs := true } report shard) disk =
      (.ok report', disk') := by
  rw [executeShard, start_bind_ok_iff] at h ⊢
  obtain ⟨warnings, middle, hensure, hrest⟩ := h
  exact ⟨warnings, middle, ensure_output_overwrites hensure, hrest⟩

/-- A rotation that could be executed may write over files. -/
theorem execute_rotation_overwrites {options : RotationExecutionOptions} {plan : RotationPlan}
    {report : RotationExecutionReport}
    (h : start (executeArchiveRotation flushed plan options) disk = (.ok report, disk')) :
    start (executeArchiveRotation flushed plan { overwriteOutputs := true }) disk =
      (.ok report, disk') := by
  have hshards : ∀ (shards : List RotationShard) (begun report : RotationExecutionReport)
      (disk : Disk Path κ),
      start (shards.foldlM (executeShard flushed options) begun) disk = (.ok report, disk') →
      start (shards.foldlM (executeShard flushed { overwriteOutputs := true }) begun) disk =
        (.ok report, disk') := by
    intro shards
    induction shards with
    | nil => exact fun _ _ _ h => h
    | cons shard shards ih =>
      intro begun report disk h
      rw [List.foldlM_cons, start_bind_ok_iff] at h ⊢
      obtain ⟨next, middle, hshard, hrest⟩ := h
      exact ⟨next, middle, execute_shard_overwrites hshard, ih _ _ _ hrest⟩
  rw [executeArchiveRotation, start_rejectIf_bind_ok_iff] at h ⊢
  exact ⟨h.1, hshards _ _ _ _ h.2⟩

/-- What a rotation wrote can be read, and has the entries of its inputs in the order of their
capture times. -/
theorem rotated_entries {inputs : List RotationInputArchive} {policy : RotationPolicy}
    {directory : Path} {plan : RotationPlan} {options : RotationExecutionOptions}
    {report : RotationExecutionReport} (hread : Readable disk inputs)
    (hpaths : inputs.Pairwise fun left right => ¬ left.path.same right.path)
    (hplan : planArchiveRotation disk inputs policy directory = .ok plan)
    (hfiles : ∀ left ∈ plan.shards, ∀ right ∈ plan.shards,
      disk.locate left.outputPath = disk.locate right.outputPath →
        left.outputPath = right.outputPath)
    (hstand : SourcesStand flushed disk plan)
    (hrun : start (executeArchiveRotation flushed plan options) disk = (.ok report, disk')) :
    ReadableArchives disk' report.writtenArchives ∧
      SameEntries (archivedEntries disk (inputs.map RotationInputArchive.path))
        (archivedEntries disk' report.writtenArchives) ∧
      (inputs.Pairwise (fun left right => left.path.chars < right.path.chars) →
        archivedEntries disk' report.writtenArchives = stableSort entryEarlier
          (archivedEntries disk (inputs.map RotationInputArchive.path))) := by
  obtain ⟨hvalid, hwritten, founds, hrotates, -⟩ :=
    execute_rotation_complete (execute_rotation_overwrites hrun)
  have hplaces : (plan.shards.map fun shard => disk.locate shard.outputPath).Nodup := by
    have houtputs := outputs_of_valid hvalid
    rw [List.Nodup, List.pairwise_map] at houtputs ⊢
    exact houtputs.imp_of_mem fun hleft hright hne hsame => hne (hfiles _ hleft _ hright hsame)
  have hreads := hrotates.reads hplaces
  rw [← hwritten] at hreads
  have hplanned : ∀ record ∈ (plan.shards.map RotationShard.records).flatten,
      (plannedEntry disk record).isSome = true := by
    intro record hrecord
    obtain ⟨entry, hentry, -⟩ := planned_entry_of_mem hread (planned_mem hplan hread record hrecord)
    exact Option.isSome_iff_exists.mpr ⟨entry, hentry⟩
  have hentries := (hrotates.entries_eq_iff hplanned).mpr
    ((hrotates.exact_iff (plannedEntry disk)).mpr hstand)
  obtain ⟨hreadable, harchived⟩ := archived_entries_of_reads hreads
  obtain ⟨_, hcollect, hperm, hsorted⟩ := collect_inputs_spec hread hpaths
  rw [planned_flatten hplan hcollect, ← harchived] at hentries
  obtain ⟨hsame, hstamped⟩ := same_entries_of_planned hperm hsorted hentries
  exact ⟨hreadable, hsame, sorted_entries_of_planned hperm hsorted hstamped⟩

/-- Whoever searches the archives that a rotation wrote in place of its inputs finds, for every
query, the same number of records with the same capture times. Without a limit these are the same
records, whatever the order of the inputs was. Where the inputs were listed in the order of their
paths, they are the same records in the same order for every limit. The inputs are readable and
have different paths, none of them is overwritten before its records are copied, and different
outputs are different files. -/
theorem search_survives_rotation {inputs : List RotationInputArchive} {policy : RotationPolicy}
    {directory : Path} {plan : RotationPlan} {execution : RotationExecutionOptions}
    {report : RotationExecutionReport} (hread : Readable disk inputs)
    (hpaths : inputs.Pairwise fun left right => ¬ left.path.same right.path)
    (hplan : planArchiveRotation disk inputs policy directory = .ok plan)
    (hseparate : ∀ before shard after, plan.shards = before ++ shard :: after →
      ∀ record ∈ shard.records, ∀ earlier ∈ before ++ [shard],
        disk.locate record.sourcePath ≠ disk.locate earlier.outputPath)
    (hfiles : ∀ left ∈ plan.shards, ∀ right ∈ plan.shards,
      disk.locate left.outputPath = disk.locate right.outputPath →
        left.outputPath = right.outputPath)
    (hrun : start (executeArchiveRotation flushed plan execution) disk = (.ok report, disk'))
    {options : CollectionSearchOptions} (hload : options.loadRecords = true) :
    ∃ before after found found',
      buildArchiveCollection disk (inputs.map RotationInputArchive.path) = .ok before ∧
      searchArchiveCollection disk before options = .ok found ∧
      buildArchiveCollection disk' report.writtenArchives = .ok after ∧
      searchArchiveCollection disk' after options = .ok found' ∧
      found'.records.map ArchiveRecord.captureTimeNs =
        found.records.map ArchiveRecord.captureTimeNs ∧
      (options.query.limit = 0 → (found'.records.map ArchiveRecord.entry).Perm
        (found.records.map ArchiveRecord.entry)) ∧
      (inputs.Pairwise (fun left right => left.path.chars < right.path.chars) →
        found'.records.map ArchiveRecord.entry = found.records.map ArchiveRecord.entry) := by
  have hstand : SourcesStand flushed disk plan :=
    sources_stand_of_separate hplan hread hseparate
  obtain ⟨hreadable, hsame, hordered⟩ := rotated_entries hread hpaths hplan hfiles hstand hrun
  have hinputs : ReadableArchives disk (inputs.map RotationInputArchive.path) :=
    List.forall_mem_map.mpr hread
  obtain ⟨before, hbefore, -, hsearch⟩ := search_collection_spec hinputs
  obtain ⟨after, hafter, -, hsearch'⟩ := search_collection_spec hreadable
  obtain ⟨found, hfound, hholds⟩ := hsearch options
  obtain ⟨found', hfound', hholds'⟩ := hsearch' options
  have hrecords := hholds.records
  have hrecords' := hholds'.records
  rw [if_pos hload] at hrecords hrecords'
  obtain ⟨htimes, hperm, hequal⟩ := found_in_same_entries hsame options.query
  rw [← hrecords, ← hrecords'] at htimes hperm hequal
  rw [List.map_map, List.map_map] at htimes
  exact ⟨before, after, found, found', hbefore, hfound, hafter, hfound', htimes, hperm,
    fun hlisted => hequal (hordered hlisted)⟩

end Rotations

/-- Two archives are searched after they were cut into shards of one record. -/
theorem search_survives_two_shards :
    ∃ plan report disk', planArchiveRotation twoArchivesDisk twoArchives
        { maxRecordsPerArchive := 1 } ⟨"out"⟩ = .ok plan ∧
      start (executeArchiveRotation (fun _ => []) plan { overwriteOutputs := true })
        twoArchivesDisk = (.ok report, disk') ∧
      ∃ before after found found',
        buildArchiveCollection twoArchivesDisk (twoArchives.map RotationInputArchive.path) =
          .ok before ∧
        searchArchiveCollection twoArchivesDisk before { query := { limit := 1 } } = .ok found ∧
        buildArchiveCollection disk' report.writtenArchives = .ok after ∧
        searchArchiveCollection disk' after { query := { limit := 1 } } = .ok found' ∧
        found'.records.map ArchiveRecord.entry = found.records.map ArchiveRecord.entry := by
  obtain ⟨first, second, hshards, hfirst, hsecond, hout, hout'⟩ : ∃ first second,
      (twoArchivesPlan ⟨"out"⟩).shards = [first, second] ∧
      first.records = [onlyRecord ⟨"incoming.ath"⟩ 1000] ∧
      second.records = [onlyRecord ⟨"archive_000000.ath"⟩ 2000] ∧
      ⟨"incoming.ath"⟩ ≠ first.outputPath ∧ ⟨"archive_000000.ath"⟩ ≠ second.outputPath :=
    ⟨_, _, rfl, by decide, by decide, by decide, by decide⟩
  obtain ⟨founds, disk', hrotates⟩ := two_shards_rotate hfirst hsecond hout hout' fun _ => []
  rw [← hshards] at hrotates
  obtain ⟨report, hrun⟩ := execute_rotation_sound (by decide) hrotates
  have hplan := two_archives_planned ⟨"out"⟩
  have hapart : ∀ shard ∈ (twoArchivesPlan ⟨"out"⟩).shards, ∀ record ∈ shard.records,
      ∀ other ∈ (twoArchivesPlan ⟨"out"⟩).shards, record.sourcePath ≠ other.outputPath := by decide
  obtain ⟨before, after, found, found', hbefore, hfound, hafter, hfound', -, -, hequal⟩ :=
    @search_survives_rotation _ twoArchivesDisk _ (fun _ => []) disk' _ _ _ _ _ report
      two_archives_readable (by decide) hplan (fun front shard behind hsplit record hrecord earlier
        hearlier => hapart shard (by rw [hsplit]; simp) record hrecord earlier (by
          rw [hsplit, List.append_cons]
          exact List.mem_append_left _ hearlier))
      (fun _ _ _ _ hsame => hsame) hrun { query := { limit := 1 } } rfl
  exact ⟨_, report, disk', hplan, hrun, before, after, found, found', hbefore, hfound, hafter,
    hfound', hequal (by decide)⟩

/-! ## Compactions -/

section Compactions

theorem archived_entries_append (disk : Disk Path κ) (front behind : List Path) :
    archivedEntries disk (front ++ behind) =
      archivedEntries disk front ++ archivedEntries disk behind :=
  List.flatMap_append

/-- An archive among others. -/
theorem archived_entries_between {front behind : List Path} {path : Path} {header : ArchiveSummary}
    {records : List ArchiveRecord}
    (hread : readArchive (disk.read path) = .ok (header, records)) :
    archivedEntries disk (front ++ path :: behind) = archivedEntries disk front ++
      records.map ArchiveRecord.entry ++ archivedEntries disk behind := by
  rw [archived_entries_append, List.append_assoc]
  refine congrArg (archivedEntries disk front ++ ·) ?_
  rw [archivedEntries, List.flatMap_cons, archiveRecords, hread]
  rfl

variable [DecidableEq κ] {disk' : Disk Path κ}

/-- Files in other places are not changed. -/
theorem archived_entries_put {place : κ} (file : Option File) {paths : List Path}
    (h : ∀ path ∈ paths, disk.locate path ≠ place) :
    archivedEntries (disk.put place file) paths = archivedEntries disk paths ∧
      (ReadableArchives disk paths → ReadableArchives (disk.put place file) paths) := by
  constructor
  · refine List.flatMap_congr fun path hpath => ?_
    rw [Disk.read_put_of_ne (h path hpath)]
  · intro hreadable path hpath
    rw [Disk.read_put_of_ne (h path hpath)]
    exact hreadable path hpath

/-- No record that a compaction drops is accepted by the query. -/
def DropsUnsought (options : CompactionOptions) (query : ArchiveQuery)
    (records : List ArchiveRecord) : Prop :=
  ∀ record ∈ records, query.accepts record = true → options.admits record = true ∧
    (options.keepLatestPerDevice = true → ∀ other ∈ records,
      other.packet.device = record.packet.device →
        other.packet.sequence ≤ record.packet.sequence)

/-- The compaction drops nothing that is sought exactly under these conditions. -/
theorem drops_unsought_iff {options : CompactionOptions} {query : ArchiveQuery}
    {records : List ArchiveRecord} {latest : Std.ExtTreeMap DeviceId UInt32}
    (hlatest : options.keepLatestPerDevice = true → LatestOf latest records) :
    DropsUnsought options query records ↔
      ∀ record ∈ records.filter query.accepts, options.keeps latest record = true := by
  simp only [DropsUnsought, List.mem_filter, and_imp, CompactionOptions.keeps, Bool.and_eq_true,
    Bool.not_eq_true']
  refine forall₃_congr fun record _ _ => and_congr_right fun _ => ?_
  cases hkeep : options.keepLatestPerDevice with
  | false => exact iff_of_true (fun h => absurd h Bool.false_ne_true) rfl
  | true =>
      rw [Bool.true_and, ← Bool.not_eq_true, (hlatest hkeep).is_superseded_iff]
      simp only [true_imp_iff, not_exists, not_and, UInt32.not_lt]

/-- The entries of archives of which one is replaced by what a compaction kept of it. -/
theorem accepted_of_kept {options : CompactionOptions} (query : ArchiveQuery)
    {records : List ArchiveRecord} (latest : Std.ExtTreeMap DeviceId UInt32)
    (entries others : List (UInt64 × Packet)) :
    let before := (entries ++ records.map ArchiveRecord.entry ++ others).filter query.acceptsEntry
    let after := (entries ++ (records.filter (options.keeps latest)).map ArchiveRecord.entry ++
      others).filter query.acceptsEntry
    after.Sublist before ∧ (after.length = before.length ↔
      ∀ record ∈ records.filter query.accepts, options.keeps latest record = true) := by
  intro before after
  have hbefore : before = entries.filter query.acceptsEntry ++
      (records.filter query.accepts).map ArchiveRecord.entry ++
        others.filter query.acceptsEntry := by
    show List.filter _ _ = _
    rw [List.filter_append, List.filter_append, List.filter_map]
    rfl
  have hafter : after = entries.filter query.acceptsEntry ++
      ((records.filter query.accepts).filter (options.keeps latest)).map ArchiveRecord.entry ++
        others.filter query.acceptsEntry := by
    show List.filter _ _ = _
    rw [List.filter_append, List.filter_append, List.filter_map, List.filter_comm]
    rfl
  rw [hbefore, hafter]
  constructor
  · exact ((List.Sublist.refl _).append (List.filter_sublist.map _)).append (List.Sublist.refl _)
  · simp only [List.length_append, List.length_map, Nat.add_right_cancel_iff,
      Nat.add_left_cancel_iff, List.length_filter_eq_length_iff]

/-- A search of archives of which one is replaced by its compaction finds the same for every limit,
if no record that the query accepts was dropped. Without a limit it finds the same only then; it
always finds a part of what was found before. -/
theorem search_survives_compaction_iff
    (overwritten : ArchiveReader → List ArchiveRecord × Option Error)
    {front behind : List Path} {source destination : Path} {compaction : CompactionOptions}
    {header : ArchiveSummary} {records : List ArchiveRecord} {stats : CompactionStats}
    (hreadable : ReadableArchives disk (front ++ behind))
    (hread : readArchive (disk.read source) = .ok (header, records))
    (hapart : ∀ path ∈ front ++ source :: behind, disk.locate path ≠ disk.locate destination)
    (hrun : start (compactArchive overwritten source destination compaction) disk =
      (.ok stats, disk')) {options : CollectionSearchOptions} (hload : options.loadRecords = true) :
    ∃ before after found found',
      buildArchiveCollection disk (front ++ source :: behind) = .ok before ∧
      searchArchiveCollection disk before options = .ok found ∧
      buildArchiveCollection disk' (front ++ destination :: behind) = .ok after ∧
      searchArchiveCollection disk' after options = .ok found' ∧
      (DropsUnsought compaction options.query records →
        found'.records.map ArchiveRecord.entry = found.records.map ArchiveRecord.entry) ∧
      (options.query.limit = 0 →
        (found'.records.map ArchiveRecord.entry).Sublist
          (found.records.map ArchiveRecord.entry) ∧
        (found'.records.map ArchiveRecord.entry = found.records.map ArchiveRecord.entry ↔
          DropsUnsought compaction options.query records)) := by
  obtain ⟨latest, file, hlatest, -, rfl, -, hwritten⟩ := compaction_written overwritten hread
    (hapart source (by simp)).symm hrun
  have hout : (disk.put (disk.locate destination) (some file)).read destination =
      some file.bytes := Disk.read_put_same rfl file
  obtain ⟨hfrontReadable, hbehindReadable⟩ := List.forall_mem_append.mp hreadable
  obtain ⟨hfront, hfrontReads⟩ := archived_entries_put (some file) fun path hpath =>
    hapart path (List.mem_append_left _ hpath)
  obtain ⟨hbehind, hbehindReads⟩ := archived_entries_put (some file) fun path hpath =>
    hapart path (List.mem_append_right _ (List.mem_cons_of_mem _ hpath))
  have hafter : archivedEntries (disk.put (disk.locate destination) (some file))
      (front ++ destination :: behind) = archivedEntries disk front ++
        (records.filter (compaction.keeps latest)).map ArchiveRecord.entry ++
          archivedEntries disk behind := by
    rw [archived_entries_between (hout.symm ▸ hwritten), hfront, hbehind, entries_recordsAt]
  obtain ⟨before, hbuild, -, hsearch⟩ := search_collection_spec
    (List.forall_mem_append.mpr ⟨hfrontReadable, List.forall_mem_cons.mpr
      ⟨⟨header, records, hread⟩, hbehindReadable⟩⟩)
  obtain ⟨after, hbuild', -, hsearch'⟩ := search_collection_spec
    (List.forall_mem_append.mpr ⟨hfrontReads hfrontReadable, List.forall_mem_cons.mpr
      ⟨⟨_, _, hout.symm ▸ hwritten⟩, hbehindReads hbehindReadable⟩⟩)
  obtain ⟨found, hfound, hholds⟩ := hsearch options
  obtain ⟨found', hfound', hholds'⟩ := hsearch' options
  have hrecords := hholds.records
  have hrecords' := hholds'.records
  rw [if_pos hload] at hrecords hrecords'
  refine ⟨before, after, found, found', hbuild, hfound, hbuild', hfound', ?_⟩
  rw [hrecords, hrecords', found_entries, found_entries, archived_entries_between hread, hafter,
    drops_unsought_iff hlatest]
  obtain ⟨hpart, hlength⟩ := @accepted_of_kept compaction options.query records latest
    (archivedEntries disk front) (archivedEntries disk behind)
  have hsorted := sublist_stable_sort entry_earlier_compares hpart
  refine ⟨fun hkept => ?_, fun hlimit => ?_⟩
  · rw [hpart.eq_of_length (hlength.mpr hkept)]
  · rw [hlimit]
    refine ⟨hsorted, Iff.trans ⟨fun hsame => ?_, fun hsame => ?_⟩ hlength⟩
    · have hlengths := congrArg List.length hsame
      exact (stable_sort_perm _ _).length_eq.symm.trans
        (hlengths.trans (stable_sort_perm _ _).length_eq)
    · rw [hpart.eq_of_length hsame]

end Compactions

/-- Later readings are found after a compaction that keeps the latest reading of each device. -/
theorem search_survives_latest_only :
    ∃ stats disk', start (compactArchive ArchiveReader.drain ⟨"day.ath"⟩ ⟨"latest.ath"⟩
        { keepLatestPerDevice := true }) readingsDisk = (.ok stats, disk') ∧
      ∃ before after found found',
        buildArchiveCollection readingsDisk [⟨"day.ath"⟩] = .ok before ∧
        searchArchiveCollection readingsDisk before
          { query := { startTimeNs := some 2000, limit := 1 } } = .ok found ∧
        buildArchiveCollection disk' [⟨"latest.ath"⟩] = .ok after ∧
        searchArchiveCollection disk' after
          { query := { startTimeNs := some 2000, limit := 1 } } = .ok found' ∧
        found'.records.map ArchiveRecord.entry = found.records.map ArchiveRecord.entry := by
  obtain ⟨hsource, hlength, hread⟩ := read_two_readings
  obtain ⟨stats, disk', hrun⟩ := compaction_returns ArchiveReader.drain
    { keepLatestPerDevice := true } hsource hread
    (show readingsDisk.locate ⟨"latest.ath"⟩ ≠ readingsDisk.locate ⟨"day.ath"⟩ by decide)
    ⟨Or.inl rfl, smallMedium, rfl, hlength⟩
  have hkept : DropsUnsought { keepLatestPerDevice := true }
      { startTimeNs := some 2000, limit := 1 } (recordsAt 36 twoReadings) := by
    unfold DropsUnsought
    decide
  obtain ⟨before, after, found, found', hbuild, hfound, hbuild', hfound', hsame, -⟩ :=
    @search_survives_compaction_iff _ readingsDisk _ disk' ArchiveReader.drain [] [] ⟨"day.ath"⟩
      ⟨"latest.ath"⟩ { keepLatestPerDevice := true } _ _ stats (List.forall_mem_nil _)
      (hsource.symm ▸ hread) (List.forall_mem_singleton.mpr (by decide)) hrun
      { query := { startTimeNs := some 2000, limit := 1 } } rfl
  exact ⟨stats, disk', hrun, before, after, found, found', hbuild, hfound, hbuild', hfound',
    hsame hkept⟩

end Aethon.Storage
