import Mathlib.Data.List.ReduceOption
import Aethon.Storage.RotationPlanning
import Aethon.Storage.RotationRuns

/-!
# What a rotation keeps

A shard that is written over a source takes the records away that later shards were to read from it.
`rotation_kept_iff` says exactly when a rotation that returns has kept the records of its plan.
-/

namespace Aethon.Storage

open Actions FileStream FileSystem Codec Protocol Parsing

variable {κ : Type}

/-! ## The records of a plan -/

/-- The entry of a record of a plan, as it stands in its source. -/
def plannedEntry (disk : Disk Path κ) (record : RotationRecordProjection) :
    Option (UInt64 × Packet) :=
  ((archiveRecords (disk.read record.sourcePath)).find? fun stored =>
    stored.offset = record.sourceOffset).map ArchiveRecord.entry

/-- The entry that is read at an offset of a file. -/
def entryAt (file : Option Bytes) (offset : UInt64) : Option (UInt64 × Packet) :=
  match readRecordAt file offset with
  | .ok found => found.map ArchiveRecord.entry
  | .error _ => none

/-- The shards of a plan hold the collected records. -/
theorem planned_flatten {disk : Disk Path κ} {inputs : List RotationInputArchive}
    {policy : RotationPolicy} {directory : Path} {plan : RotationPlan}
    (hplan : planArchiveRotation disk inputs policy directory = .ok plan)
    {records : List RotationRecordProjection} (hcollect : collectInputs disk inputs = .ok records) :
    (plan.shards.map RotationShard.records).flatten = records := by
  obtain ⟨-, -, other, hother, rfl⟩ := plan_archive_rotation_ok_iff.mp hplan
  obtain rfl := Except.ok.inj (hcollect.symm.trans hother)
  by_cases hkept : records ≠ [] ∨ policy.keepEmptyArchives = true
  · rw [if_pos hkept]
    exact plan_records_flatten directory rfl rfl hkept
  · rw [if_neg hkept]
    exact (not_not.mp fun hrecords => hkept (Or.inl hrecords)).symm

/-- The records of a plan are records of its inputs. -/
theorem planned_mem {disk : Disk Path κ} {inputs : List RotationInputArchive}
    {policy : RotationPolicy} {directory : Path} {plan : RotationPlan}
    (hplan : planArchiveRotation disk inputs policy directory = .ok plan)
    (hread : Readable disk inputs) :
    ∀ record ∈ (plan.shards.map RotationShard.records).flatten,
      record ∈ inputRecords disk inputs := by
  obtain ⟨projected, hcollect, hperm⟩ := collect_inputs_perm hread
  rw [planned_flatten hplan hcollect]
  exact fun record hrecord => ((List.mergeSort_perm _ _).trans hperm).mem_iff.mp hrecord

/-- They stand in the inputs, and are read there. -/
theorem planned_entry_of_mem {disk : Disk Path κ} {inputs : List RotationInputArchive}
    (hread : Readable disk inputs) {record : RotationRecordProjection}
    (h : record ∈ inputRecords disk inputs) : ∃ entry, plannedEntry disk record = some entry ∧
      entryAt (disk.read record.sourcePath) record.sourceOffset = some entry := by
  obtain ⟨input, hinput, hrecord⟩ := List.mem_flatMap.mp h
  obtain ⟨stored, hstored, rfl⟩ := List.mem_map.mp hrecord
  obtain ⟨header, records, hrecords⟩ := hread input hinput
  rcases hfile : disk.read input.path with _ | content
  · rw [hfile] at hrecords
    cases hrecords
  have hrecorded : archiveRecords (disk.read input.path) = records := by
    rw [archiveRecords, hrecords]
  have hdistinct := offsets_distinct disk input.path
  rw [hrecorded] at hstored hdistinct
  have hfind : records.find? (fun other => other.offset = stored.offset) = some stored := by
    have hsome : (records.find? fun other => other.offset = stored.offset).isSome = true :=
      List.find?_isSome.mpr ⟨stored, hstored, by simp⟩
    obtain ⟨other, hother⟩ := Option.isSome_iff_exists.mp hsome
    have hoffset : other.offset = stored.offset := by simpa using List.find?_some hother
    rw [hother, List.inj_on_of_nodup_map hdistinct (List.mem_of_find?_eq_some hother) hstored
      hoffset]
  refine ⟨stored.entry, ?_, ?_⟩
  · show ((archiveRecords (disk.read input.path)).find? fun other =>
      other.offset = stored.offset).map ArchiveRecord.entry = _
    rw [hrecorded, hfind]
    rfl
  · show entryAt (disk.read input.path) stored.offset = _
    rw [hfile] at hrecords ⊢
    rw [entryAt, read_record_at_of_mem hrecords (Disk.read_addressable hfile) hstored]
    rfl

/-! ## Where the records stand -/

/-- What holds of every place in a list, told apart by what is in front of it. -/
theorem forall_split_cons {α : Type} {P : List α → α → Prop} {a : α} {as : List α} :
    (∀ front x behind, a :: as = front ++ x :: behind → P front x) ↔
      P [] a ∧ ∀ front x behind, as = front ++ x :: behind → P (a :: front) x := by
  constructor
  · intro h
    exact ⟨h [] a as rfl, fun front x behind has => h (a :: front) x behind (by rw [has]; rfl)⟩
  · intro h front x behind has
    rcases front with _ | ⟨first, front⟩
    · obtain ⟨rfl, -⟩ := List.cons.inj has
      exact h.1
    · obtain ⟨rfl, hrest⟩ := List.cons.inj has
      exact h.2 front x behind hrest

/-- Options whose values are as many others, in their order, are these. -/
theorem values_eq_iff {α : Type} {options values : List (Option α)}
    (hlength : options.length = values.length) (hvalues : ∀ value ∈ values, value.isSome = true) :
    options.reduceOption.map some = values ↔ options = values := by
  induction options generalizing values with
  | nil =>
      obtain rfl := List.length_eq_zero_iff.mp hlength.symm
      simp
  | cons option options ih =>
      obtain ⟨value, values, rfl⟩ := List.exists_cons_of_length_eq_add_one hlength.symm
      obtain ⟨hvalue, hvalues⟩ := List.forall_mem_cons.mp hvalues
      have hrest := Nat.succ.inj hlength
      rcases option with _ | a
      · refine iff_of_false ?_ ?_
        · intro hall
          have hfew := congrArg List.length hall
          have hle := List.reduceOption_length_le options
          rw [List.reduceOption_cons_of_none, List.length_map, List.length_cons] at hfew
          omega
        · intro hall
          rw [← (List.cons.inj hall).1] at hvalue
          cases hvalue
      · rw [List.reduceOption_cons_of_some, List.map_cons, List.cons.injEq, List.cons.injEq,
          ih hrest hvalues]

theorem found_eq_entryAt {file : Option Bytes} {offset : UInt64} {found : Option ArchiveRecord}
    (h : readRecordAt file offset = .ok found) :
    found.map ArchiveRecord.entry = entryAt file offset := by
  rw [entryAt, h]

/-- What is found is what was planned exactly when each record stands in what its path leads to
behind the entries planned for those in front of it. -/
theorem Finds.exact_iff {seen : Bytes → Path → Option Bytes} {content : Bytes}
    {records : List RotationRecordProjection} {founds : List (Option ArchiveRecord)}
    (h : Finds seen content records founds)
    (planned : RotationRecordProjection → Option (UInt64 × Packet)) :
    founds.map (Option.map ArchiveRecord.entry) = records.map planned ↔
      ∀ front record behind, records = front ++ record :: behind →
        entryAt (seen (content ++ recordsWire (front.filterMap planned)) record.sourcePath)
          record.sourceOffset = planned record := by
  induction h with
  | nil content => simp
  | @cons content record records found founds hread hrest ih =>
      rw [@forall_split_cons _ (fun front record =>
        entryAt (seen (content ++ recordsWire (front.filterMap planned)) record.sourcePath)
          record.sourceOffset = planned record), List.map_cons, List.map_cons, List.cons.injEq]
      have hhead : entryAt (seen (content ++ recordsWire ([].filterMap planned)) record.sourcePath)
          record.sourceOffset = found.map ArchiveRecord.entry := by
        rw [List.filterMap_nil, recordsWire, List.flatMap_nil, List.append_nil,
          found_eq_entryAt hread]
      rw [hhead]
      refine and_congr_right fun hsame => ih.trans ?_
      have hcontent : ∀ front, content ++ recordsWire ((record :: front).filterMap planned) =
          content ++ recordsWire (foundEntries [found]) ++
            recordsWire (front.filterMap planned) := by
        intro front
        have hentries : (record :: front).filterMap planned =
            foundEntries [found] ++ front.filterMap planned := by
          rw [List.filterMap_cons, ← hsame]
          rcases found with _ | stored
          · rfl
          · rfl
        rw [hentries, recordsWire, List.flatMap_append, ← List.append_assoc]
        rfl
      simp only [hcontent]

section Rotations

variable [DecidableEq κ] {flushed : Bytes → Bytes} {disk disk' : Disk Path κ}
  {shards : List RotationShard} {founds : List (List (Option ArchiveRecord))}

/-- The disk once shards were written as planned. -/
def writtenAsPlanned (planned : RotationRecordProjection → Option (UInt64 × Packet))
    (disk : Disk Path κ) (shards : List RotationShard) : Disk Path κ :=
  shards.foldl (fun disk shard =>
    disk.put (disk.locate shard.outputPath) (archiveFile (shard.records.filterMap planned))) disk

/-- Entries that were found as planned are the planned entries. -/
theorem foundEntries_of_eq {founds : List (Option ArchiveRecord)}
    {records : List RotationRecordProjection}
    {planned : RotationRecordProjection → Option (UInt64 × Packet)}
    (h : founds.map (Option.map ArchiveRecord.entry) = records.map planned) :
    foundEntries founds = records.filterMap planned := by
  have hid := congrArg (List.filterMap id) h
  rwa [List.filterMap_map, List.filterMap_map] at hid

/-- A run finds what was planned exactly when each record stands in what its path leads to, while
its shard is written behind those in front of it. -/
theorem Rotates.exact_iff (h : Rotates flushed disk shards founds disk')
    (planned : RotationRecordProjection → Option (UInt64 × Packet)) :
    founds.map (List.map (Option.map ArchiveRecord.entry)) =
        shards.map (fun shard => shard.records.map planned) ↔
      ∀ before shard after, shards = before ++ shard :: after →
        ∀ front record behind, shard.records = front ++ record :: behind →
          entryAt (seenFile flushed (writtenAsPlanned planned disk before) shard.outputPath
            (openedWire ++ recordsWire (front.filterMap planned)) record.sourcePath)
            record.sourceOffset = planned record := by
  induction h with
  | nil disk => simp
  | @cons disk disk' shard shards founds rest medium hfinds hmedium hfits hrest ih =>
      rw [forall_split_cons, List.map_cons, List.map_cons, List.cons.injEq]
      refine (and_congr_left fun _ => hfinds.exact_iff planned).trans ?_
      refine and_congr_right fun hfirst => ?_
      have hentries := foundEntries_of_eq ((hfinds.exact_iff planned).mpr hfirst)
      rw [hentries] at ih
      exact ih

/-- Each record of a shard is found or missing. -/
theorem Rotates.lengths (h : Rotates flushed disk shards founds disk') :
    founds.map List.length = shards.map fun shard => shard.records.length := by
  induction h with
  | nil disk => rfl
  | cons hfinds _ _ _ ih => rw [List.map_cons, List.map_cons, hfinds.length_eq, ih]

/-- Files at other places than the outputs are kept. -/
theorem Rotates.read_of_ne (h : Rotates flushed disk shards founds disk') {path : Path}
    (hpath : ∀ shard ∈ shards, disk.locate path ≠ disk.locate shard.outputPath) :
    disk'.read path = disk.read path := by
  induction h with
  | nil disk => rfl
  | cons _ _ _ _ ih =>
      rw [ih fun other hother => hpath other (List.mem_cons_of_mem _ hother)]
      exact Disk.read_put_of_ne (hpath _ List.mem_cons_self) _

/-- Outputs at different places keep what was written to them. -/
theorem Rotates.reads (h : Rotates flushed disk shards founds disk')
    (hplaces : (shards.map fun shard => disk.locate shard.outputPath).Nodup) :
    List.Forall₂ (fun path entries => ∃ header records,
        readArchive (disk'.read path) = .ok (header, records) ∧
        records.map ArchiveRecord.entry = entries)
      (shards.map RotationShard.outputPath) (founds.map foundEntries) := by
  induction h with
  | nil disk => exact List.Forall₂.nil
  | @cons disk disk' shard shards founds rest medium hfinds hmedium hfits hrest ih =>
      obtain ⟨hshard, hshards⟩ := List.nodup_cons.mp hplaces
      refine List.Forall₂.cons ?_ (ih hshards)
      have hkept := hrest.read_of_ne fun other hother hsame =>
        hshard (List.mem_map.mpr ⟨other, hother, hsame.symm⟩)
      have hread : disk'.read shard.outputPath = some (archiveWire (foundEntries founds)) := by
        rw [hkept, archiveFile, Disk.read_put_same rfl,
          File.bytes_ofBytes (hfits.trans_lt medium.addressable)]
      rw [hread]
      exact ⟨_, _, read_archive_wire hfinds.readable, entries_recordsAt _ _⟩

/-! ## What is kept -/

/-- The archives that were written hold, one behind the other, the records of the plan as they stood
in their sources, and none was skipped. -/
structure RotationKept (before after : Disk Path κ) (plan : RotationPlan)
    (report : RotationExecutionReport) : Prop where
  records : ∃ written : List (List (UInt64 × Packet)),
    List.Forall₂ (fun path entries => ∃ header records,
        readArchive (after.read path) = .ok (header, records) ∧
        records.map ArchiveRecord.entry = entries) report.writtenArchives written ∧
      written.flatten.map some =
        (plan.shards.map RotationShard.records).flatten.map (plannedEntry before)
  skipped : report.recordsSkipped = 0

/-- Each record of the plan stands in what its path leads to, while its shard is written behind the
planned archives of the shards in front of it. -/
def SourcesStand (flushed : Bytes → Bytes) (disk : Disk Path κ) (plan : RotationPlan) : Prop :=
  ∀ before shard after, plan.shards = before ++ shard :: after →
    ∀ front record behind, shard.records = front ++ record :: behind →
      entryAt (seenFile flushed (writtenAsPlanned (plannedEntry disk) disk before) shard.outputPath
        (openedWire ++ recordsWire (front.filterMap (plannedEntry disk))) record.sourcePath)
        record.sourceOffset = plannedEntry disk record

omit [DecidableEq κ] in
/-- An archive is read in one way. -/
theorem entries_read_unique {paths : List Path} {written others : List (List (UInt64 × Packet))}
    (h : List.Forall₂ (fun path entries => ∃ header records,
      readArchive (disk.read path) = .ok (header, records) ∧
      records.map ArchiveRecord.entry = entries) paths written)
    (h' : List.Forall₂ (fun path entries => ∃ header records,
      readArchive (disk.read path) = .ok (header, records) ∧
      records.map ArchiveRecord.entry = entries) paths others) : written = others := by
  refine List.right_unique_forall₂' ?_ h h'
  intro path entries others hentries hothers
  obtain ⟨_, _, hread, rfl⟩ := hentries
  obtain ⟨_, _, hread', rfl⟩ := hothers
  rw [(Prod.mk.inj (Except.ok.inj (hread.symm.trans hread'))).2]

section Planned

variable {planned : RotationRecordProjection → Option (UInt64 × Packet)}

/-- The records that were found are those of the plan, in one list, exactly when they are shard by
shard. -/
theorem Rotates.entries_eq_iff (h : Rotates flushed disk shards founds disk')
    (hplanned : ∀ record ∈ (shards.map RotationShard.records).flatten,
      (planned record).isSome = true) :
    (founds.map foundEntries).flatten.map some =
        (shards.map RotationShard.records).flatten.map planned ↔
      founds.map (List.map (Option.map ArchiveRecord.entry)) =
        shards.map fun shard => shard.records.map planned := by
  let found := founds.map (List.map (Option.map ArchiveRecord.entry))
  let values := shards.map fun shard => shard.records.map planned
  have hvalues : (shards.map RotationShard.records).flatten.map planned = values.flatten := by
    rw [List.map_flatten, List.map_map]
    rfl
  have hentries : (founds.map foundEntries).flatten = found.flatten.reduceOption := by
    rw [List.reduceOption, List.filterMap_flatten, List.map_map]
    refine congrArg List.flatten (List.map_congr_left fun block _ => ?_)
    rw [Function.comp_apply, List.filterMap_map]
    rfl
  have hlengths : found.map List.length = values.map List.length := by
    simpa [found, values, Function.comp_def] using h.lengths
  have hlength : found.flatten.length = values.flatten.length := by
    rw [List.length_flatten, List.length_flatten, hlengths]
  have hsome : ∀ value ∈ values.flatten, value.isSome = true := by
    rw [← hvalues, List.forall_mem_map]
    exact hplanned
  rw [hentries, hvalues, values_eq_iff hlength hsome]
  show found.flatten = values.flatten ↔ found = values
  rw [List.eq_iff_flatten_eq, and_iff_left hlengths]

/-- Where every record of a plan was found none was missing. -/
theorem countP_isNone_of_found
    (hplanned : ∀ record ∈ (shards.map RotationShard.records).flatten,
      (planned record).isSome = true)
    (h : founds.map (List.map (Option.map ArchiveRecord.entry)) =
      shards.map fun shard => shard.records.map planned) :
    founds.flatten.countP Option.isNone = 0 := by
  have hflat : founds.flatten.map (Option.map ArchiveRecord.entry) =
      (shards.map RotationShard.records).flatten.map planned := by
    rw [List.map_flatten, h, List.map_flatten, List.map_map]
    rfl
  rw [List.countP_eq_zero]
  intro record hrecord
  have hmem : record.map ArchiveRecord.entry ∈
      (shards.map RotationShard.records).flatten.map planned :=
    hflat ▸ List.mem_map_of_mem hrecord
  obtain ⟨source, hsource, hvalue⟩ := List.mem_map.mp hmem
  have hsome := hplanned source hsource
  rw [hvalue, Option.isSome_map] at hsome
  rw [Bool.not_eq_true, Option.isNone_eq_false_iff, hsome]

end Planned

/-- A rotation that returns has kept the records of its plan exactly when they still stood in their
sources as they were read. Different outputs are different files. -/
theorem rotation_kept_iff {inputs : List RotationInputArchive} {policy : RotationPolicy}
    {directory : Path} {plan : RotationPlan} {report : RotationExecutionReport}
    (hplan : planArchiveRotation disk inputs policy directory = .ok plan)
    (hread : Readable disk inputs)
    (hfiles : ∀ left ∈ plan.shards, ∀ right ∈ plan.shards,
      disk.locate left.outputPath = disk.locate right.outputPath →
        left.outputPath = right.outputPath)
    (hrun : start (executeArchiveRotation flushed plan { overwriteOutputs := true }) disk =
      (.ok report, disk')) :
    RotationKept disk disk' plan report ↔ SourcesStand flushed disk plan := by
  obtain ⟨hvalid, hwritten, founds, hrotates, hskipped⟩ := execute_rotation_complete hrun
  have hplaces : (plan.shards.map fun shard => disk.locate shard.outputPath).Nodup := by
    have houtputs := outputs_of_valid hvalid
    rw [List.Nodup, List.pairwise_map] at houtputs ⊢
    refine houtputs.imp_of_mem fun {left right} hleft hright hne hsame => hne ?_
    exact hfiles left hleft right hright hsame
  have hreads := hrotates.reads hplaces
  rw [← hwritten] at hreads
  have hplanned : ∀ record ∈ (plan.shards.map RotationShard.records).flatten,
      (plannedEntry disk record).isSome = true := by
    intro record hrecord
    obtain ⟨entry, hentry, -⟩ := planned_entry_of_mem hread (planned_mem hplan hread record hrecord)
    exact Option.isSome_iff_exists.mpr ⟨entry, hentry⟩
  have hkept := hrotates.entries_eq_iff hplanned
  refine Iff.trans ?_ (hkept.trans (hrotates.exact_iff (plannedEntry disk)))
  constructor
  · intro h
    obtain ⟨⟨written, hleft, hrecords⟩, -⟩ := h
    rwa [entries_read_unique hleft hreads] at hrecords
  · intro h
    refine ⟨⟨_, hreads, h⟩, ?_⟩
    rw [hskipped, countP_isNone_of_found hplanned (hkept.mp h)]
    rfl

/-- Writing files moves none. -/
theorem locate_writtenAsPlanned
    (planned : RotationRecordProjection → Option (UInt64 × Packet)) (disk : Disk Path κ)
    (shards : List RotationShard) :
    (writtenAsPlanned planned disk shards).locate = disk.locate := by
  induction shards generalizing disk with
  | nil => rfl
  | cons shard shards ih => exact ih _

/-- A file that no output replaces is left alone. -/
theorem read_writtenAsPlanned_of_ne {planned : RotationRecordProjection → Option (UInt64 × Packet)}
    {path : Path} (hpath : ∀ shard ∈ shards, disk.locate path ≠ disk.locate shard.outputPath) :
    (writtenAsPlanned planned disk shards).read path = disk.read path := by
  induction shards generalizing disk with
  | nil => rfl
  | cons shard shards ih =>
      have hrest := @ih (disk.put (disk.locate shard.outputPath)
        (archiveFile (shard.records.filterMap planned)))
        fun other hother => hpath other (List.mem_cons_of_mem _ hother)
      exact hrest.trans (Disk.read_put_of_ne (hpath shard List.mem_cons_self) _)

/-- Records whose sources are no output of their own shard or of one in front of it still stand
there. -/
theorem sources_stand_of_separate {inputs : List RotationInputArchive} {policy : RotationPolicy}
    {directory : Path} {plan : RotationPlan}
    (hplan : planArchiveRotation disk inputs policy directory = .ok plan)
    (hread : Readable disk inputs)
    (hseparate : ∀ before shard after, plan.shards = before ++ shard :: after →
      ∀ record ∈ shard.records, ∀ earlier ∈ before ++ [shard],
        disk.locate record.sourcePath ≠ disk.locate earlier.outputPath) :
    SourcesStand flushed disk plan := by
  intro before shard after hshards front record behind hrecords
  have hmem : record ∈ shard.records := by
    rw [hrecords]
    exact List.mem_append_right _ List.mem_cons_self
  have hapart := hseparate before shard after hshards record hmem
  have hplanned : record ∈ (plan.shards.map RotationShard.records).flatten := by
    rw [hshards]
    simp [hmem]
  obtain ⟨entry, hentry, hread⟩ := planned_entry_of_mem hread (planned_mem hplan hread _ hplanned)
  have hown := hapart shard (List.mem_append_right _ (List.mem_singleton_self shard))
  rw [seenFile, locate_writtenAsPlanned, if_neg hown, read_writtenAsPlanned_of_ne fun earlier
    hearlier => hapart earlier (List.mem_append_left _ hearlier), hread, hentry]

end Rotations

/-! ## Two archives -/

/-- The records of both archives are collected by time. -/
theorem two_archives_collected : collectInputs twoArchivesDisk twoArchives =
    .ok [onlyRecord ⟨"incoming.ath"⟩ 1000, onlyRecord ⟨"archive_000000.ath"⟩ 2000] := by
  obtain ⟨records, hcollect, hperm, hsorted⟩ :=
    collect_inputs_spec two_archives_readable (by decide)
  rw [two_archives_records] at hperm
  rw [hcollect]
  refine congrArg Except.ok (List.Perm.eq_of_pairwise ?_ hsorted ?_
    (hperm.trans (List.Perm.swap _ _ _)))
  · exact fun left right _ _ hlt hgt => absurd (hlt.trans hgt) (lt_irrefl _)
  · have hlt : rotationKey (onlyRecord ⟨"incoming.ath"⟩ 1000) <
        rotationKey (onlyRecord ⟨"archive_000000.ath"⟩ 2000) :=
      Prod.Lex.toLex_lt_toLex.mpr (Or.inl (by decide))
    exact List.pairwise_pair.mpr hlt

/-- One record to an archive. -/
def twoArchivesPlan (directory : Path) : RotationPlan :=
  let records := [onlyRecord ⟨"incoming.ath"⟩ 1000, onlyRecord ⟨"archive_000000.ath"⟩ 2000]
  planRecords (.begun { maxRecordsPerArchive := 1 } twoArchives records) directory records

theorem two_archives_planned (directory : Path) : planArchiveRotation twoArchivesDisk twoArchives
    { maxRecordsPerArchive := 1 } directory = .ok (twoArchivesPlan directory) :=
  plan_archive_rotation_ok_iff.mpr ⟨by decide, by decide, _, two_archives_collected,
    (if_pos (Or.inl (List.cons_ne_nil _ _))).symm⟩

theorem read_archive_of_one (time : UInt64) : readRecordAt (some (archiveOfOne time)) 36 =
    .ok (some ⟨36, time, { payload := [1] }⟩) :=
  read_record_at_of_mem (archive_of_one_reads time)
    ((length_archive_of_one time).trans_lt (by decide)) (List.mem_singleton_self _)

/-- The entry of the only record of an archive. -/
theorem planned_entry_of_one {κ : Type} {disk : Disk Path κ} {path : Path} {time : UInt64}
    (h : disk.read path = some (archiveOfOne time)) (time' : UInt64) :
    plannedEntry disk (onlyRecord path time') = some (time, { payload := [1] }) := by
  have hrecords : archiveRecords (disk.read path) = [⟨36, time, { payload := [1] }⟩] := by
    rw [archiveRecords, h, archive_of_one_reads]
  show ((archiveRecords (disk.read path)).find? fun stored => stored.offset = 36).map _ = _
  rw [hrecords]
  rfl

/-- A shard of one record is written with what stands in its source. -/
theorem rotates_cons_of_one {κ : Type} [DecidableEq κ] {flushed : Bytes → Bytes}
    {disk disk' : Disk Path κ} {shard : RotationShard} {shards : List RotationShard}
    {founds : List (List (Option ArchiveRecord))} {path : Path} {time time' : UInt64}
    {medium : Medium} (hrecords : shard.records = [onlyRecord path time])
    (hread : disk.read path = some (archiveOfOne time'))
    (hapart : disk.locate path ≠ disk.locate shard.outputPath)
    (hmedium : disk.medium (disk.locate shard.outputPath) = some medium)
    (hroom : 1000 ≤ medium.capacity)
    (hrest : Rotates flushed (disk.put (disk.locate shard.outputPath)
      (archiveFile [(time', { payload := [1] })])) shards founds disk') :
    Rotates flushed disk (shard :: shards) ([some ⟨36, time', { payload := [1] }⟩] :: founds)
      disk' := by
  refine Rotates.cons ?_ hmedium ((length_archive_of_one time').trans hroom) hrest
  rw [hrecords]
  refine Finds.cons ?_ (Finds.nil _)
  have hseen : seenFile flushed disk shard.outputPath openedWire path =
      some (archiveOfOne time') := by
    rw [seenFile, if_neg hapart, hread]
  show readRecordAt (seenFile flushed disk shard.outputPath openedWire path) 36 = _
  rw [hseen]
  exact read_archive_of_one time'

/-- The file of an archive that was closed reads as it was written. -/
theorem read_put_archive_of_one (path : Path) (time : UInt64) :
    (twoArchivesDisk.put path (archiveFile [(time, { payload := [1] })])).read path =
      some (archiveOfOne time) := by
  have hplace : twoArchivesDisk.locate path = path := rfl
  exact (Disk.read_put_same hplace _).trans
    (congrArg some (File.bytes_ofBytes ((length_archive_of_one time).trans_lt (by decide))))

/-- Two shards of one record can be written wherever their own sources are not the outputs. -/
theorem two_shards_rotate {first second : RotationShard}
    (hfirst : first.records = [onlyRecord ⟨"incoming.ath"⟩ 1000])
    (hsecond : second.records = [onlyRecord ⟨"archive_000000.ath"⟩ 2000])
    (hout : ⟨"incoming.ath"⟩ ≠ first.outputPath)
    (hout' : ⟨"archive_000000.ath"⟩ ≠ second.outputPath) (flushed : Bytes → Bytes) :
    ∃ founds disk', Rotates flushed twoArchivesDisk [first, second] founds disk' := by
  obtain ⟨hlater, hearlier⟩ := read_two_archives
  have hbehind : ∃ time, (twoArchivesDisk.put first.outputPath
      (archiveFile [(1000, { payload := [1] })])).read ⟨"archive_000000.ath"⟩ =
        some (archiveOfOne time) := by
    by_cases hsame : ⟨"archive_000000.ath"⟩ = first.outputPath
    · exact ⟨1000, by rw [← hsame]; exact read_put_archive_of_one _ _⟩
    · exact ⟨2000, (Disk.read_put_of_ne hsame _).trans hlater⟩
  obtain ⟨time, hbehind⟩ := hbehind
  exact ⟨_, _, rotates_cons_of_one hfirst hearlier hout rfl le_rfl
    (rotates_cons_of_one hsecond hbehind hout' rfl le_rfl (Rotates.nil _))⟩

/-- With the outputs in another directory both records are kept. -/
theorem rotation_keeps_two_archives :
    ∃ plan report disk', planArchiveRotation twoArchivesDisk twoArchives
        { maxRecordsPerArchive := 1 } ⟨"out"⟩ = .ok plan ∧
      start (executeArchiveRotation (fun _ => []) plan { overwriteOutputs := true })
        twoArchivesDisk = (.ok report, disk') ∧
      RotationKept twoArchivesDisk disk' plan report := by
  obtain ⟨first, second, hshards, hfirst, hsecond, hout, hout'⟩ : ∃ first second,
      (twoArchivesPlan ⟨"out"⟩).shards = [first, second] ∧
      first.records = [onlyRecord ⟨"incoming.ath"⟩ 1000] ∧
      second.records = [onlyRecord ⟨"archive_000000.ath"⟩ 2000] ∧
      ⟨"incoming.ath"⟩ ≠ first.outputPath ∧ ⟨"archive_000000.ath"⟩ ≠ second.outputPath :=
    ⟨_, _, rfl, by decide, by decide, by decide, by decide⟩
  obtain ⟨founds, disk', hrotates⟩ :=
    two_shards_rotate hfirst hsecond hout hout' fun _ => []
  rw [← hshards] at hrotates
  obtain ⟨report, hrun⟩ := execute_rotation_sound (by decide) hrotates
  have hplan := two_archives_planned ⟨"out"⟩
  have hapart : ∀ shard ∈ (twoArchivesPlan ⟨"out"⟩).shards, ∀ record ∈ shard.records,
      ∀ other ∈ (twoArchivesPlan ⟨"out"⟩).shards, record.sourcePath ≠ other.outputPath := by decide
  refine ⟨_, report, disk', hplan, hrun, (rotation_kept_iff hplan two_archives_readable
    (fun _ _ _ _ hsame => hsame) hrun).mpr
    (sources_stand_of_separate hplan two_archives_readable ?_)⟩
  intro before shard after hsplit record hrecord earlier hearlier
  rw [hsplit] at hapart
  refine hapart shard (by simp) record hrecord earlier ?_
  rw [List.append_cons]
  exact List.mem_append_left _ hearlier

/-- In the directory of the inputs the first output is written over the later input, and the other
output gets the earlier record again. -/
theorem rotation_loses_record :
    ∃ plan report disk', planArchiveRotation twoArchivesDisk twoArchives
        { maxRecordsPerArchive := 1 } ⟨""⟩ = .ok plan ∧
      Readable twoArchivesDisk twoArchives ∧
      start (executeArchiveRotation (fun _ => []) plan { overwriteOutputs := true })
        twoArchivesDisk = (.ok report, disk') ∧
      ¬ RotationKept twoArchivesDisk disk' plan report := by
  obtain ⟨first, second, hshards, hfirst, hsecond, hout, hout'⟩ : ∃ first second,
      (twoArchivesPlan ⟨""⟩).shards = [first, second] ∧
      first.records = [onlyRecord ⟨"incoming.ath"⟩ 1000] ∧
      second.records = [onlyRecord ⟨"archive_000000.ath"⟩ 2000] ∧
      first.outputPath = ⟨"archive_000000.ath"⟩ ∧ second.outputPath = ⟨"archive_000001.ath"⟩ :=
    ⟨_, _, rfl, by decide, by decide, by decide, by decide⟩
  obtain ⟨founds, disk', hrotates⟩ := two_shards_rotate hfirst hsecond (by rw [hout]; decide)
    (by rw [hout']; decide) fun _ => []
  rw [← hshards] at hrotates
  obtain ⟨report, hrun⟩ := execute_rotation_sound (by decide) hrotates
  refine ⟨_, report, _, two_archives_planned _, two_archives_readable, hrun, fun hkept => ?_⟩
  have hstand := (rotation_kept_iff (two_archives_planned _) two_archives_readable
    (fun _ _ _ _ hsame => hsame) hrun).mp hkept [first] second [] hshards [] _ [] hsecond
  obtain ⟨hlater, hearlier⟩ := read_two_archives
  rw [planned_entry_of_one hlater] at hstand
  -- the later input has been replaced by the archive of the earlier record
  have hover : writtenAsPlanned (plannedEntry twoArchivesDisk) twoArchivesDisk [first] =
      twoArchivesDisk.put ⟨"archive_000000.ath"⟩ (archiveFile [(1000, { payload := [1] })]) := by
    have hentries : first.records.filterMap (plannedEntry twoArchivesDisk) =
        [(1000, { payload := [1] })] := by
      rw [hfirst, List.filterMap_cons_some (planned_entry_of_one hearlier 1000), List.filterMap_nil]
    rw [← hentries, ← hout]
    rfl
  have hseen : ∀ content, seenFile (fun _ => []) (writtenAsPlanned (plannedEntry twoArchivesDisk)
      twoArchivesDisk [first]) second.outputPath content ⟨"archive_000000.ath"⟩ =
        some (archiveOfOne 1000) := by
    intro content
    rw [hover, seenFile, hout']
    exact read_put_archive_of_one _ _
  have hread : entryAt (some (archiveOfOne 1000)) 36 = some (2000, { payload := [1] }) :=
    (congrArg (entryAt · 36) (hseen _)).symm.trans hstand
  rw [entryAt, read_archive_of_one] at hread
  have htime : (1000 : UInt64) = 2000 := congrArg Prod.fst (Option.some.inj hread)
  exact absurd htime (by decide)

end Aethon.Storage
