import Aethon.Storage.AuditFindings
import Aethon.Storage.RotationExecution

/-!
# Runs of a rotation

`Finds` and `Rotates` say what the loops over the records and over the shards read and write,
without the writer and the report. `execute_rotation_complete` and `execute_rotation_sound` connect
them to `execute_archive_rotation`.
-/

namespace Aethon.Storage

open Actions FileStream FileSystem Codec Protocol Parsing

variable {κ : Type} [DecidableEq κ]

/-! ## The records of a shard -/

/-- The entries of the records that were found. -/
def foundEntries (founds : List (Option ArchiveRecord)) : List (UInt64 × Packet) :=
  founds.filterMap (Option.map ArchiveRecord.entry)

/-- What the loop over the records of a shard finds while it writes. The output holds `content` in
front of the first of them, and `seen` says what the paths then lead to. -/
inductive Finds (seen : Bytes → Path → Option Bytes) :
    Bytes → List RotationRecordProjection → List (Option ArchiveRecord) → Prop where
  | nil (content : Bytes) : Finds seen content [] []
  | cons {content : Bytes} {projection : RotationRecordProjection}
      {records : List RotationRecordProjection} {found : Option ArchiveRecord}
      {founds : List (Option ArchiveRecord)}
      (hread : readRecordAt (seen content projection.sourcePath) projection.sourceOffset =
        .ok found)
      (hrest : Finds seen (content ++ recordsWire (foundEntries [found])) records founds) :
      Finds seen content (projection :: records) (found :: founds)

variable {flushed : Bytes → Bytes} {disk disk' : Disk Path κ} {output : Path}
  {seen : Bytes → Path → Option Bytes}

/-- What was found is within the limits of the reader. -/
theorem Finds.readable {content : Bytes} {records : List RotationRecordProjection}
    {founds : List (Option ArchiveRecord)} (h : Finds seen content records founds) :
    ∀ entry ∈ foundEntries founds, ReadableLimits entry.2 := by
  induction h with
  | nil => simp [foundEntries]
  | @cons content projection records found founds hread hrest ih =>
      rcases found with _ | record
      · exact ih
      · exact List.forall_mem_cons.mpr ⟨(read_record_at_some hread).2, ih⟩

theorem Finds.length_eq {content : Bytes} {records : List RotationRecordProjection}
    {founds : List (Option ArchiveRecord)} (h : Finds seen content records founds) :
    founds.length = records.length := by
  induction h with
  | nil => rfl
  | cons _ _ ih => exact congrArg (· + 1) ih

/-- The report on the records of a shard. -/
def RotationExecutionReport.noteAll (report : RotationExecutionReport) :
    List RotationRecordProjection → List (Option ArchiveRecord) → RotationExecutionReport
  | projection :: records, found :: founds => (report.note projection found).noteAll records founds
  | _, _ => report

/-- The report on a shard that was written. -/
def RotationExecutionReport.noteShard (report : RotationExecutionReport) (warnings : List String)
    (shard : RotationShard) (founds : List (Option ArchiveRecord)) : RotationExecutionReport :=
  let noted := { report with warnings := report.warnings ++ warnings }.noteAll shard.records founds
  { noted with writtenArchives := noted.writtenArchives ++ [shard.outputPath] }

/-- The records that are not found are skipped. -/
theorem noteAll_counts {report : RotationExecutionReport}
    {records : List RotationRecordProjection} {founds : List (Option ArchiveRecord)}
    (h : founds.length = records.length) :
    (report.noteAll records founds).writtenArchives = report.writtenArchives ∧
      (report.noteAll records founds).recordsSkipped =
        report.recordsSkipped + UInt64.ofNat (founds.countP Option.isNone) := by
  induction records generalizing report founds with
  | nil =>
      obtain rfl := List.length_eq_zero_iff.mp h
      exact ⟨rfl, (UInt64.add_zero _).symm⟩
  | cons projection records ih =>
      obtain ⟨found, founds, rfl⟩ := List.exists_cons_of_length_eq_add_one h
      obtain ⟨hwritten, hskipped⟩ := @ih (report.note projection found) founds (Nat.succ.inj h)
      rw [RotationExecutionReport.noteAll, hwritten, hskipped]
      rcases found with _ | record
      · refine ⟨rfl, ?_⟩
        rw [List.countP_cons_of_pos rfl, UInt64.ofNat_add, UInt64.add_comm (UInt64.ofNat _),
          ← UInt64.add_assoc]
        rfl
      · refine ⟨rfl, ?_⟩
        rw [List.countP_cons_of_neg (by simp)]
        rfl

/-- An output that was written is listed, and its missing records are skipped. -/
theorem noteShard_counts {report : RotationExecutionReport} {warnings : List String}
    {shard : RotationShard} {founds : List (Option ArchiveRecord)}
    (h : founds.length = shard.records.length) :
    (report.noteShard warnings shard founds).writtenArchives =
        report.writtenArchives ++ [shard.outputPath] ∧
      (report.noteShard warnings shard founds).recordsSkipped =
        report.recordsSkipped + UInt64.ofNat (founds.countP Option.isNone) := by
  obtain ⟨hwritten, hskipped⟩ :=
    @noteAll_counts { report with warnings := report.warnings ++ warnings } _ _ h
  exact ⟨congrArg (· ++ [shard.outputPath]) hwritten, hskipped⟩

/-- A record is copied by an append, if it is found. -/
theorem copy_record_ok_iff {projection : RotationRecordProjection}
    {report report' : RotationExecutionReport} {writer writer' : ArchiveWriter} :
    start (copyRecord flushed disk output report projection) writer = (.ok report', writer') ↔
      ∃ found, readRecordAt (seenFile flushed disk output writer.out.content projection.sourcePath)
          projection.sourceOffset = .ok found ∧
        start (forM (foundEntries [found]) fun entry => ArchiveWriter.append entry.1 entry.2)
          writer = (.ok (), writer') ∧ report' = report.note projection found := by
  rw [copyRecord, start_get_bind, start_lift_bind_ok_iff]
  refine exists_congr fun found => and_congr_right fun _ => ?_
  rcases found with _ | record
  · show start (pure (report.note projection none)) writer = _ ↔ _
    simp only [foundEntries, List.filterMap_cons, List.filterMap_nil, Option.map_none,
      List.forM_nil, start_pure, Prod.mk.injEq, Except.ok.injEq, true_and]
    rw [and_comm, @eq_comm _ report']
  · simp only [foundEntries, List.filterMap_cons, List.filterMap_nil, Option.map_some,
      List.forM_cons, List.forM_nil, start_bind_ok_iff, start_pure, Prod.mk.injEq, Except.ok.injEq]
    constructor
    · intro h
      obtain ⟨u, middle, happend, hreport, rfl⟩ := h
      exact ⟨⟨u, middle, happend, trivial, rfl⟩, hreport.symm⟩
    · intro h
      obtain ⟨⟨u, middle, happend, -, rfl⟩, hreport⟩ := h
      exact ⟨u, middle, happend, hreport.symm, rfl⟩

theorem foundEntries_cons (found : Option ArchiveRecord) (founds : List (Option ArchiveRecord)) :
    foundEntries (found :: founds) = foundEntries [found] ++ foundEntries founds := by
  rw [foundEntries, foundEntries, foundEntries, ← List.filterMap_append]
  rfl

/-- The loop over the records appends what it finds. -/
theorem copy_records_ok_iff {records : List RotationRecordProjection}
    {report report' : RotationExecutionReport} {writer writer' : ArchiveWriter}
    (h : writer.AtEnd) :
    start (records.foldlM (copyRecord flushed disk output) report) writer =
        (.ok report', writer') ↔
      ∃ founds, Finds (seenFile flushed disk output) writer.out.content records founds ∧
        start (forM (foundEntries founds) fun entry => ArchiveWriter.append entry.1 entry.2)
          writer = (.ok (), writer') ∧ report' = report.noteAll records founds := by
  induction records generalizing report writer with
  | nil =>
      rw [List.foldlM_nil, start_pure]
      constructor
      · intro hrun
        obtain ⟨hreport, rfl⟩ := Prod.mk.inj hrun
        exact ⟨[], Finds.nil _, rfl, (Except.ok.inj hreport).symm⟩
      · intro hrun
        obtain ⟨founds, hfinds, hwrite, rfl⟩ := hrun
        cases hfinds
        obtain ⟨-, rfl⟩ := Prod.mk.inj hwrite
        rfl
  | cons projection records ih =>
      -- what is found is appended before the next record is read
      have hbehind : ∀ found middle, start (forM (foundEntries [found]) fun entry =>
          ArchiveWriter.append entry.1 entry.2) writer = (.ok (), middle) →
          middle.AtEnd ∧
            middle.out.content = writer.out.content ++ recordsWire (foundEntries [found]) := by
        intro found middle happend
        obtain ⟨⟨-, hfits⟩, rfl⟩ := (append_all_ok_iff h).mp happend
        exact ⟨h.extend hfits, rfl⟩
      rw [List.foldlM_cons, start_bind_ok_iff]
      constructor
      · intro hrun
        obtain ⟨_, middle, hcopy, hrest⟩ := hrun
        obtain ⟨found, hread, happend, rfl⟩ := copy_record_ok_iff.mp hcopy
        obtain ⟨hend, hcontent⟩ := hbehind found middle happend
        obtain ⟨founds, hfinds, hwrite, rfl⟩ := (ih hend).mp hrest
        rw [hcontent] at hfinds
        refine ⟨found :: founds, Finds.cons hread hfinds, ?_, rfl⟩
        rw [foundEntries_cons, List.forM_append, start_bind_ok_iff]
        exact ⟨(), middle, happend, hwrite⟩
      · intro hrun
        obtain ⟨_, hfinds, hwrite, rfl⟩ := hrun
        obtain _ | ⟨hread, hrest⟩ := hfinds
        rename_i found founds
        rw [foundEntries_cons, List.forM_append, start_bind_ok_iff] at hwrite
        obtain ⟨_, middle, happend, hwrite⟩ := hwrite
        obtain ⟨hend, hcontent⟩ := hbehind found middle happend
        rw [← hcontent] at hrest
        exact ⟨_, middle, copy_record_ok_iff.mpr ⟨found, hread, happend, rfl⟩,
          (ih hend).mpr ⟨founds, hrest, hwrite, rfl⟩⟩

/-! ## Shards -/

/-- The bytes of an archive that was opened and not closed. -/
def openedWire : Bytes :=
  archiveMagic ++ ({} : ArchiveSummary).wire

/-- The warning that a path gives rise to. -/
def overwriteWarnings (disk : Disk Path κ) (path : Path) : List String :=
  if disk.isFile path then ["overwriting existing archive: " ++ path.string] else []

/-- An output that may be replaced is removed, with a warning. -/
theorem ensure_output_available_ok (disk : Disk Path κ) (path : Path) :
    start (ensureOutputAvailable path true) disk =
      (.ok (overwriteWarnings disk path), disk.remove path) := by
  rw [ensureOutputAvailable, start_get_bind, overwriteWarnings]
  by_cases hfile : disk.isFile path = true
  · rw [if_pos hfile, if_pos hfile, start_rejectIf_bind_ok_iff]
    exact ⟨by decide, rfl⟩
  · have hnone : disk.files (disk.locate path) = none := by
      simpa [Disk.isFile] using hfile
    have hsame : disk.remove path = disk := by
      rw [Disk.remove, Disk.put, ← hnone, Function.update_eq_self]
    rw [if_neg hfile, if_neg hfile, hsame]
    rfl

/-- The file at the output itself is not looked at. -/
theorem seenFile_remove : seenFile flushed (disk.remove output) output =
    seenFile flushed disk output := by
  funext content path
  unfold seenFile
  by_cases h : disk.locate path = disk.locate output
  · exact (if_pos h).trans (if_pos h).symm
  · exact (if_neg h).trans ((Disk.read_put_of_ne h none).trans (if_neg h).symm)

/-- A writer that copies records writes the entries of what is found. -/
theorem with_copying_writer_ok_iff {records : List RotationRecordProjection}
    {report report' : RotationExecutionReport} :
    start (withWriter output fun disk => do
        let report ← records.foldlM (copyRecord flushed disk output) report
        ArchiveWriter.close
        pure report) disk = (.ok report', disk') ↔
      ∃ founds, Finds (seenFile flushed disk output) openedWire records founds ∧
        start (withWriter output fun _ => writeEntries (foundEntries founds)) disk =
          (.ok (), disk') ∧ report' = report.noteAll records founds := by
  have hbody : ∀ medium opened writer, ArchiveWriter.create (some medium) = .ok opened →
      (start (do
          let report ← records.foldlM (copyRecord flushed disk output) report
          ArchiveWriter.close
          pure report) opened = (.ok report', writer) ↔
        ∃ founds, Finds (seenFile flushed disk output) openedWire records founds ∧
          start (writeEntries (foundEntries founds)) opened = (.ok (), writer) ∧
          report' = report.noteAll records founds) := by
    intro medium opened writer hopen
    obtain ⟨hroom, rfl⟩ := create_ok_iff.mp hopen
    have hend : ArchiveWriter.AtEnd { out := {
        medium, content := archiveMagic ++ ({} : ArchiveSummary).wire, position := 36 } } :=
      ⟨rfl, rfl, hroom⟩
    simp only [start_bind_ok_iff, copy_records_ok_iff hend, writeEntries, start_pure,
      Prod.mk.injEq, Except.ok.injEq]
    constructor
    · intro h
      obtain ⟨_, middle, ⟨founds, hfinds, hwrite, rfl⟩, _, _, hclose, rfl, rfl⟩ := h
      exact ⟨founds, hfinds, ⟨(), middle, hwrite, hclose⟩, rfl⟩
    · intro h
      obtain ⟨founds, hfinds, ⟨_, middle, hwrite, hclose⟩, rfl⟩ := h
      exact ⟨_, middle, ⟨founds, hfinds, hwrite, rfl⟩, (), writer, hclose, rfl, rfl⟩
  simp only [with_writer_ok_iff]
  constructor
  · intro h
    obtain ⟨medium, opened, writer, hmedium, hopen, hrun, hdisk⟩ := h
    obtain ⟨founds, hfinds, hwrite, hreport⟩ := (hbody medium opened writer hopen).mp hrun
    exact ⟨founds, hfinds, ⟨medium, opened, writer, hmedium, hopen, hwrite, hdisk⟩, hreport⟩
  · intro h
    obtain ⟨founds, hfinds, ⟨medium, opened, writer, hmedium, hopen, hwrite, hdisk⟩, hreport⟩ := h
    exact ⟨medium, opened, writer, hmedium, hopen,
      (hbody medium opened writer hopen).mpr ⟨founds, hfinds, hwrite, hreport⟩, hdisk⟩

/-- A shard is written as the archive of what is found. -/
theorem execute_shard_ok_iff {report report' : RotationExecutionReport} {shard : RotationShard} :
    start (executeShard flushed { overwriteOutputs := true } report shard) disk =
        (.ok report', disk') ↔
      ∃ founds medium,
        Finds (seenFile flushed disk shard.outputPath) openedWire shard.records founds ∧
        disk.medium (disk.locate shard.outputPath) = some medium ∧
        (archiveWire (foundEntries founds)).length ≤ medium.capacity ∧
        disk' = disk.put (disk.locate shard.outputPath) (archiveFile (foundEntries founds)) ∧
        report' =
          report.noteShard (overwriteWarnings disk shard.outputPath) shard founds := by
  rw [executeShard, start_bind_ok_iff]
  simp only [ensure_output_available_ok, Prod.mk.injEq, Except.ok.injEq, start_bind_ok_iff,
    with_copying_writer_ok_iff, write_entries_on_disk_iff, start_pure]
  constructor
  · intro h
    obtain ⟨_, _, ⟨rfl, rfl⟩, _, _, ⟨founds, hfinds, ⟨medium, hmedium, -, hfits, rfl⟩, rfl⟩, rfl,
      rfl⟩ := h
    rw [seenFile_remove] at hfinds
    exact ⟨founds, medium, hfinds, hmedium, hfits, Disk.put_put .., rfl⟩
  · intro h
    obtain ⟨founds, medium, hfinds, hmedium, hfits, rfl, rfl⟩ := h
    rw [← seenFile_remove] at hfinds
    refine ⟨_, _, ⟨rfl, rfl⟩, _, _, ⟨founds, hfinds, ⟨medium, hmedium, ?_, hfits, rfl⟩, rfl⟩, rfl,
      (Disk.put_put ..)⟩
    exact fun entry hentry => (hfinds.readable entry hentry).encoder

/-! ## Whole runs -/

/-- What the loop over the shards finds, and the disk it leaves. -/
inductive Rotates (flushed : Bytes → Bytes) :
    Disk Path κ → List RotationShard → List (List (Option ArchiveRecord)) → Disk Path κ → Prop where
  | nil (disk : Disk Path κ) : Rotates flushed disk [] [] disk
  | cons {disk disk' : Disk Path κ} {shard : RotationShard} {shards : List RotationShard}
      {founds : List (Option ArchiveRecord)} {rest : List (List (Option ArchiveRecord))}
      {medium : Medium}
      (hfinds : Finds (seenFile flushed disk shard.outputPath) openedWire shard.records founds)
      (hmedium : disk.medium (disk.locate shard.outputPath) = some medium)
      (hfits : (archiveWire (foundEntries founds)).length ≤ medium.capacity)
      (hrest : Rotates flushed
        (disk.put (disk.locate shard.outputPath) (archiveFile (foundEntries founds))) shards rest
        disk') :
      Rotates flushed disk (shard :: shards) (founds :: rest) disk'

/-- A run that returns is one of these, and reports its outputs and what it did not find. -/
theorem execute_shards_complete {shards : List RotationShard}
    {report report' : RotationExecutionReport}
    (h : start (shards.foldlM (executeShard flushed { overwriteOutputs := true }) report) disk =
      (.ok report', disk')) :
    ∃ founds, Rotates flushed disk shards founds disk' ∧
      report'.writtenArchives =
        report.writtenArchives ++ shards.map RotationShard.outputPath ∧
      report'.recordsSkipped =
        report.recordsSkipped + UInt64.ofNat (founds.flatten.countP Option.isNone) := by
  induction shards generalizing report disk with
  | nil =>
      obtain ⟨hreport, rfl⟩ := Prod.mk.inj h
      obtain rfl := Except.ok.inj hreport
      exact ⟨[], Rotates.nil disk, (List.append_nil _).symm, (UInt64.add_zero _).symm⟩
  | cons shard shards ih =>
      rw [List.foldlM_cons, start_bind_ok_iff] at h
      obtain ⟨middle, between, hshard, hrest⟩ := h
      obtain ⟨founds, medium, hfinds, hmedium, hfits, rfl, rfl⟩ := execute_shard_ok_iff.mp hshard
      obtain ⟨rest, hrotates, hwritten, hskipped⟩ := ih hrest
      obtain ⟨hkept, hcount⟩ := @noteShard_counts report
        (overwriteWarnings disk shard.outputPath) shard founds hfinds.length_eq
      refine ⟨founds :: rest, Rotates.cons hfinds hmedium hfits hrotates, ?_, ?_⟩
      · rw [hwritten, List.map_cons, hkept, List.append_assoc]
        rfl
      · rw [hskipped, hcount, List.flatten_cons, List.countP_append, UInt64.ofNat_add,
          UInt64.add_assoc]

/-- Each of these is a run that returns. -/
theorem execute_shards_sound {shards : List RotationShard}
    {founds : List (List (Option ArchiveRecord))} (h : Rotates flushed disk shards founds disk')
    (report : RotationExecutionReport) :
    ∃ report', start (shards.foldlM (executeShard flushed { overwriteOutputs := true }) report)
      disk = (.ok report', disk') := by
  induction h generalizing report with
  | nil disk => exact ⟨report, rfl⟩
  | @cons disk disk' shard shards founds rest medium hfinds hmedium hfits hrest ih =>
      obtain ⟨report', hrun⟩ :=
        ih (report.noteShard (overwriteWarnings disk shard.outputPath) shard founds)
      refine ⟨report', ?_⟩
      rw [List.foldlM_cons, start_bind_ok_iff]
      exact ⟨_, _, execute_shard_ok_iff.mpr ⟨_, _, hfinds, hmedium, hfits, rfl, rfl⟩, hrun⟩

/-- An execution that returns rotates the disk. -/
theorem execute_rotation_complete {plan : RotationPlan} {report : RotationExecutionReport}
    (h : start (executeArchiveRotation flushed plan { overwriteOutputs := true }) disk =
      (.ok report, disk')) :
    validateRotationPlan plan = [] ∧
      report.writtenArchives = plan.shards.map RotationShard.outputPath ∧
      ∃ founds, Rotates flushed disk plan.shards founds disk' ∧
        report.recordsSkipped = UInt64.ofNat (founds.flatten.countP Option.isNone) := by
  rw [executeArchiveRotation, start_rejectIf_bind_ok_iff] at h
  obtain ⟨founds, hrotates, hwritten, hskipped⟩ := execute_shards_complete h.2
  exact ⟨not_not.mp h.1, hwritten, founds, hrotates, hskipped.trans (UInt64.zero_add _)⟩

/-- A rotation of the disk by a plan that passes validation is an execution that returns. -/
theorem execute_rotation_sound {plan : RotationPlan}
    {founds : List (List (Option ArchiveRecord))} (hvalid : validateRotationPlan plan = [])
    (h : Rotates flushed disk plan.shards founds disk') :
    ∃ report, start (executeArchiveRotation flushed plan { overwriteOutputs := true }) disk =
      (.ok report, disk') := by
  obtain ⟨report, hrun⟩ := execute_shards_sound h { plan }
  exact ⟨report, by
    rw [executeArchiveRotation, start_rejectIf_bind_ok_iff]
    exact ⟨not_not.mpr hvalid, hrun⟩⟩

end Aethon.Storage
