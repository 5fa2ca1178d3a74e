import Aethon.Storage.ArchiveRepairPlan
import Aethon.Storage.AuditFindings

/-!
# What a rewrite repairs

A rewrite copies the records of an archive in the order of the file behind a fresh header, so it
mends a header but no order. `rewrite_repairs_iff` is that condition, over the planner, the copy and
the audit of what was written.
-/

namespace Aethon.Storage

open Actions FileStream FileSystem Codec Protocol Parsing

variable {κ : Type}

/-! ## The plan -/

/-- An output has a path. -/
theorem output_for_not_empty {path : Path} (h : path.empty = false)
    (options : RepairPlannerOptions) (suffix : String) :
    (outputFor path options suffix).empty = false := by
  have hname (directory : Path)
      (hdirectory : directory.empty = false ∨ path.filename.empty = false) :
      (directory.append ⟨path.filename.string ++ suffix⟩).empty = false := by
    refine Path.append_not_empty (hdirectory.imp_right fun hfilename => ?_)
    rw [Path.empty_eq_false_iff] at hfilename ⊢
    rw [Path.chars, String.toList_append]
    exact List.append_ne_nil_of_left_ne_nil hfilename _
  unfold outputFor
  split_ifs with hdirectory
  · exact hname _ (Path.parent_or_filename h)
  · exact hname _ (Or.inl (Bool.eq_false_iff.mpr hdirectory))

/-- The actions of a rewrite. -/
def rewriteActions (path output : Path) (reason : String) (records : UInt64) :
    List RepairAction :=
  [{ kind := .rewriteFromReadableRecords, sourcePath := path, outputPath := output, reason
     expectedRecords := records },
   { kind := .verifyAfterWrite, sourcePath := output, outputPath := output
     reason := "verify rewritten archive", expectedRecords := records }]

/-- Only an archive that reads to its end is rewritten, and the copy is audited. -/
theorem plan_of_rewrite {disk : Disk Path κ} {path : Path} {options : RepairPlannerOptions}
    {plan : ArchiveRepairPlan} (hplan : planArchiveRepair disk path options = .ok plan)
    (hrewrite : ∃ action ∈ plan.actions, action.kind = .rewriteFromReadableRecords) :
    plan.sourcePath = path ∧ plan.audit = auditArchiveIntegrity (disk.read path) path ∧
      plan.audit.readable = true ∧ ∃ reason, plan.actions =
        rewriteActions path (outputFor path options options.repairedSuffix) reason
          plan.readableRecords := by
  simp only [planArchiveRepair, except_bind_ok_iff] at hplan
  obtain ⟨salvage, -, hplan⟩ := hplan
  split_ifs at hplan with hok hsalvage hchosen hunordered hquarantine
  · obtain rfl := Except.ok.inj hplan
    simp at hrewrite
  · obtain rfl := Except.ok.inj hplan
    simp at hrewrite
  · obtain rfl := Except.ok.inj hplan
    exact ⟨rfl, rfl, hchosen.2, _, rfl⟩
  · obtain rfl := Except.ok.inj hplan
    exact ⟨rfl, rfl, hchosen.2, _, rfl⟩
  · obtain rfl := Except.ok.inj hplan
    simp at hrewrite
  · obtain rfl := Except.ok.inj hplan
    simp at hrewrite

/-- An archive that fails its audit is rewritten when nothing more is salvaged and an option asks
for it. -/
theorem plan_rewrites {disk : Disk Path κ} {path : Path} {options : RepairPlannerOptions}
    {salvage : RepairReport}
    (hsalvage : salvageFor (disk.read path) (auditArchiveIntegrity (disk.read path) path) options =
      .ok salvage)
    (hfailed : auditReportOk (auditArchiveIntegrity (disk.read path) path) = false)
    (hnoMore : UInt64.ofNat salvage.packets.length ≤
      (auditArchiveIntegrity (disk.read path) path).recordsScanned)
    (hoption : options.rewriteWhenHeaderMismatch = true ∧
        hasCheck (auditArchiveIntegrity (disk.read path) path) .headerMatchesRecords = true ∨
      options.rewriteWhenUnordered = true ∧
        hasCheck (auditArchiveIntegrity (disk.read path) path) .orderedTimestamps = true)
    (hreadable : (auditArchiveIntegrity (disk.read path) path).readable = true) :
    ∃ plan, planArchiveRepair disk path options = .ok plan ∧
      ∃ action ∈ plan.actions, action.kind = .rewriteFromReadableRecords := by
  have hmore : ¬ UInt64.ofNat salvage.packets.length >
      (auditArchiveIntegrity (disk.read path) path).recordsScanned := UInt64.not_lt.mpr hnoMore
  simp only [planArchiveRepair, hsalvage, except_bind_ok_iff, except_pure_ok_iff, hfailed, hmore,
    hoption, hreadable, Bool.false_eq_true, if_false, if_true, true_and, and_self,
    Except.ok.injEq, ↓existsAndEq, List.mem_cons, exists_eq_or_imp, true_or]

/-- A plan to rewrite is valid. -/
theorem validate_of_rewrite {plan : ArchiveRepairPlan} {path output : Path} {reason : String}
    (hpath : plan.sourcePath.empty = false) (hreadable : plan.audit.readable = true)
    (houtput : output.empty = false)
    (hactions : plan.actions = rewriteActions path output reason plan.readableRecords) :
    validateArchiveRepairPlan plan = [] := by
  simp [validateArchiveRepairPlan, warnIf, hactions, rewriteActions, hpath, hreadable, houtput]

/-! ## The copy -/

variable [DecidableEq κ]

/-- A path at which a file of some size can be written. -/
structure OutputWritable (disk : Disk Path κ) (output : Path) (overwrite : Bool) (size : Nat) :
    Prop where
  available : overwrite = true ∨ disk.isFile output = false
  room : ∃ medium, disk.medium (disk.locate output) = some medium ∧ size ≤ medium.capacity

/-- Where a file may be written, whatever was there is removed first. -/
theorem ensure_can_write_of_available {disk : Disk Path κ} {output : Path} {overwrite : Bool}
    (h : overwrite = true ∨ disk.isFile output = false) :
    ∃ cleared, start (ensureCanWrite output overwrite) disk = (.ok (), cleared) ∧
      cleared.locate = disk.locate ∧ cleared.medium = disk.medium ∧
      cleared.isFile output = false ∧
      ∀ path, disk.locate path ≠ disk.locate output → cleared.read path = disk.read path := by
  rw [ensureCanWrite, start_get_bind]
  by_cases hfile : disk.isFile output = true
  · have hoverwrite : overwrite = true := h.resolve_right (by simp [hfile])
    refine ⟨disk.remove output, ?_, rfl, rfl, ?_, fun path hpath => ?_⟩
    · rw [if_pos hfile, start_rejectIf_bind_ok_iff]
      exact ⟨by simp [hoverwrite], rfl⟩
    · simp [Disk.isFile, Disk.remove]
    · exact Disk.read_put_of_ne hpath none
  · refine ⟨disk, by rw [if_neg hfile]; rfl, rfl, rfl, by simpa using hfile, fun _ _ => rfl⟩

/-- A copy of an archive that is read to its end writes its entries. -/
theorem copy_readable_records_ok_iff {source output : Path} {disk disk' : Disk Path κ}
    {header : ArchiveSummary} {records : List ArchiveRecord} {written : UInt64}
    (hread : readArchive (disk.read source) = .ok (header, records)) :
    start (copyReadableRecords source output) disk = (.ok written, disk') ↔
      start (withWriter output fun _ => writeEntries (records.map ArchiveRecord.entry)) disk =
          (.ok (), disk') ∧
        written = UInt64.ofNat records.length := by
  obtain ⟨reader, hopen, hdrain, -⟩ := read_archive_reader_iff.mp hread
  rw [copyReadableRecords, start_get_bind, hopen, start_lift_bind_ok_iff]
  simp only [Except.ok.injEq, ↓existsAndEq, true_and, hdrain]
  have hbody : (fun _ : Disk Path κ => (do
      forM records fun record => ArchiveWriter.append record.captureTimeNs record.packet
      liftM (endLoop none)
      ArchiveWriter.close : Action ArchiveWriter Error Unit)) =
      fun _ => writeEntries (records.map ArchiveRecord.entry) := by
    funext _
    rw [writeEntries, List.forM_map]
    rfl
  rw [hbody, start_bind_ok_iff]
  simp only [start_pure, Prod.mk.injEq, Except.ok.injEq]
  constructor
  · intro h
    obtain ⟨_, _, hwrite, rfl, rfl⟩ := h
    exact ⟨hwrite, rfl⟩
  · intro h
    obtain ⟨hwrite, rfl⟩ := h
    exact ⟨(), disk', hwrite, rfl, rfl⟩

/-! ## The execution -/

/-- A rewrite makes room, copies and audits the copy. -/
theorem execute_rewrite_ok_iff {plan : ArchiveRepairPlan} {path output : Path} {reason : String}
    {records : UInt64} {overwrite : Bool} {disk disk' : Disk Path κ}
    {report : RepairExecutionReport} (hvalid : validateArchiveRepairPlan plan = [])
    (hactions : plan.actions = rewriteActions path output reason records) :
    start (executeArchiveRepairPlan plan overwrite) disk = (.ok report, disk') ↔
      ∃ cleared written, start (ensureCanWrite output overwrite) disk = (.ok (), cleared) ∧
        start (copyReadableRecords path output) cleared = (.ok written, disk') ∧
        report = {
          plan
          outputs := [output]
          warnings := warnIf
            (auditReportOk (auditArchiveIntegrity (disk'.read output) output) = false)
            ("verification audit reported findings for " ++ output.string)
          actionsExecuted := 2
          recordsWritten := written } := by
  rw [executeArchiveRepairPlan, start_rejectIf_bind_ok_iff, hactions]
  simp only [hvalid, ne_eq, not_true_eq_false, not_false_eq_true, true_and, rewriteActions,
    List.foldlM_cons, List.foldlM_nil, executeAction, bind_assoc, pure_bind, start_bind_ok_iff,
    start_rethrow_ok_iff, start_get_bind, start_pure, Prod.mk.injEq, Except.ok.injEq]
  constructor
  · intro h
    obtain ⟨_, cleared, hclear, written, _, hcopy, rfl, rfl⟩ := h
    refine ⟨cleared, written, hclear, hcopy, ?_⟩
    simp only [UInt64.zero_add, List.nil_append]
    rfl
  · intro h
    obtain ⟨cleared, written, hclear, hcopy, rfl⟩ := h
    refine ⟨(), cleared, hclear, written, disk', hcopy, ?_, rfl⟩
    simp only [UInt64.zero_add, List.nil_append]
    rfl

/-- An execution that returned without a warning and left an archive of the records at the output,
whatever their order, which passes an audit. -/
def Repaired (outcome : Except ExecutionFailure RepairExecutionReport × Disk Path κ)
    (output : Path) (records : List ArchiveRecord) : Prop :=
  ∃ report disk header written, outcome = (.ok report, disk) ∧
    readArchive (disk.read output) = .ok (header, written) ∧
    (written.map ArchiveRecord.entry).Perm (records.map ArchiveRecord.entry) ∧
    auditReportOk (auditArchiveIntegrity (disk.read output) output) = true ∧ report.warnings = []

/-- What a rewrite leaves at an output that does not lie where the source does. -/
theorem execute_rewrite_of_apart {plan : ArchiveRepairPlan} {path output : Path} {reason : String}
    {n : UInt64} {overwrite : Bool} {now : Disk Path κ} {content : Bytes}
    {header : ArchiveSummary} {records : List ArchiveRecord}
    (hvalid : validateArchiveRepairPlan plan = [])
    (hactions : plan.actions = rewriteActions path output reason n)
    (hsource : now.read path = some content)
    (hread : readArchive (some content) = .ok (header, records))
    (hwritable : OutputWritable now output overwrite content.length)
    (hapart : now.locate output ≠ now.locate path) :
    ∃ report disk, start (executeArchiveRepairPlan plan overwrite) now = (.ok report, disk) ∧
      disk.read output = some (archiveWire (records.map ArchiveRecord.entry)) ∧
      report.warnings = warnIf (auditReportOk (auditArchiveIntegrity
        (some (archiveWire (records.map ArchiveRecord.entry))) output) = false)
        ("verification audit reported findings for " ++ output.string) := by
  obtain ⟨cleared, hclear, hlocate, hmedium, -, hothers⟩ :=
    ensure_can_write_of_available hwritable.available
  obtain ⟨medium, hroom, hfits⟩ := hwritable.room
  have hkept : cleared.read path = some content := (hothers path hapart.symm).trans hsource
  have hshorter : (archiveWire (records.map ArchiveRecord.entry)).length ≤ medium.capacity :=
    (length_copy_le hread (List.Sublist.refl records)).trans hfits
  have hlimits : ∀ entry ∈ records.map ArchiveRecord.entry, EncoderLimits entry.2 := by
    rw [List.forall_mem_map]
    exact fun record hrecord => (readable_of_read hread record hrecord).encoder
  let written := cleared.put (cleared.locate output)
    (some (File.ofBytes (archiveWire (records.map ArchiveRecord.entry))))
  have hwrite : start (withWriter output fun _ =>
      writeEntries (records.map ArchiveRecord.entry)) cleared = (.ok (), written) :=
    write_entries_on_disk_iff.mpr
      ⟨medium, by rw [hmedium, hlocate, hroom], hlimits, hshorter, rfl⟩
  have hcopy := (copy_readable_records_ok_iff (by rw [hkept]; exact hread)).mpr ⟨hwrite, rfl⟩
  have hleft : written.read output = some (archiveWire (records.map ArchiveRecord.entry)) := by
    rw [Disk.read_put_same rfl, File.bytes_ofBytes (hshorter.trans_lt medium.addressable)]
  refine ⟨_, written, (execute_rewrite_ok_iff hvalid hactions).mpr
    ⟨cleared, _, hclear, hcopy, rfl⟩, hleft, ?_⟩
  rw [hleft]

/-- A rewrite whose output lies where the source does removes the source before it reads it. -/
theorem execute_rewrite_of_same {plan : ArchiveRepairPlan} {path output : Path} {reason : String}
    {n : UInt64} {overwrite : Bool} {now : Disk Path κ}
    (hvalid : validateArchiveRepairPlan plan = [])
    (hactions : plan.actions = rewriteActions path output reason n)
    (havailable : overwrite = true ∨ now.isFile output = false)
    (hsame : now.locate output = now.locate path) (report : RepairExecutionReport)
    (disk : Disk Path κ) :
    start (executeArchiveRepairPlan plan overwrite) now ≠ (.ok report, disk) := by
  intro h
  obtain ⟨cleared, written, hclear, hcopy, -⟩ := (execute_rewrite_ok_iff hvalid hactions).mp h
  obtain ⟨_, hclear', hlocate, -, hgone, -⟩ := ensure_can_write_of_available havailable
  obtain rfl := (Prod.mk.inj (hclear.symm.trans hclear')).2
  have hmissing : cleared.read path = none := by
    have hplace : cleared.locate path = cleared.locate output := by rw [hlocate, hsame]
    rw [Disk.isFile, Option.isSome_eq_false_iff, Option.isNone_iff_eq_none] at hgone
    rw [Disk.read, hplace, hgone]
    rfl
  rw [copyReadableRecords, start_get_bind, hmissing] at hcopy
  cases hcopy

/-- A rewrite repairs an archive exactly when its records are in the order of their capture times
and the output does not lie where the source does. -/
theorem rewrite_repairs_iff {disk now : Disk Path κ} {path : Path} {options : RepairPlannerOptions}
    {plan : ArchiveRepairPlan} {overwrite : Bool} {content : Bytes}
    (hpath : path.empty = false) (hplan : planArchiveRepair disk path options = .ok plan)
    (hrewrite : ∃ action ∈ plan.actions, action.kind = .rewriteFromReadableRecords)
    (hsource : disk.read path = some content) (hunchanged : now.read path = some content)
    (hwritable : OutputWritable now (outputFor path options options.repairedSuffix) overwrite
      content.length) :
    ∃ header records, readArchive (some content) = .ok (header, records) ∧
      (Repaired (start (executeArchiveRepairPlan plan overwrite) now)
          (outputFor path options options.repairedSuffix) records ↔
        InOrder (records.map ArchiveRecord.captureTimeNs) ∧
          now.locate (outputFor path options options.repairedSuffix) ≠ now.locate path) := by
  obtain ⟨rfl, haudit, hreadable, reason, hactions⟩ := plan_of_rewrite hplan hrewrite
  have hvalid := validate_of_rewrite hpath hreadable
    (output_for_not_empty hpath options options.repairedSuffix) hactions
  rw [haudit, hsource, audit_readable_iff] at hreadable
  obtain ⟨header, records, hread⟩ := hreadable
  refine ⟨header, records, hread, ?_⟩
  by_cases hsame : now.locate (outputFor plan.sourcePath options options.repairedSuffix) =
      now.locate plan.sourcePath
  · refine iff_of_false (fun h => ?_) fun h => h.2 hsame
    obtain ⟨report, left, _, _, houtcome, -⟩ := h
    exact execute_rewrite_of_same hvalid hactions hwritable.available hsame report left houtcome
  obtain ⟨report, left, houtcome, hleft, hwarnings⟩ :=
    execute_rewrite_of_apart hvalid hactions hunchanged hread hwritable hsame
  -- the copy has the records in the same order, so its audit depends on their order alone
  have hlimits : ∀ entry ∈ records.map ArchiveRecord.entry, ReadableLimits entry.2 := by
    rw [List.forall_mem_map]
    exact readable_of_read hread
  have hsize : (archiveWire (records.map ArchiveRecord.entry)).length < 2 ^ 63 := by
    obtain ⟨medium, -, hfits⟩ := hwritable.room
    exact ((length_copy_le hread (List.Sublist.refl records)).trans hfits).trans_lt
      medium.addressable
  have hok := audit_wire_ok_iff hlimits hsize (outputFor plan.sourcePath options
    options.repairedSuffix)
  rw [times_of_entries] at hok
  rw [and_iff_left hsame, ← hok]
  constructor
  · intro h
    obtain ⟨_, _, _, _, houtcome', -, -, hpassed, -⟩ := h
    obtain ⟨-, rfl⟩ := Prod.mk.inj (houtcome.symm.trans houtcome')
    rwa [hleft] at hpassed
  · intro hpassed
    refine ⟨report, left, _, _, houtcome, by rw [hleft]; exact read_archive_wire hlimits, ?_,
      by rwa [hleft], ?_⟩
    · rw [entries_recordsAt]
    · rw [hwarnings, warn_if_eq_nil_iff, hpassed]
      simp

/-- The only file of this disk is the archive of a writer that was never closed: its header still
counts no records. -/
def interruptedDisk : Disk Path Path where
  locate := id
  medium _ := some smallMedium
  files path :=
    if path = ⟨"day.ath"⟩ then
      some (File.ofBytes (archiveMagic ++ ({} : ArchiveSummary).wire ++
        recordsWire [(1000, { payload := [1] })]))
    else none

/-- The header is mended. -/
theorem rewrite_mends_header :
    ∃ plan records, planArchiveRepair interruptedDisk ⟨"day.ath"⟩ { allowSalvageScan := false } =
        .ok plan ∧
      Repaired (start (executeArchiveRepairPlan plan false) interruptedDisk)
        ⟨"day.ath.repaired.ath"⟩ records := by
  let options : RepairPlannerOptions := { allowSalvageScan := false }
  let entries : List (UInt64 × Packet) := [(1000, { payload := [1] })]
  let content := archiveMagic ++ ({} : ArchiveSummary).wire ++ recordsWire entries
  have hlimits : ∀ entry ∈ entries, ReadableLimits entry.2 := by
    intro entry hentry
    rw [List.mem_singleton.mp hentry]
    exact readable_observation 0 0 (by decide)
  have hlength : content.length ≤ 1000 := by
    simp [content, entries, recordsWire, length_packet_frame, Packet.sectionsWire]
  have hsource : interruptedDisk.read ⟨"day.ath"⟩ = some content :=
    congrArg some (File.bytes_ofBytes (hlength.trans_lt (by decide)))
  have hstands := stands_of_entries 36 [] hlimits
  rw [List.append_nil] at hstands
  have hread : readArchive (some content) = .ok ({}, recordsAt 36 entries) :=
    read_archive_ok_iff.mpr ⟨_, rfl, hstands⟩
  have hcount : ({} : ArchiveSummary).recordCount.toNat ≠ (recordsAt 36 entries).length := by decide
  let audit := auditArchiveIntegrity (some content) ⟨"day.ath"⟩
  have hfailed : auditReportOk audit = false :=
    Bool.eq_false_iff.mpr fun hok => hcount ((audit_ok_iff hread (by omega) _).mp hok).1
  have hcheck : hasCheck audit .headerMatchesRecords = true := by
    simpa [hasCheck, ArchiveAuditReport.Has] using
      audit_has_header hread (by omega) hcount ⟨"day.ath"⟩
  have hplans := @plan_rewrites _ interruptedDisk ⟨"day.ath"⟩ options {}
  rw [hsource] at hplans
  obtain ⟨plan, hplan, hrewrite⟩ := hplans (if_neg (by simp [options])) hfailed UInt64.zero_le
    (Or.inl ⟨rfl, hcheck⟩) (audit_readable_iff.mpr ⟨_, _, hread⟩)
  have houtput : outputFor ⟨"day.ath"⟩ options options.repairedSuffix =
      ⟨"day.ath.repaired.ath"⟩ := by decide
  obtain ⟨_, records, hread', hrepaired⟩ := @rewrite_repairs_iff _ _ interruptedDisk
    interruptedDisk _ options plan false content (by decide) hplan hrewrite hsource hsource
    (by rw [houtput]; exact ⟨Or.inr (by decide), ⟨1000, by decide⟩, rfl, hlength⟩)
  obtain ⟨rfl, rfl⟩ := Prod.mk.inj (Except.ok.inj (hread.symm.trans hread'))
  rw [houtput] at hrepaired
  exact ⟨plan, _, hplan, hrepaired.mpr ⟨by decide, by decide⟩⟩

/-- An archive of two observations whose capture times are out of order, as the only file. -/
def unorderedDisk : Disk Path Path where
  locate := id
  medium _ := some smallMedium
  files path :=
    if path = ⟨"day.ath"⟩ then
      some (File.ofBytes (archiveWire [(3000, { payload := [3] }), (1000, { payload := [1] })]))
    else none

/-- The archive of the example can be read, and is out of order. -/
theorem unordered_disk_archive :
    ∃ content header records, unorderedDisk.read ⟨"day.ath"⟩ = some content ∧
      content.length ≤ 1000 ∧ readArchive (some content) = .ok (header, records) ∧
      ¬ InOrder (records.map ArchiveRecord.captureTimeNs) := by
  let entries : List (UInt64 × Packet) := [(3000, { payload := [3] }), (1000, { payload := [1] })]
  have hlimits : ∀ entry ∈ entries, ReadableLimits entry.2 := by
    intro entry hentry
    simp only [entries, List.mem_cons, List.not_mem_nil, or_false] at hentry
    rcases hentry with rfl | rfl
    · exact readable_observation 0 0 (by decide)
    · exact readable_observation 0 0 (by decide)
  have hlength : (archiveWire entries).length ≤ 1000 := by
    simp [entries, archiveWire, recordsWire, length_packet_frame, Packet.sectionsWire]
  refine ⟨archiveWire entries, _, _, ?_, hlength, read_archive_wire hlimits, ?_⟩
  · exact congrArg some (File.bytes_ofBytes (hlength.trans_lt (by decide)))
  · rw [times_recordsAt]
    decide

/-- The copy of an archive that is out of order is planned, but it is no repair. -/
theorem rewrite_keeps_disorder :
    ∃ plan records, planArchiveRepair unorderedDisk ⟨"day.ath"⟩
        { allowSalvageScan := false, rewriteWhenUnordered := true } = .ok plan ∧
      (∃ action ∈ plan.actions, action.kind = .rewriteFromReadableRecords) ∧
      (∃ header, readArchive (unorderedDisk.read ⟨"day.ath"⟩) = .ok (header, records)) ∧
      OutputWritable unorderedDisk ⟨"day.ath.repaired.ath"⟩ false 1000 ∧
      ¬ Repaired (start (executeArchiveRepairPlan plan false) unorderedDisk)
        ⟨"day.ath.repaired.ath"⟩ records := by
  obtain ⟨content, header, records, hsource, hsize, hread, hunordered⟩ := unordered_disk_archive
  let options : RepairPlannerOptions := { allowSalvageScan := false, rewriteWhenUnordered := true }
  let audit := auditArchiveIntegrity (some content) ⟨"day.ath"⟩
  have hfailed : auditReportOk audit = false :=
    Bool.eq_false_iff.mpr fun hok => hunordered ((audit_ok_iff hread (by omega) _).mp hok).2
  have hreadable : audit.readable = true := audit_readable_iff.mpr ⟨header, records, hread⟩
  have hcheck : hasCheck audit .orderedTimestamps = true := by
    simpa [hasCheck, ArchiveAuditReport.Has] using
      (audit_has_order_iff hread (by omega) ⟨"day.ath"⟩).mpr hunordered
  have houtput : outputFor ⟨"day.ath"⟩ options options.repairedSuffix =
      ⟨"day.ath.repaired.ath"⟩ := by decide
  have hwritable : OutputWritable unorderedDisk ⟨"day.ath.repaired.ath"⟩ false 1000 :=
    ⟨Or.inr (by decide), ⟨1000, by decide⟩, rfl, le_rfl⟩
  have hsalvage : salvageFor (some content) audit options = .ok {} := if_neg (by simp [options])
  have hplans := @plan_rewrites _ unorderedDisk ⟨"day.ath"⟩ options {}
  rw [hsource] at hplans
  obtain ⟨plan, hplan, hrewrite⟩ :=
    hplans hsalvage hfailed UInt64.zero_le (Or.inr ⟨rfl, hcheck⟩) hreadable
  obtain ⟨_, _, hread', hrepaired⟩ := @rewrite_repairs_iff _ _ unorderedDisk unorderedDisk _ options
    plan false content (by decide) hplan hrewrite hsource hsource
    (by rw [houtput]; exact ⟨hwritable.available, ⟨1000, by decide⟩, rfl, hsize⟩)
  obtain ⟨rfl, rfl⟩ := Prod.mk.inj (Except.ok.inj (hread.symm.trans hread'))
  rw [houtput] at hrepaired
  exact ⟨plan, records, hplan, hrewrite, ⟨header, by rw [hsource, hread]⟩, hwritable,
    fun h => hunordered (hrepaired.mp h).1⟩

end Aethon.Storage
