import Aethon.Storage.ArchiveAudit
import Aethon.Storage.ArchiveRecords
import Aethon.Storage.ManifestAggregates
import Aethon.Storage.TruncatedArchive

/-!
# What an audit finds

With the default options an audit fails on a file that does not read to its end, on a header with
another record count, and on capture times that go back: `audit_ok_iff`. A file of the archive
writer gives cause for the last only.
-/

namespace Aethon.Storage

open Actions FileStream Codec Protocol Parsing Grouping

/-! ## Findings -/

namespace ArchiveAuditReport

/-- No finding is an error. -/
def NoErrors (report : ArchiveAuditReport) : Prop :=
  ∀ finding ∈ report.findings, finding.severity ≠ .error

/-- Some finding comes from a check. -/
def Has (report : ArchiveAuditReport) (check : AuditCheck) : Prop :=
  ∃ finding ∈ report.findings, finding.check = check

/-- The report without its findings. -/
def clean (report : ArchiveAuditReport) : ArchiveAuditReport :=
  { report with findings := [] }

/-- A finding changes nothing else in a report. -/
@[simp] theorem clean_findIf (report : ArchiveAuditReport) (c : Prop) [Decidable c]
    (finding : AuditFinding) : (report.findIf c finding).clean = report.clean := by
  unfold findIf
  split <;> rfl

/-- A conditional finding is no error where its condition fails or it is none. -/
theorem no_errors_findIf {report : ArchiveAuditReport} {c : Prop} [Decidable c]
    {finding : AuditFinding} : (report.findIf c finding).NoErrors ↔
      report.NoErrors ∧ (c → finding.severity ≠ .error) := by
  unfold findIf
  by_cases h : c
  · rw [if_pos h]
    simp only [NoErrors, List.forall_mem_append, List.forall_mem_singleton, h, true_implies]
  · rw [if_neg h]
    simp only [h, false_implies, and_true]

/-- A report has a check that it had, or that of the finding. -/
theorem has_findIf {report : ArchiveAuditReport} {c : Prop} [Decidable c]
    {finding : AuditFinding} {check : AuditCheck} :
    (report.findIf c finding).Has check ↔ report.Has check ∨ c ∧ finding.check = check := by
  unfold findIf
  by_cases h : c
  · rw [if_pos h]
    simp only [Has, List.mem_append, List.mem_singleton, or_and_right, exists_or, exists_eq_left, h,
      true_and]
  · rw [if_neg h]
    simp only [h, false_and, or_false]

@[simp] theorem clean_checkTimeOrder (report : ArchiveAuditReport) (record : ArchiveRecord)
    (previousTime : Option UInt64) :
    (report.checkTimeOrder record previousTime).clean = report.clean :=
  clean_findIf ..

@[simp] theorem clean_addHeaderFindings (report : ArchiveAuditReport) (header : ArchiveSummary) :
    (report.addHeaderFindings header).clean = report.clean := by
  simp only [addHeaderFindings, clean_findIf]

@[simp] theorem clean_addManifestFindings (report : ArchiveAuditReport) :
    report.addManifestFindings.clean = report.clean := rfl

@[simp] theorem clean_addSparseDeviceFindings (report : ArchiveAuditReport)
    (options : AuditOptions) : (report.addSparseDeviceFindings options).clean = report.clean := by
  unfold addSparseDeviceFindings
  split
  · rfl
  · generalize report.manifest.devices = devices
    induction devices generalizing report with
    | nil => rfl
    | cons device devices ih =>
        rw [List.foldl_cons, ih]
        exact clean_findIf ..

/-- The payload bounds keep the flag and the counter. -/
theorem checkPayloadBounds_keeps (report : ArchiveAuditReport) (record : ArchiveRecord)
    (options : AuditOptions) :
    (report.checkPayloadBounds record options).clean.readable = report.clean.readable ∧
      (report.checkPayloadBounds record options).clean.recordsScanned =
        report.clean.recordsScanned := by
  simp only [checkPayloadBounds, clean_findIf]
  split <;> exact ⟨rfl, rfl⟩

/-- Without payload bounds no payload is an error. -/
theorem no_errors_checkPayloadBounds {report : ArchiveAuditReport} {record : ArchiveRecord} :
    (report.checkPayloadBounds record {}).NoErrors ↔ report.NoErrors := by
  simp only [checkPayloadBounds, no_errors_findIf, ne_eq, not_true_eq_false, false_and,
    false_implies, and_true]
  split <;> rfl

/-- The check of the order gives no error when no time goes back. -/
theorem no_errors_checkTimeOrder {report : ArchiveAuditReport} {record : ArchiveRecord}
    {previousTime : Option UInt64} : (report.checkTimeOrder record previousTime).NoErrors ↔
      report.NoErrors ∧ ∀ previous ∈ previousTime, previous ≤ record.captureTimeNs := by
  rw [checkTimeOrder, no_errors_findIf]
  refine and_congr_right fun _ => ?_
  simp only [makeRecordFinding, ne_eq, not_true_eq_false, imp_false, not_exists, not_and,
    UInt64.not_lt]

/-- No check of a payload is a check of the order. -/
theorem has_order_checkPayloadBounds {report : ArchiveAuditReport} {record : ArchiveRecord}
    {options : AuditOptions} :
    (report.checkPayloadBounds record options).Has .orderedTimestamps ↔
      report.Has .orderedTimestamps := by
  simp only [checkPayloadBounds, has_findIf, makeRecordFinding, reduceCtorEq, and_false, or_false]
  split <;> rfl

/-- The check of the order is found where a time goes back. -/
theorem has_order_checkTimeOrder {report : ArchiveAuditReport} {record : ArchiveRecord}
    {previousTime : Option UInt64} :
    (report.checkTimeOrder record previousTime).Has .orderedTimestamps ↔
      report.Has .orderedTimestamps ∨
        ¬ ∀ previous ∈ previousTime, previous ≤ record.captureTimeNs := by
  rw [checkTimeOrder, has_findIf]
  simp only [makeRecordFinding, and_true, not_forall, UInt64.not_le, exists_prop]

theorem has_order_addHeaderFindings {report : ArchiveAuditReport} {header : ArchiveSummary} :
    (report.addHeaderFindings header).Has .orderedTimestamps ↔ report.Has .orderedTimestamps := by
  simp only [addHeaderFindings, has_findIf, makeFinding, reduceCtorEq, and_false, or_false]

/-- A header with another record count is noticed, and no later check takes that back. -/
theorem has_header_addHeaderFindings {report : ArchiveAuditReport} {header : ArchiveSummary}
    (h : header.recordCount ≠ report.manifest.summary.recordCount) :
    (report.addHeaderFindings header).addManifestFindings.Has .headerMatchesRecords := by
  have hheader : (report.addHeaderFindings header).Has .headerMatchesRecords := by
    simp only [addHeaderFindings, has_findIf]
    exact Or.inl (Or.inl (Or.inr ⟨h, rfl⟩))
  obtain ⟨finding, hfinding, hcheck⟩ := hheader
  exact ⟨finding, List.mem_append_left _ hfinding, hcheck⟩

theorem has_order_addManifestFindings {report : ArchiveAuditReport} :
    report.addManifestFindings.Has .orderedTimestamps ↔ report.Has .orderedTimestamps := by
  simp only [addManifestFindings, Has, List.mem_append, or_and_right, exists_or, List.mem_map,
    makeFinding, exists_exists_and_eq_and, reduceCtorEq, and_false, exists_false,
    or_false]

/-- Of the header only the record count can be an error. -/
theorem no_errors_addHeaderFindings {report : ArchiveAuditReport} {header : ArchiveSummary} :
    (report.addHeaderFindings header).NoErrors ↔
      report.NoErrors ∧ header.recordCount = report.manifest.summary.recordCount := by
  simp only [addHeaderFindings, no_errors_findIf, makeFinding, ne_eq, reduceCtorEq,
    not_false_eq_true, implies_true, and_true, not_true_eq_false, imp_false, not_not]

/-- The warnings of a manifest are no errors. -/
theorem no_errors_addManifestFindings {report : ArchiveAuditReport} :
    report.addManifestFindings.NoErrors ↔ report.NoErrors := by
  simp only [addManifestFindings, NoErrors, List.forall_mem_append, List.forall_mem_map,
    makeFinding, ne_eq, reduceCtorEq, not_false_eq_true, implies_true, and_true]

end ArchiveAuditReport

theorem audit_report_ok_iff {report : ArchiveAuditReport} :
    auditReportOk report = true ↔ report.readable = true ∧ report.NoErrors := by
  simp only [auditReportOk, Bool.and_eq_true, List.all_eq_true, decide_eq_true_eq,
    ArchiveAuditReport.NoErrors]

/-! ## The loop -/

namespace AuditScan

/-- The body of the loop keeps the flag and counts the record. -/
theorem observe_keeps (options : AuditOptions) (scan : AuditScan) (record : ArchiveRecord) :
    (scan.observe options record).report.readable = scan.report.readable ∧
      (scan.observe options record).report.recordsScanned = scan.report.recordsScanned + 1 := by
  have hoffset : (scan.checkDuplicateOffset record).report.clean = scan.report.clean := by
    unfold checkDuplicateOffset
    split <;> rfl
  have hsequence (scan : AuditScan) :
      (scan.checkDeviceSequence record).report.clean = scan.report.clean :=
    ArchiveAuditReport.clean_findIf ..
  -- the checks in front of the payload bounds only add findings
  have hcounts (checked : AuditScan) (hchecked : checked.report.clean = scan.report.clean) :
      (checked.report.checkPayloadBounds record options).clean.readable =
          scan.report.clean.readable ∧
        (checked.report.checkPayloadBounds record options).clean.recordsScanned + 1 =
          scan.report.clean.recordsScanned + 1 := by
    obtain ⟨hreadable, hcount⟩ := checked.report.checkPayloadBounds_keeps record options
    rw [hreadable, hcount, hchecked]
    exact ⟨rfl, rfl⟩
  refine hcounts _ ?_
  by_cases horder : options.requireTimeOrder = true
  · simp only [if_pos horder]
    split
    · exact (hsequence _).trans ((ArchiveAuditReport.clean_checkTimeOrder ..).trans hoffset)
    · exact (ArchiveAuditReport.clean_checkTimeOrder ..).trans hoffset
  · simp only [if_neg horder]
    split
    · exact (hsequence _).trans hoffset
    · exact hoffset

/-- What the loop knows behind records whose offsets increase. -/
structure Saw (records : List ArchiveRecord) (scan : AuditScan) : Prop where
  previous : scan.previousTime = (records.map ArchiveRecord.captureTimeNs).getLast?
  offsets : ∀ offset ∈ scan.offsets, offset ∈ records.map ArchiveRecord.offset
  ordered : scan.report.NoErrors ↔ InOrder (records.map ArchiveRecord.captureTimeNs)
  unordered : scan.report.Has .orderedTimestamps ↔
    ¬ InOrder (records.map ArchiveRecord.captureTimeNs)

/-- The body of the loop keeps up with one more record. -/
theorem Saw.concat {records : List ArchiveRecord} {scan : AuditScan} (h : scan.Saw records)
    {record : ArchiveRecord} (hnew : record.offset ∉ records.map ArchiveRecord.offset) :
    (scan.observe {} record).Saw (records ++ [record]) := by
  have hfresh : record.offset ∉ scan.offsets := fun hmem => hnew (h.offsets _ hmem)
  have hscan : scan.checkDuplicateOffset record =
      { scan with offsets := record.offset :: scan.offsets } := if_neg hfresh
  constructor
  · simp [observe]
  · intro offset hoffset
    have hmem : offset ∈ record.offset :: scan.offsets := by
      simpa [observe, hscan] using hoffset
    rw [List.map_append, List.mem_append]
    rcases List.mem_cons.mp hmem with rfl | hmem
    · exact Or.inr (by simp)
    · exact Or.inl (h.offsets _ hmem)
  · rw [List.map_append, List.map_singleton, in_order_concat, ← h.ordered, ← h.previous]
    show ((scan.checkDuplicateOffset record).report.checkTimeOrder record
      (scan.checkDuplicateOffset record).previousTime |>.checkPayloadBounds record {}).NoErrors ↔ _
    rw [ArchiveAuditReport.no_errors_checkPayloadBounds,
      ArchiveAuditReport.no_errors_checkTimeOrder, hscan]
  · rw [List.map_append, List.map_singleton, in_order_concat, not_and_or, ← h.unordered,
      ← h.previous]
    show ((scan.checkDuplicateOffset record).report.checkTimeOrder record
      (scan.checkDuplicateOffset record).previousTime |>.checkPayloadBounds record {}).Has _ ↔ _
    rw [ArchiveAuditReport.has_order_checkPayloadBounds,
      ArchiveAuditReport.has_order_checkTimeOrder, hscan]

end AuditScan

/-- A scan has seen every record. -/
theorem audit_scan_saw (path : Path) {records : List ArchiveRecord}
    (hoffsets : (records.map ArchiveRecord.offset).Nodup) :
    (records.foldl (AuditScan.observe {}) { report := { path } }).Saw records := by
  induction records using List.reverseRecOn with
  | nil =>
      have hnone : ({ path } : ArchiveAuditReport).NoErrors := by
        simp [ArchiveAuditReport.NoErrors]
      refine ⟨rfl, by simp, iff_of_true hnone List.Pairwise.nil, iff_of_false ?_ ?_⟩
      · simp [ArchiveAuditReport.Has]
      · exact fun hunordered => hunordered List.Pairwise.nil
  | append_singleton records record ih =>
      rw [List.map_append, List.nodup_append] at hoffsets
      rw [List.foldl_append]
      refine (ih hoffsets.1).concat fun hmem => ?_
      exact hoffsets.2.2 _ hmem _ (by simp) rfl

/-! ## Audits of files -/

theorem build_manifest_of_read {file : Option Bytes} {header : ArchiveSummary}
    {records : List ArchiveRecord} (h : readArchive file = .ok (header, records)) :
    buildArchiveManifest file = .ok (manifestOf header records) := by
  rw [buildArchiveManifest, h]
  rfl

/-- The report on a file that is read to its end. -/
theorem audit_of_read {file : Option Bytes} {header : ArchiveSummary}
    {records : List ArchiveRecord} (h : readArchive file = .ok (header, records)) (path : Path)
    (options : AuditOptions) :
    auditArchiveIntegrity file path options =
      (({ (records.foldl (AuditScan.observe options) { report := { path } }).report with
        manifest := manifestOf header records }.addHeaderFindings header).addManifestFindings
          ).addSparseDeviceFindings options := by
  have hmanifest := build_manifest_of_read h
  obtain ⟨reader, hopen, hdrain, rfl⟩ := read_archive_reader_iff.mp h
  simp only [auditArchiveIntegrity, hopen, hdrain, hmanifest]

/-- A scan keeps what it found, and where it read. -/
theorem audit_scan_keeps (options : AuditOptions) (scan : AuditScan)
    (records : List ArchiveRecord) :
    let last := records.foldl (AuditScan.observe options) scan
    last.report.readable = scan.report.readable ∧ last.report.recordsScanned =
      scan.report.recordsScanned + UInt64.ofNat records.length := by
  induction records generalizing scan with
  | nil => simp
  | cons record records ih =>
      obtain ⟨hreadable, hcount⟩ := ih (scan.observe options record)
      obtain ⟨hkeeps, hcounts⟩ := scan.observe_keeps options record
      refine ⟨by rw [List.foldl_cons, hreadable, hkeeps], ?_⟩
      rw [List.foldl_cons, hcount, hcounts, List.length_cons, UInt64.ofNat_add, UInt64.add_assoc,
        UInt64.add_comm 1]
      rfl

/-- An audit calls a file readable exactly when it is read to its end. -/
theorem audit_readable_iff {file : Option Bytes} {path : Path} {options : AuditOptions} :
    (auditArchiveIntegrity file path options).readable = true ↔
      ∃ header records, readArchive file = .ok (header, records) := by
  constructor
  · intro h
    unfold auditArchiveIntegrity at h
    split at h
    · cases h
    · rename_i reader hopen
      rcases hdrain : reader.drain with ⟨records, _ | failure⟩
      · exact ⟨reader.summary, records, read_archive_reader_iff.mpr ⟨reader, hopen, hdrain, rfl⟩⟩
      · rw [hdrain] at h
        cases h
  · intro h
    obtain ⟨header, records, hread⟩ := h
    rw [audit_of_read hread]
    show (ArchiveAuditReport.clean _).readable = true
    simp only [ArchiveAuditReport.clean_addSparseDeviceFindings,
      ArchiveAuditReport.clean_addManifestFindings, ArchiveAuditReport.clean_addHeaderFindings]
    exact (audit_scan_keeps options { report := { path } } records).1

/-- With the default options an audit of a file that is read to its end is passed exactly when the
header has the record count and the capture times are in order. -/
theorem audit_ok_iff {content : Bytes} {header : ArchiveSummary} {records : List ArchiveRecord}
    (h : readArchive (some content) = .ok (header, records)) (hsize : content.length < 2 ^ 64)
    (path : Path) :
    auditReportOk (auditArchiveIntegrity (some content) path) = true ↔
      header.recordCount.toNat = records.length ∧
        InOrder (records.map ArchiveRecord.captureTimeNs) := by
  obtain ⟨hoffsets, hbytes⟩ := records_of_read h hsize
  have hobserved : (manifestOf header records).summary.recordCount.toNat = records.length :=
    (manifest_exact hbytes).summary.1.trans (List.length_map _)
  have hreadable : (auditArchiveIntegrity (some content) path).readable = true :=
    audit_readable_iff.mpr ⟨header, records, h⟩
  rw [audit_report_ok_iff, and_iff_right hreadable, audit_of_read h]
  -- the default options look for no sparse device
  show (ArchiveAuditReport.addManifestFindings _).NoErrors ↔ _
  rw [ArchiveAuditReport.no_errors_addManifestFindings,
    ArchiveAuditReport.no_errors_addHeaderFindings, ← hobserved, UInt64.toNat_inj, and_comm]
  exact and_congr_right fun _ => (audit_scan_saw path hoffsets).ordered

/-- The order of the capture times is checked on its own. -/
theorem audit_has_order_iff {content : Bytes} {header : ArchiveSummary}
    {records : List ArchiveRecord} (h : readArchive (some content) = .ok (header, records))
    (hsize : content.length < 2 ^ 64) (path : Path) :
    (auditArchiveIntegrity (some content) path).Has .orderedTimestamps ↔
      ¬ InOrder (records.map ArchiveRecord.captureTimeNs) := by
  obtain ⟨hoffsets, -⟩ := records_of_read h hsize
  rw [audit_of_read h]
  show (ArchiveAuditReport.addManifestFindings _).Has .orderedTimestamps ↔ _
  rw [ArchiveAuditReport.has_order_addManifestFindings,
    ArchiveAuditReport.has_order_addHeaderFindings]
  exact (audit_scan_saw path hoffsets).unordered

/-- A header with another record count is noticed. -/
theorem audit_has_header {content : Bytes} {header : ArchiveSummary} {records : List ArchiveRecord}
    (h : readArchive (some content) = .ok (header, records)) (hsize : content.length < 2 ^ 64)
    (hcount : header.recordCount.toNat ≠ records.length) (path : Path) :
    (auditArchiveIntegrity (some content) path).Has .headerMatchesRecords := by
  obtain ⟨-, hbytes⟩ := records_of_read h hsize
  have hobserved : (manifestOf header records).summary.recordCount.toNat = records.length :=
    (manifest_exact hbytes).summary.1.trans (List.length_map _)
  rw [audit_of_read h]
  show (ArchiveAuditReport.addManifestFindings _).Has .headerMatchesRecords
  refine ArchiveAuditReport.has_header_addHeaderFindings fun hsame => hcount ?_
  rw [show header.recordCount = _ from hsame, hobserved]

/-! ## Audits of written archives -/

@[simp] theorem length_recordsAt (position : Nat) (entries : List (UInt64 × Packet)) :
    (recordsAt position entries).length = entries.length := by
  rw [← List.length_map ArchiveRecord.entry, entries_recordsAt]

theorem times_of_entries (records : List ArchiveRecord) :
    (records.map ArchiveRecord.entry).map Prod.fst = records.map ArchiveRecord.captureTimeNs := by
  rw [List.map_map]
  rfl

theorem times_recordsAt (position : Nat) (entries : List (UInt64 × Packet)) :
    (recordsAt position entries).map ArchiveRecord.captureTimeNs = entries.map Prod.fst := by
  rw [← times_of_entries, entries_recordsAt]

/-- An audit of an archive as it was written finds fault only with the order of the times. -/
theorem audit_wire_ok_iff {entries : List (UInt64 × Packet)}
    (hlimits : ∀ entry ∈ entries, ReadableLimits entry.2)
    (hsize : (archiveWire entries).length < 2 ^ 63) (path : Path) :
    auditReportOk (auditArchiveIntegrity (some (archiveWire entries)) path) = true ↔
      InOrder (entries.map Prod.fst) := by
  obtain ⟨hcount, -⟩ := summarize_describes
    (length_entries_lt (show (archiveWire entries).length ≤ Medium.capacity ⟨_, hsize⟩ from le_rfl))
  rw [audit_ok_iff (read_archive_wire hlimits) (by omega), times_recordsAt, length_recordsAt,
    and_iff_right hcount]

/-- The manifest of a written archive is exact and consistent, and both the manifest and the audit
find fault with it only if the capture times are not in the order of the file. -/
theorem written_archive_audit {medium : Medium} {entries : List (UInt64 × Packet)}
    {writer : ArchiveWriter} (h : writeArchive medium entries = .ok writer)
    (hpackets : ∀ entry ∈ entries, RoundTrips entry.2) (path : Path) :
    ∃ manifest, buildArchiveManifest (some writer.out.content) = .ok manifest ∧
      manifest.Exact entries ∧ validateArchiveManifest manifest = [] ∧
      (manifest.warnings = [] ↔ InOrder (entries.map Prod.fst)) ∧
      (auditReportOk (auditArchiveIntegrity (some writer.out.content) path) = true ↔
        InOrder (entries.map Prod.fst)) := by
  have hlimits : ∀ entry ∈ entries, ReadableLimits entry.2 := fun entry hentry =>
    round_trips_iff_readable.mp (hpackets entry hentry)
  have hread := read_archive_wire hlimits
  obtain ⟨⟨-, hfits⟩, rfl⟩ := write_archive_ok_iff.mp h
  have hsize : (archiveWire entries).length < 2 ^ 63 := hfits.trans_lt medium.addressable
  have hcount := length_entries_lt hfits
  obtain ⟨-, hbytes⟩ := records_of_read hread (by omega)
  have hexact := @manifest_exact (summarize {} entries) _ hbytes
  rw [entries_recordsAt] at hexact
  obtain ⟨hlength, hfirst, hlast⟩ := summarize_describes hcount
  obtain ⟨hlength', hfirst', hlast'⟩ := hexact.summary
  have hmatches : HeaderMatches (summarize {} entries)
      (manifestOf (summarize {} entries) (recordsAt 36 entries)).summary :=
    ⟨UInt64.toNat.inj (hlength.trans hlength'.symm),
      fun _ => ⟨hfirst.trans hfirst'.symm, hlast.trans hlast'.symm⟩⟩
  refine ⟨_, build_manifest_of_read hread, hexact, validate_of_exact hexact hcount, ?_,
    audit_wire_ok_iff hlimits hsize path⟩
  rw [manifest_warnings_iff hbytes, times_recordsAt, and_iff_left hmatches]

/-- Two observations whose capture times are out of order. -/
theorem written_archive_audit_out_of_order :
    let entries : List (UInt64 × Packet) := [(3000, { payload := [3] }), (1000, { payload := [1] })]
    ∃ writer, writeArchive ⟨1000, by decide⟩ entries = .ok writer ∧
      ∃ manifest, buildArchiveManifest (some writer.out.content) = .ok manifest ∧
        manifest.Exact entries ∧ manifest.warnings ≠ [] ∧
        auditReportOk (auditArchiveIntegrity (some writer.out.content) ⟨"day.ath"⟩) = false := by
  intro entries
  have hlimits : ∀ entry ∈ entries, ReadableLimits entry.2 := by
    intro entry hentry
    simp only [entries, List.mem_cons, List.not_mem_nil, or_false] at hentry
    rcases hentry with rfl | rfl
    · exact readable_observation 0 0 (by decide)
    · exact readable_observation 0 0 (by decide)
  have hlength : (archiveWire entries).length ≤ 1000 := by
    simp [entries, archiveWire, recordsWire, length_packet_frame, Packet.sectionsWire]
  have hunordered : ¬ InOrder (entries.map Prod.fst) := by decide
  obtain ⟨writer, hwrite, -⟩ := @write_archive_of_readable ⟨1000, by decide⟩ _ hlimits hlength
  obtain ⟨manifest, hbuild, hexact, -, hwarnings, haudit⟩ := written_archive_audit hwrite
    (fun entry hentry => round_trips_iff_readable.mpr (hlimits entry hentry)) ⟨"day.ath"⟩
  exact ⟨writer, hwrite, manifest, hbuild, hexact, fun hnone => hunordered (hwarnings.mp hnone),
    Bool.eq_false_iff.mpr fun hok => hunordered (haudit.mp hok)⟩

end Aethon.Storage
