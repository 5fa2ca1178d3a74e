import Aethon.Storage.RepairRewrite
import Aethon.Storage.SalvageScan

/-!
# What is salvaged

An archive that does not read to its end is rebuilt from the salvage scan when that finds more
packets than were read before the failure, and is put in quarantine otherwise.
-/

namespace Aethon.Storage

open Actions FileStream FileSystem Codec Protocol Parsing

variable {κ : Type}

/-! ## The two counts -/

/-- The records that are read before the end of a file or an exception. -/
def recordsRead (file : Option Bytes) : List ArchiveRecord :=
  match ArchiveReader.ofFile file with
  | .error _ => []
  | .ok reader => reader.drain.1

/-- An audit counts the records that are read. -/
theorem audit_records_scanned {file : Option Bytes} {path : Path} {options : AuditOptions}
    (h : (auditArchiveIntegrity file path options).readable = false) :
    (auditArchiveIntegrity file path options).recordsScanned =
      UInt64.ofNat (recordsRead file).length := by
  have hnone : ¬ ∃ header records, readArchive file = .ok (header, records) := by
    rw [← @audit_readable_iff file path options, h]
    exact Bool.false_ne_true
  unfold auditArchiveIntegrity recordsRead
  rcases hopen : ArchiveReader.ofFile file with failure | reader
  · rfl
  · rcases hdrain : reader.drain with ⟨records, _ | failure⟩
    · exact absurd ⟨_, _, read_archive_reader_iff.mpr ⟨reader, hopen, hdrain, rfl⟩⟩ hnone
    · simp only [hdrain]
      exact ((audit_scan_keeps options { report := { path } } records).2).trans
        (UInt64.zero_add _)

/-- The records of a file can be counted. -/
theorem length_records_read_lt {content : Bytes} (hsize : content.length < 2 ^ 64) :
    (recordsRead (some content)).length < 2 ^ 64 := by
  unfold recordsRead
  rcases hopen : ArchiveReader.ofFile (some content) with failure | reader
  · exact Nat.two_pow_pos 64
  · obtain ⟨hgood, -, hcontent⟩ := of_file_spec hopen
    obtain ⟨rest, hstands, -⟩ := reader.drain_stands hgood
    have hbytes := hstands.length_records_wire_le
    have hrecords := length_le_records_wire (reader.drain.1.map ArchiveRecord.entry)
    have hlength := congrArg List.length hcontent
    rw [List.length_append] at hlength
    rw [List.length_map] at hrecords
    show reader.drain.1.length < 2 ^ 64
    omega

/-- Slices that lie one behind the other are no more than the bytes that they lie in. -/
theorem length_slices_le {bytes : Bytes} {items : List SalvagedPacket} {front : Nat}
    (hdisjoint : items.Pairwise fun earlier later =>
      earlier.fileOffset + frameLen bytes earlier.fileOffset ≤ later.fileOffset)
    (hfront : ∀ item ∈ items, front ≤ item.fileOffset)
    (hend : ∀ item ∈ items, item.fileOffset + frameLen bytes item.fileOffset ≤ bytes.length) :
    items.length ≤ bytes.length - front := by
  induction items generalizing front with
  | nil => exact Nat.zero_le _
  | cons item items ih =>
      obtain ⟨hbehind, hdisjoint⟩ := List.pairwise_cons.mp hdisjoint
      obtain ⟨hitem, -⟩ := List.forall_mem_cons.mp hfront
      obtain ⟨hlast, hends⟩ := List.forall_mem_cons.mp hend
      have hrest := ih hdisjoint hbehind hends
      have hpositive : 12 ≤ frameLen bytes item.fileOffset := Nat.le_add_left 12 _
      rw [List.length_cons]
      omega

theorem length_salvaged_le (bytes : Bytes) :
    (scanBytes {} bytes).packets.length ≤ bytes.length := by
  obtain ⟨_, -, hscanned⟩ := scan_bytes_scanned {} bytes
  exact length_slices_le hscanned.disjoint (fun _ _ => Nat.zero_le _)
    fun item hitem => (hscanned.slices item hitem).1

/-- A salvaged packet is within the limits of the reader. -/
theorem salvaged_readable {bytes : Bytes} :
    ∀ item ∈ (scanBytes {} bytes).packets, ReadableLimits item.packet := by
  obtain ⟨_, -, hscanned⟩ := scan_bytes_scanned {} bytes
  intro item hitem
  have hdecode := (hscanned.slices item hitem).2
  obtain ⟨_, _, hmax, _⟩ := decode_packet_ok_iff.mp hdecode
  exact readable_of_decode hmax hdecode

/-! ## The plan -/

/-- The actions of a rebuild. -/
def rebuildActions (path output : Path) (records : UInt64) : List RepairAction :=
  [{ kind := .rebuildFromSalvage, sourcePath := path, outputPath := output
     reason := "salvage scan found more packets than readable archive scan"
     expectedRecords := records },
   { kind := .verifyAfterWrite, sourcePath := output, outputPath := output
     reason := "verify rebuilt archive", expectedRecords := records }]

/-- The actions for an archive that nothing can be read from. -/
def quarantineActions (path output : Path) : List RepairAction :=
  [{ kind := .quarantineFile, sourcePath := path, outputPath := output
     reason := "archive could not be safely repaired", expectedRecords := 0 }]

/-- With the default options the plan for an archive that does not read to its end compares the two
counts. -/
theorem plan_of_unreadable {disk : Disk Path κ} {path : Path} {content : Bytes}
    (hsource : disk.read path = some content)
    (hunreadable : (auditArchiveIntegrity (some content) path).readable = false)
    (hsize : content.length < 2 ^ 64) :
    ∃ plan, planArchiveRepair disk path = .ok plan ∧ plan.sourcePath = path ∧
      plan.salvage = scanBytes {} content ∧
      plan.actions =
        if (recordsRead (some content)).length < (scanBytes {} content).packets.length then
          rebuildActions path (outputFor path {} ".repaired.ath") plan.salvagedRecords
        else quarantineActions path (outputFor path {} ".quarantine") := by
  have hsalvage : salvageFor (some content) (auditArchiveIntegrity (some content) path) {} =
      .ok (scanBytes {} content) := by
    rw [salvageFor, if_pos ⟨rfl, Or.inl (by simp [hunreadable])⟩]
    rfl
  have hfailed : auditReportOk (auditArchiveIntegrity (some content) path) = false := by
    rw [auditReportOk, hunreadable, Bool.false_and]
  have hmore : UInt64.ofNat (scanBytes {} content).packets.length >
      (auditArchiveIntegrity (some content) path).recordsScanned ↔
      (recordsRead (some content)).length < (scanBytes {} content).packets.length := by
    have hread := length_records_read_lt hsize
    have hsalvaged := length_salvaged_le content
    rw [audit_records_scanned hunreadable, gt_iff_lt, UInt64.lt_iff_toNat_lt,
      UInt64.toNat_ofNat_of_lt' hread, UInt64.toNat_ofNat_of_lt' (hsalvaged.trans_lt hsize)]
  by_cases h : (recordsRead (some content)).length < (scanBytes {} content).packets.length
  · simp only [planArchiveRepair, hsource, hsalvage, except_bind_ok_iff, except_pure_ok_iff,
      hfailed, hmore, h, Bool.false_eq_true, if_false, if_true, Except.ok.injEq, ↓existsAndEq,
      true_and]
    rfl
  · simp only [planArchiveRepair, hsource, hsalvage, except_bind_ok_iff, except_pure_ok_iff,
      hfailed, hmore, h, hunreadable, Bool.false_eq_true, and_false, if_false, if_true,
      Except.ok.injEq, ↓existsAndEq, true_and]
    rfl

/-! ## The execution -/

variable [DecidableEq κ]

/-- A plan that writes packets to an archive at the output, wherever that can be written: it has an
action for that, and its execution leaves an archive that reads back as these packets. -/
def Rebuilds (plan : ArchiveRepairPlan) (output : Path) (items : List SalvagedPacket) : Prop :=
  (∃ action ∈ plan.actions, action.kind = .rebuildFromSalvage ∧ action.outputPath = output) ∧
    ∀ (now : Disk Path κ) (overwrite : Bool), OutputWritable now output overwrite
        (archiveWire (items.map SalvagedPacket.entry)).length →
      ∃ report left header records,
        start (executeArchiveRepairPlan plan overwrite) now = (.ok report, left) ∧
          readArchive (left.read output) = .ok (header, records) ∧
          records.map ArchiveRecord.entry = items.map SalvagedPacket.entry

theorem validate_of_rebuild {plan : ArchiveRepairPlan} {path output : Path}
    (hpath : plan.sourcePath.empty = false) (houtput : output.empty = false)
    (hfound : plan.salvage.packets ≠ [])
    (hactions : plan.actions = rebuildActions path output plan.salvagedRecords) :
    validateArchiveRepairPlan plan = [] := by
  simp [validateArchiveRepairPlan, warnIf, hactions, rebuildActions, hpath, hfound, houtput]

/-- A rebuild writes what was salvaged. -/
theorem rebuilds_of_actions {plan : ArchiveRepairPlan} {path output : Path}
    (hvalid : validateArchiveRepairPlan plan = [])
    (hactions : plan.actions = rebuildActions path output plan.salvagedRecords)
    (hlimits : ∀ item ∈ plan.salvage.packets, ReadableLimits item.packet) :
    @Rebuilds κ _ plan output plan.salvage.packets := by
  refine ⟨by rw [hactions]; exact ⟨_, List.mem_cons_self, rfl, rfl⟩, ?_⟩
  intro now overwrite hwritable
  obtain ⟨cleared, hclear, hlocate, hmedium, -⟩ :=
    ensure_can_write_of_available hwritable.available
  obtain ⟨medium, hroom, hfits⟩ := hwritable.room
  let entries := plan.salvage.packets.map SalvagedPacket.entry
  have hreadable : ∀ entry ∈ entries, ReadableLimits entry.2 := List.forall_mem_map.mpr hlimits
  let left := cleared.put (cleared.locate output) (some (File.ofBytes (archiveWire entries)))
  have hwrite : start (writeRepairedArchive output plan.salvage) cleared = (.ok (), left) :=
    write_entries_on_disk_iff.mpr ⟨medium, by rw [hmedium, hlocate, hroom],
      fun entry hentry => (hreadable entry hentry).encoder, hfits, rfl⟩
  have hleft : left.read output = some (archiveWire entries) := by
    rw [Disk.read_put_same rfl, File.bytes_ofBytes (hfits.trans_lt medium.addressable)]
  have hrun : ∃ report, start (executeArchiveRepairPlan plan overwrite) now =
      (.ok report, left) := by
    rw [executeArchiveRepairPlan, hactions]
    simp only [start_rejectIf_ok_iff, hvalid, rebuildActions, List.foldlM_cons, List.foldlM_nil,
      executeAction, bind_assoc, pure_bind, start_bind_ok_iff, start_rethrow_ok_iff,
      start_get_bind, start_pure, Prod.mk.injEq, Except.ok.injEq]
    exact ⟨_, (), now, ⟨not_not.mpr rfl, rfl⟩, (), cleared, hclear, (), left, hwrite, rfl, rfl⟩
  obtain ⟨report, hrun⟩ := hrun
  exact ⟨report, left, _, _, hrun, by rw [hleft]; exact read_archive_wire hreadable,
    entries_recordsAt 36 entries⟩

/-- An archive that does not read to its end, but in which packets are found, is rebuilt from all
of them when they are more than the records read before the failure, and else it is put in
quarantine. -/
theorem unreadable_archive_plan {disk : Disk Path κ} {path : Path} {content : Bytes}
    (hpath : path.empty = false) (hsource : disk.read path = some content)
    (hunreadable : (auditArchiveIntegrity (some content) path).readable = false)
    (hfound : (scanBytes {} content).packets ≠ []) :
    ∃ plan, planArchiveRepair disk path = .ok plan ∧
      if (recordsRead (some content)).length < (scanBytes {} content).packets.length then
        @Rebuilds κ _ plan (outputFor path {} ".repaired.ath") (scanBytes {} content).packets
      else plan.actions = quarantineActions path (outputFor path {} ".quarantine") := by
  have hsize := disk.read_addressable hsource
  obtain ⟨plan, hplan, rfl, hsalvage, hactions⟩ :=
    plan_of_unreadable hsource hunreadable (by omega)
  refine ⟨plan, hplan, ?_⟩
  by_cases h : (recordsRead (some content)).length < (scanBytes {} content).packets.length
  · rw [if_pos h] at hactions ⊢
    rw [← hsalvage] at hfound ⊢
    have hvalid := validate_of_rebuild hpath (output_for_not_empty hpath {} _) hfound hactions
    exact rebuilds_of_actions hvalid hactions (hsalvage ▸ salvaged_readable)
  · rw [if_neg h] at hactions ⊢
    exact hactions

/-! ## Two damaged archives -/

/-- A slice is no shorter than the shortest frame. -/
theorem Slice.frameLen_ge {options : DecodeOptions} {bytes : Bytes} {item : SalvagedPacket}
    (h : Slice options bytes item) : 45 ≤ frameLen bytes item.fileOffset := by
  have hframe := length_frame_le h.2
  have hslice : (subspan bytes item.fileOffset (frameLen bytes item.fileOffset)).length ≤
      frameLen bytes item.fileOffset := List.length_take_le _ _
  rw [← packetFrame, length_packet_frame] at hframe
  omega

/-- A slice begins with the magic number. -/
theorem Slice.magic {options : DecodeOptions} {bytes : Bytes} {item : SalvagedPacket}
    (h : Slice options bytes item) : readU32Le bytes item.fileOffset = packetMagic := by
  have hframe : FrameAt options bytes item.fileOffset item.packet :=
    ⟨_, _, (List.take_append_drop _ _).symm, h.2⟩
  exact hframe.seen.2.1

/-- A frame in the bytes is found, or another one in front of it. -/
theorem salvaged_of_frame {bytes front frame rest : Bytes} {packet : Packet}
    (hbytes : bytes = front ++ (frame ++ rest)) (hdecode : decodePacket frame = .ok packet) :
    (scanBytes {} bytes).packets ≠ [] := by
  obtain ⟨last, hend, hscanned⟩ := scan_bytes_scanned {} bytes
  have hframe : FrameAt {} bytes front.length packet :=
    ⟨frame, rest, by rw [hbytes, List.drop_left], hdecode⟩
  obtain ⟨hfits, -⟩ := hframe.seen
  obtain ⟨item, hitem, -⟩ := hscanned.complete front.length (by omega) packet hframe
  exact List.ne_nil_of_mem hitem

/-- A disk whose only file has these bytes. -/
def singleFileDisk (bytes : Bytes) : Disk Path Path where
  locate := id
  medium _ := some smallMedium
  files path := if path = ⟨"day.ath"⟩ then some (File.ofBytes bytes) else none

/-- The record of an observation, in front of other bytes. -/
def loneRecord : Bytes :=
  recordWire 1000 (packetFrame { payload := [1] })

theorem lone_record_frame : ∃ front rest, loneRecord =
    front ++ (packetFrame { payload := [1] } ++ rest) ∧
      decodePacket (packetFrame { payload := [1] }) = .ok { payload := [1] } :=
  ⟨_, _, List.append_assoc _ _ _, (readable_observation 0 0 (by decide)).decode.2⟩

theorem length_lone_record : loneRecord.length = 62 := by
  rw [loneRecord, length_record_wire, length_packet_frame]
  rfl

/-- An archive that lost its header is rebuilt. -/
theorem headless_archive_rebuilt :
    ∃ plan, planArchiveRepair (singleFileDisk loneRecord) ⟨"day.ath"⟩ = .ok plan ∧
      @Rebuilds Path _ plan ⟨"day.ath.repaired.ath"⟩ (scanBytes {} loneRecord).packets := by
  have hsource : (singleFileDisk loneRecord).read ⟨"day.ath"⟩ = some loneRecord :=
    congrArg some (File.bytes_ofBytes (by rw [length_lone_record]; decide))
  have hclosed : ∃ failure, ArchiveReader.ofFile (some loneRecord) = .error failure := by
    rcases hopen : ArchiveReader.ofFile (some loneRecord) with failure | reader
    · exact ⟨failure, rfl⟩
    · obtain ⟨-, -, hcontent⟩ := of_file_spec hopen
      have hmagic : ([0xE8] : Bytes) = [0x41] := congrArg (List.take 1) hcontent
      exact absurd hmagic (by decide)
  obtain ⟨failure, hclosed⟩ := hclosed
  have hunreadable : (auditArchiveIntegrity (some loneRecord) ⟨"day.ath"⟩).readable = false := by
    rw [auditArchiveIntegrity, hclosed]
    rfl
  obtain ⟨front, rest, hbytes, hdecode⟩ := lone_record_frame
  have hfound : (scanBytes {} loneRecord).packets ≠ [] := salvaged_of_frame hbytes hdecode
  have hmore : (recordsRead (some loneRecord)).length <
      (scanBytes {} loneRecord).packets.length := by
    rw [recordsRead, hclosed]
    exact List.length_pos_iff.mpr hfound
  have houtput : outputFor ⟨"day.ath"⟩ {} ".repaired.ath" = ⟨"day.ath.repaired.ath"⟩ := by decide
  obtain ⟨plan, hplan, hchosen⟩ := unreadable_archive_plan (by decide) hsource hunreadable hfound
  rw [if_pos hmore, houtput] at hchosen
  exact ⟨plan, hplan, hchosen⟩

/-- An archive with one record, and the first byte of another one behind it. -/
def tornArchive : Bytes :=
  archiveMagic ++ ({} : ArchiveSummary).wire ++ (loneRecord ++ [0])

theorem length_torn_archive : tornArchive.length = 99 := by
  rw [tornArchive, List.length_append, List.length_append, List.length_append,
    length_lone_record, length_summary_wire]
  rfl

/-- The record is read, and then the reader throws. -/
theorem torn_archive_read : (recordsRead (some tornArchive)).length = 1 ∧
    (auditArchiveIntegrity (some tornArchive) ⟨"day.ath"⟩).readable = false := by
  -- one byte is no record
  have hnone : NoRecord [0] := by
    intro captureTimeNs frame packet rest hwire
    have := congrArg List.length hwire
    rw [List.length_append, length_record_wire, List.length_singleton] at this
    omega
  have hframes : Frames (packetFrame { payload := [1] }) { payload := [1] } :=
    (readable_observation 0 0 (by decide)).decode
  let record : ArchiveRecord := ⟨36, 1000, { payload := [1] }⟩
  have hstands : Stands 36 (loneRecord ++ [0]) [record] [0] :=
    @Stands.cons 36 record _ _ _ _ hframes rfl (Stands.nil _ _)
  let reader : ArchiveReader := { input := { content := tornArchive, position := 36 } }
  have hopen : ArchiveReader.ofFile (some tornArchive) = .ok reader :=
    ArchiveReader.of_file_ok_iff.mpr ⟨⟨_, rfl⟩, rfl⟩
  obtain ⟨hgood, hposition, hunread⟩ := of_file_spec hopen
  have hbody : reader.input.unread = loneRecord ++ [0] := List.append_cancel_left hunread.symm
  obtain ⟨hrecords, hend⟩ :=
    ArchiveReader.drain_of_stands_no_record hstands hnone hgood hposition hbody
  constructor
  · rw [recordsRead, hopen]
    exact congrArg List.length hrecords
  · rw [Bool.eq_false_iff, ne_eq, audit_readable_iff]
    intro hread
    obtain ⟨_, _, hread⟩ := hread
    obtain ⟨other, hopen', hdrain, -⟩ := read_archive_reader_iff.mp hread
    obtain rfl := Except.ok.inj (hopen.symm.trans hopen')
    exact absurd (hend.mp (congrArg Prod.snd hdrain)) (List.cons_ne_nil _ _)

/-- The scan finds the record, and there is no room for another frame. -/
theorem torn_archive_scanned : (scanBytes {} tornArchive).packets ≠ [] ∧
    (scanBytes {} tornArchive).packets.length ≤ 1 := by
  constructor
  · obtain ⟨front, rest, hbytes, hdecode⟩ := lone_record_frame
    have hsplit : tornArchive = (archiveMagic ++ ({} : ArchiveSummary).wire ++ front) ++
        (packetFrame { payload := [1] } ++ (rest ++ [0])) := by
      rw [tornArchive, hbytes]
      simp only [List.append_assoc]
    exact salvaged_of_frame hsplit hdecode
  · obtain ⟨_, -, hscanned⟩ := scan_bytes_scanned {} tornArchive
    have hslices := hscanned.slices
    have hdisjoint := hscanned.disjoint
    generalize (scanBytes {} tornArchive).packets = items at hslices hdisjoint
    rcases items with _ | ⟨first, _ | ⟨second, more⟩⟩
    · exact Nat.zero_le 1
    · exact le_rfl
    · -- the first of two slices would begin in the header
      have hbehind := List.rel_of_pairwise_cons hdisjoint List.mem_cons_self
      have hfirst := hslices first List.mem_cons_self
      have hsecond := hslices second (List.mem_cons_of_mem _ List.mem_cons_self)
      have hfrom := hfirst.frameLen_ge
      have hto := hsecond.frameLen_ge
      have hfits := hsecond.1
      rw [length_torn_archive] at hfits
      have hheader : ∀ offset < 10, readU32Le tornArchive offset ≠ packetMagic := by decide
      exact absurd hfirst.magic (hheader first.fileOffset (by omega))

/-- The record of a torn archive is found by the scan, but it has been read as well, so the file
is put in quarantine. -/
theorem torn_archive_quarantined :
    (auditArchiveIntegrity (some tornArchive) ⟨"day.ath"⟩).readable = false ∧
      (scanBytes {} tornArchive).packets ≠ [] ∧
      ∃ plan, planArchiveRepair (singleFileDisk tornArchive) ⟨"day.ath"⟩ = .ok plan ∧
        plan.actions.map RepairAction.kind = [.quarantineFile] := by
  have hsource : (singleFileDisk tornArchive).read ⟨"day.ath"⟩ = some tornArchive :=
    congrArg some (File.bytes_ofBytes (by rw [length_torn_archive]; decide))
  obtain ⟨hread, hunreadable⟩ := torn_archive_read
  obtain ⟨hfound, honce⟩ := torn_archive_scanned
  obtain ⟨plan, hplan, -, -, hactions⟩ :=
    plan_of_unreadable hsource hunreadable (by rw [length_torn_archive]; decide)
  refine ⟨hunreadable, hfound, plan, hplan, ?_⟩
  rw [hactions, hread, if_neg (Nat.not_lt.mpr honce)]
  rfl

end Aethon.Storage
