import Mathlib.Data.List.Chain
import Mathlib.Data.List.Flatten
import Aethon.Foundation.Words
import Aethon.Storage.Manifest

/-!
# What a manifest says

The loop of `build_archive_manifest` keeps the summary that a writer of the same records would keep,
and one summary for each device and packet kind. `manifest_exact` says that these are exact, and
`manifest_warnings_iff` when the manifest carries no warning.
-/

namespace Aethon.Storage

open Codec Protocol Grouping

/-! ## Capture times in order -/

/-- Times that never go back. -/
def InOrder (times : List UInt64) : Prop :=
  times.Pairwise (· ≤ ·)

instance (times : List UInt64) : Decidable (InOrder times) :=
  inferInstanceAs (Decidable (times.Pairwise (· ≤ ·)))

/-- One more time is in order when it is not before the last one. -/
theorem in_order_concat {times : List UInt64} {time : UInt64} :
    InOrder (times ++ [time]) ↔ InOrder times ∧ ∀ last ∈ times.getLast?, last ≤ time := by
  unfold InOrder
  rw [← List.isChain_iff_pairwise, List.isChain_append, List.isChain_iff_pairwise]
  simp

/-! ## The bytes of records bound the sums -/

/-- The payloads take no more room than the records. -/
theorem payloads_le_records_wire (entries : List (UInt64 × Packet)) :
    (entries.map fun entry => entry.2.payload.length).sum ≤ (recordsWire entries).length := by
  induction entries with
  | nil => exact Nat.le_refl 0
  | cons entry entries ih =>
      rw [recordsWire_cons, List.length_append, length_record_wire, length_packet_frame,
        List.map_cons, List.sum_cons]
      omega

/-! ## Devices -/

/-- What a device summary says of its records, as the header of an archive would. -/
def DeviceArchiveSummary.span (summary : DeviceArchiveSummary) : ArchiveSummary where
  recordCount := summary.recordCount
  firstTimeNs := summary.firstTimeNs
  lastTimeNs := summary.lastTimeNs

/-- A device summary is updated as the writer updates its header. -/
theorem span_update_device (summary : DeviceArchiveSummary) (record : ArchiveRecord) :
    (updateDevice summary record).span =
      ArchiveWriter.record summary.span record.captureTimeNs := by
  unfold updateDevice ArchiveWriter.record
  by_cases h : summary.recordCount = 0
  · simp [h, DeviceArchiveSummary.span]
  · simp [h, DeviceArchiveSummary.span]

theorem payload_update_device (summary : DeviceArchiveSummary) (record : ArchiveRecord) :
    (updateDevice summary record).totalPayloadBytes =
      summary.totalPayloadBytes + record.payloadSize := by
  unfold updateDevice
  split <;> rfl

/-- The records of a device are summarised as entries are. -/
theorem update_devices (summary : DeviceArchiveSummary) (records : List ArchiveRecord) :
    (records.foldl updateDevice summary).span =
        summarize summary.span (records.map ArchiveRecord.entry) ∧
      (records.foldl updateDevice summary).totalPayloadBytes = summary.totalPayloadBytes +
        UInt64.ofNat (records.map fun record => record.packet.payload.length).sum := by
  induction records generalizing summary with
  | nil => simp [summarize]
  | cons record records ih =>
      obtain ⟨hspan, hpayload⟩ := ih (updateDevice summary record)
      refine ⟨?_, ?_⟩
      · rw [List.foldl_cons, hspan, span_update_device]
        rfl
      · rw [List.foldl_cons, hpayload, payload_update_device, List.map_cons, List.sum_cons,
          UInt64.ofNat_add, UInt64.add_assoc]
        rfl

/-- The entries of one device. -/
def entriesOf (device : DeviceId) (entries : List (UInt64 × Packet)) : List (UInt64 × Packet) :=
  entries.filter fun entry => entry.2.device = device

/-- The entries of a device are those of its records. -/
theorem entriesOf_map (device : DeviceId) (records : List ArchiveRecord) :
    entriesOf device (records.map ArchiveRecord.entry) =
      (records.filter fun record => record.packet.device = device).map ArchiveRecord.entry := by
  rw [entriesOf, List.filter_map]
  rfl

/-- The summary of a device describes its entries: their number, the bytes of their payloads, and
the least and greatest capture time. -/
structure DeviceArchiveSummary.Exact (summary : DeviceArchiveSummary)
    (entries : List (UInt64 × Packet)) : Prop where
  count : summary.recordCount.toNat = (entriesOf summary.device entries).length
  payload : summary.totalPayloadBytes.toNat =
    ((entriesOf summary.device entries).map fun entry => entry.2.payload.length).sum
  first : ((entriesOf summary.device entries).map Prod.fst).min? = some summary.firstTimeNs
  last : ((entriesOf summary.device entries).map Prod.fst).max? = some summary.lastTimeNs

/-- The counts of a device are exact. -/
theorem device_exact {records : List ArchiveRecord} {device : DeviceId}
    (hdevice : device ∈ records.map fun record => record.packet.device)
    (hsize : (recordsWire (records.map ArchiveRecord.entry)).length < 2 ^ 64) :
    (byDevice.groupOf records device).Exact (records.map ArchiveRecord.entry) := by
  let own := records.filter fun record => record.packet.device = device
  have hown : entriesOf device (records.map ArchiveRecord.entry) =
      own.map ArchiveRecord.entry := entriesOf_map device records
  have hkey : (byDevice.groupOf records device).device = device :=
    byDevice.groupKey_groupOf records device
  obtain ⟨hspan, hpayload⟩ := update_devices { device } own
  -- the own records take no more bytes than all of them
  have hbytes : (recordsWire (own.map ArchiveRecord.entry)).length < 2 ^ 64 := by
    rw [← hown]
    exact (List.filter_sublist.flatMap _).length_le.trans_lt hsize
  have hdescribes : Describes (byDevice.groupOf records device).span
      (own.map ArchiveRecord.entry) := by
    show Describes (own.foldl updateDevice { device }).span _
    rw [hspan]
    exact summarize_describes ((length_le_records_wire _).trans_lt hbytes)
  obtain ⟨hcount, hfirst, hlast⟩ := hdescribes
  have hnonempty : (own.map ArchiveRecord.entry).map Prod.fst ≠ [] := by
    obtain ⟨record, hrecord, rfl⟩ := List.mem_map.mp hdevice
    have hmem : record ∈ own := List.mem_filter.mpr ⟨hrecord, by simp⟩
    simpa using List.ne_nil_of_mem hmem
  have hsum := payloads_le_records_wire (own.map ArchiveRecord.entry)
  rw [List.map_map] at hsum
  constructor
  · rw [hkey, hown]
    exact hcount
  · rw [hkey, hown, List.map_map]
    show (own.foldl updateDevice { device }).totalPayloadBytes.toNat = _
    rw [hpayload, UInt64.zero_add]
    exact UInt64.toNat_ofNat_of_lt' (hsum.trans_lt hbytes)
  · rw [hkey, hown]
    obtain ⟨least, hleast⟩ := Option.isSome_iff_exists.mp (List.isSome_min?_of_ne_nil hnonempty)
    rw [hleast] at hfirst ⊢
    exact congrArg some hfirst.symm
  · rw [hkey, hown]
    obtain ⟨greatest, hgreatest⟩ :=
      Option.isSome_iff_exists.mp (List.isSome_max?_of_ne_nil hnonempty)
    rw [hgreatest] at hlast ⊢
    exact congrArg some hlast.symm

/-! ## The loop -/

namespace ManifestScan

/-- The summary that the loop keeps, with a format version. -/
def observed (scan : ManifestScan) (formatVersion : UInt32) : ArchiveSummary where
  formatVersion
  recordCount := scan.observedCount
  firstTimeNs := scan.firstObserved
  lastTimeNs := scan.lastObserved

/-- What the loop knows behind records. -/
structure Saw (formatVersion : UInt32) (records : List ArchiveRecord) (scan : ManifestScan) :
    Prop where
  observed : scan.observed formatVersion =
    summarize { formatVersion } (records.map ArchiveRecord.entry)
  previous : ∀ last ∈ (records.map ArchiveRecord.captureTimeNs).getLast?,
    scan.previousTime = last
  devices : scan.manifest.devices = byDevice.collect records
  packetKinds : scan.manifest.packetKinds = byKind.collect records
  ordered : scan.manifest.warnings = [] ↔ InOrder (records.map ArchiveRecord.captureTimeNs)

end ManifestScan

/-- The format version of a summary counts for nothing. -/
theorem summarize_format_version (formatVersion : UInt32) (summary : ArchiveSummary)
    (entries : List (UInt64 × Packet)) :
    summarize { summary with formatVersion } entries =
      { summarize summary entries with formatVersion } := by
  induction entries generalizing summary with
  | nil => rfl
  | cons entry entries ih =>
      have hrecord : ArchiveWriter.record { summary with formatVersion } entry.1 =
          { ArchiveWriter.record summary entry.1 with formatVersion } := by
        unfold ArchiveWriter.record
        by_cases h : summary.recordCount = 0
        · simp only [if_pos h]
        · simp only [if_neg h]
      show summarize (ArchiveWriter.record { summary with formatVersion } entry.1) entries = _
      rw [hrecord, ih]
      rfl

/-- A warning is given exactly when its condition holds. -/
theorem warn_if_eq_nil_iff {c : Prop} [Decidable c] {message : String} :
    warnIf c message = [] ↔ ¬ c := by
  unfold warnIf
  by_cases h : c
  · simp [h]
  · simp [h]

/-- The summary that the loop keeps describes the records. -/
theorem ManifestScan.Saw.describes {formatVersion : UInt32} {records : List ArchiveRecord}
    {scan : ManifestScan} (h : scan.Saw formatVersion records)
    (hcount : records.length < 2 ^ 64) :
    Describes (scan.observed formatVersion) (records.map ArchiveRecord.entry) := by
  have hversion : ({ formatVersion } : ArchiveSummary) = { ({} : ArchiveSummary) with
      formatVersion } := rfl
  rw [h.observed, hversion, summarize_format_version]
  exact summarize_describes (by simpa using hcount)

/-- The body of the loop keeps up with one more record. -/
theorem ManifestScan.Saw.concat {formatVersion : UInt32} {records : List ArchiveRecord}
    {scan : ManifestScan} (h : scan.Saw formatVersion records) (record : ArchiveRecord)
    (hcount : records.length < 2 ^ 64) :
    (scan.observe record).Saw formatVersion (records ++ [record]) := by
  have hobserved : scan.observedCount.toNat = records.length :=
    (h.describes hcount).1.trans (List.length_map _)
  constructor
  · have hstep : (scan.observe record).observed formatVersion =
        ArchiveWriter.record (scan.observed formatVersion) record.captureTimeNs := by
      unfold ManifestScan.observe ArchiveWriter.record ManifestScan.observed
      by_cases hfirst : scan.observedCount = 0
      · simp [hfirst]
      · simp [hfirst]
    rw [hstep, h.observed, List.map_append, summarize, summarize, List.foldl_append]
    rfl
  · rw [List.map_append, List.map_singleton, List.getLast?_concat]
    intro last hlast
    exact Option.some.inj hlast
  · rw [byDevice.collect_concat, ← h.devices]
    rfl
  · rw [byKind.collect_concat, ← h.packetKinds]
    rfl
  · show scan.manifest.warnings ++ warnIf _ _ = [] ↔ _
    rw [List.append_eq_nil_iff, h.ordered, warn_if_eq_nil_iff, List.map_append,
      List.map_singleton, in_order_concat]
    refine and_congr_right fun _ => ?_
    rcases records.eq_nil_or_concat' with rfl | ⟨before, last, rfl⟩
    · -- nothing is before the first record
      have hzero : scan.observedCount = 0 := UInt64.toNat.inj hobserved
      simp [hzero]
    · have hprevious : scan.previousTime = last.captureTimeNs := h.previous _ (by simp)
      have hnonzero : scan.observedCount ≠ 0 := by
        intro hzero
        rw [hzero, List.length_append] at hobserved
        exact Nat.succ_ne_zero _ hobserved.symm
      simp [hprevious, hnonzero]

/-- A scan has seen every record. -/
theorem manifest_scan_saw (formatVersion : UInt32) {records : List ArchiveRecord}
    (hcount : records.length ≤ 2 ^ 64) :
    (records.foldl ManifestScan.observe { manifest := { summary := { formatVersion } } }).Saw
      formatVersion records := by
  induction records using List.reverseRecOn with
  | nil => exact ⟨rfl, by simp, rfl, rfl, iff_of_true rfl List.Pairwise.nil⟩
  | append_singleton records record ih =>
      rw [List.length_append, List.length_singleton] at hcount
      rw [List.foldl_append]
      exact (ih (by omega)).concat record (by omega)

/-! ## Exact manifests -/

/-- The entries of one kind. -/
def kindEntries (kind : PacketKind) (entries : List (UInt64 × Packet)) :
    List (UInt64 × Packet) :=
  entries.filter fun entry => entry.2.kind = kind

/-- A manifest describes entries: its summary is theirs, and it has one exact summary for each of
their devices and kinds, so that the counts add up to their number. -/
structure ArchiveManifest.Exact (manifest : ArchiveManifest) (entries : List (UInt64 × Packet)) :
    Prop where
  summary : Describes manifest.summary entries
  devicesNodup : (manifest.devices.map DeviceArchiveSummary.device).Nodup
  devices : ∀ device, device ∈ manifest.devices.map DeviceArchiveSummary.device ↔
    device ∈ entries.map fun entry => entry.2.device
  device : ∀ summary ∈ manifest.devices, summary.Exact entries
  deviceTotal : (manifest.devices.map fun device => device.recordCount.toNat).sum = entries.length
  kindsNodup : (manifest.packetKinds.map PacketKindCount.kind).Nodup
  kinds : ∀ kind, kind ∈ manifest.packetKinds.map PacketKindCount.kind ↔
    kind ∈ entries.map fun entry => entry.2.kind
  kind : ∀ count ∈ manifest.packetKinds,
    count.count.toNat = (kindEntries count.kind entries).length
  kindTotal : (manifest.packetKinds.map fun count => count.count.toNat).sum = entries.length

/-- Counts of the items of each key add up to the number of items. -/
theorem sum_counts {γ κ : Type} [DecidableEq κ] (s : Summary ArchiveRecord γ κ)
    {records : List ArchiveRecord} {groups : List γ} (h : s.Collected records groups)
    {count : γ → Nat}
    (hcount : ∀ group ∈ groups,
      count group = (records.filter fun record => s.key record = s.groupKey group).length) :
    (groups.map count).sum = records.length := by
  have hsum := s.sum_by_key h.nodup (fun _ => 1) fun record hrecord =>
    (h.keys _).mpr (List.mem_map_of_mem hrecord)
  rw [List.map_map] at hsum
  rw [List.map_congr_left hcount]
  simpa [Function.comp_def] using hsum

/-- A kind counts its records. -/
theorem count_kinds (count : PacketKindCount) (records : List ArchiveRecord) :
    (records.foldl byKind.update count).count = count.count + UInt64.ofNat records.length := by
  induction records generalizing count with
  | nil => simp
  | cons record records ih =>
      rw [List.foldl_cons, ih, List.length_cons, UInt64.ofNat_add, UInt64.add_comm
        (UInt64.ofNat _) (UInt64.ofNat 1), ← UInt64.add_assoc]
      rfl

/-- The count of a kind is exact. -/
theorem kind_exact {records : List ArchiveRecord} (kind : PacketKind)
    (hcount : records.length < 2 ^ 64) :
    (byKind.groupOf records kind).count.toNat =
      (records.filter fun record => record.packet.kind = kind).length := by
  show ((records.filter fun record => record.packet.kind = kind).foldl byKind.update
    { kind }).count.toNat = _
  rw [count_kinds, UInt64.zero_add]
  exact UInt64.toNat_ofNat_of_lt' ((List.length_filter_le _ _).trans_lt hcount)

/-- The manifest of records describes them. -/
theorem manifest_exact {header : ArchiveSummary} {records : List ArchiveRecord}
    (hsize : (recordsWire (records.map ArchiveRecord.entry)).length < 2 ^ 64) :
    (manifestOf header records).Exact (records.map ArchiveRecord.entry) := by
  have hcount : records.length < 2 ^ 64 := by
    have := length_le_records_wire (records.map ArchiveRecord.entry)
    rw [List.length_map] at this
    omega
  have hsaw := manifest_scan_saw header.formatVersion hcount.le
  have hdevices := byDevice.collected records
  have hkinds := byKind.collected records
  -- sorting keeps the summaries
  have hdevicePerm : (manifestOf header records).devices.Perm (byDevice.collect records) := by
    rw [← hsaw.devices]
    exact List.mergeSort_perm _ _
  have hkindPerm : (manifestOf header records).packetKinds.Perm (byKind.collect records) := by
    rw [← hsaw.packetKinds]
    exact List.mergeSort_perm _ _
  have hdevice : ∀ summary ∈ byDevice.collect records,
      summary.Exact (records.map ArchiveRecord.entry) := by
    intro summary hsummary
    rw [hdevices.exact summary hsummary]
    exact device_exact ((hdevices.keys _).mp (List.mem_map_of_mem hsummary)) hsize
  have hkind : ∀ count ∈ byKind.collect records, count.count.toNat =
      (records.filter fun record => record.packet.kind = count.kind).length := by
    intro count hmem
    have hexact : count = byKind.groupOf records count.kind := hkinds.exact count hmem
    exact (congrArg (fun count => count.count.toNat) hexact).trans (kind_exact _ hcount)
  constructor
  · exact hsaw.describes hcount
  · exact (hdevicePerm.map _).nodup_iff.mpr hdevices.nodup
  · intro device
    rw [(hdevicePerm.map _).mem_iff, List.map_map]
    exact hdevices.keys device
  · exact fun summary hsummary => hdevice summary (hdevicePerm.mem_iff.mp hsummary)
  · rw [(hdevicePerm.map _).sum_eq, List.length_map]
    refine sum_counts byDevice hdevices fun summary hsummary => ?_
    rw [(hdevice summary hsummary).count, entriesOf, List.filter_map, List.length_map]
    rfl
  · exact (hkindPerm.map _).nodup_iff.mpr hkinds.nodup
  · intro kind
    rw [(hkindPerm.map _).mem_iff, List.map_map]
    exact hkinds.keys kind
  · intro count hmem
    rw [hkind count (hkindPerm.mem_iff.mp hmem), kindEntries, List.filter_map, List.length_map]
    rfl
  · rw [(hkindPerm.map _).sum_eq, List.length_map]
    exact sum_counts byKind hkinds hkind

/-! ## Consistency -/

/-- A summary of a device counts records, and its times are in order. -/
theorem DeviceArchiveSummary.Exact.consistent {summary : DeviceArchiveSummary}
    {entries : List (UInt64 × Packet)} (h : summary.Exact entries) :
    summary.recordCount ≠ 0 ∧ summary.firstTimeNs ≤ summary.lastTimeNs := by
  have hfirst := List.min?_mem h.first
  refine ⟨?_, (List.max?_le_iff h.last).mp (UInt64.le_refl _) _ hfirst⟩
  intro hzero
  have hnone := h.count
  rw [hzero] at hnone
  rw [List.length_eq_zero_iff.mp hnone.symm] at hfirst
  cases hfirst

/-- Without records there are no aggregates. -/
theorem ArchiveManifest.Exact.no_aggregates {manifest : ArchiveManifest}
    {entries : List (UInt64 × Packet)} (h : manifest.Exact entries)
    (hzero : manifest.summary.recordCount = 0) :
    manifest.devices = [] ∧ manifest.packetKinds = [] := by
  have hnone : entries = [] := by
    rw [← List.length_eq_zero_iff, ← h.summary.1, hzero]
    rfl
  have hdeviceKeys := h.devices
  have hkindKeys := h.kinds
  simp only [hnone, List.map_nil, List.not_mem_nil, iff_false] at hdeviceKeys hkindKeys
  exact ⟨List.map_eq_nil_iff.mp (List.eq_nil_iff_forall_not_mem.mpr hdeviceKeys),
    List.map_eq_nil_iff.mp (List.eq_nil_iff_forall_not_mem.mpr hkindKeys)⟩

/-- A manifest that describes entries is consistent. -/
theorem validate_of_exact {manifest : ArchiveManifest} {entries : List (UInt64 × Packet)}
    (h : manifest.Exact entries) (hcount : entries.length < 2 ^ 64) :
    validateArchiveManifest manifest = [] := by
  have hdevices : (sumDeviceRecords manifest.devices).toNat = entries.length := by
    have hsum := h.deviceTotal
    rw [show (fun device : DeviceArchiveSummary => device.recordCount.toNat) =
      UInt64.toNat ∘ DeviceArchiveSummary.recordCount from rfl, ← List.map_map] at hsum
    rw [sumDeviceRecords, Words.toNat_sum (by rwa [hsum]), hsum]
  have hkinds : (sumKindRecords manifest.packetKinds).toNat = entries.length := by
    have hsum := h.kindTotal
    rw [show (fun count : PacketKindCount => count.count.toNat) =
      UInt64.toNat ∘ PacketKindCount.count from rfl, ← List.map_map] at hsum
    rw [sumKindRecords, Words.toNat_sum (by rwa [hsum]), hsum]
  have hsummary : manifest.summary.recordCount = sumDeviceRecords manifest.devices :=
    UInt64.toNat.inj (h.summary.1.trans hdevices.symm)
  have hagree : sumDeviceRecords manifest.devices = sumKindRecords manifest.packetKinds :=
    UInt64.toNat.inj (hdevices.trans hkinds.symm)
  simp only [validateArchiveManifest, List.append_eq_nil_iff, warn_if_eq_nil_iff,
    List.flatMap_eq_nil_iff]
  refine ⟨⟨⟨?_, ?_⟩, ?_⟩, ?_⟩
  · exact not_not.mpr hagree
  · exact fun hdiffers => hdiffers.2 hsummary.symm
  · intro hzero
    obtain ⟨hnoDevices, hnoKinds⟩ := h.no_aggregates hzero.1
    exact hzero.2.elim (fun hne => hne hnoDevices) fun hne => hne hnoKinds
  · intro summary hmem
    obtain ⟨hnonzero, hrange⟩ := (h.device summary hmem).consistent
    exact ⟨hnonzero, UInt64.not_lt.mpr hrange⟩

/-- A header says what a summary of the records says. -/
def HeaderMatches (header : ArchiveSummary) (observed : ArchiveSummary) : Prop :=
  header.recordCount = observed.recordCount ∧
    (observed.recordCount ≠ 0 →
      header.firstTimeNs = observed.firstTimeNs ∧ header.lastTimeNs = observed.lastTimeNs)

/-- A manifest carries no warning exactly when its records are in order and its header matches. -/
theorem manifest_warnings_iff {header : ArchiveSummary} {records : List ArchiveRecord}
    (hsize : (recordsWire (records.map ArchiveRecord.entry)).length < 2 ^ 64) :
    (manifestOf header records).warnings = [] ↔
      InOrder (records.map ArchiveRecord.captureTimeNs) ∧
        HeaderMatches header (manifestOf header records).summary := by
  have hcount := (length_le_records_wire (records.map ArchiveRecord.entry)).trans_lt hsize
  have hvalid := validate_of_exact (@manifest_exact header records hsize) hcount
  rw [List.length_map] at hcount
  have hsaw := manifest_scan_saw header.formatVersion hcount.le
  let scan := records.foldl ManifestScan.observe
    { manifest := { summary := { formatVersion := header.formatVersion } } }
  show (scan.manifest.warnings ++ warnIf (scan.observedCount ≠ header.recordCount) _ ++
    warnIf (scan.observedCount ≠ 0 ∧ header.firstTimeNs ≠ scan.firstObserved) _ ++
    warnIf (scan.observedCount ≠ 0 ∧ header.lastTimeNs ≠ scan.lastObserved) _) ++
    validateArchiveManifest (manifestOf header records) = [] ↔ _
  have hordered : scan.manifest.warnings = [] ↔ _ := hsaw.ordered
  simp only [hvalid, List.append_nil, List.append_eq_nil_iff, warn_if_eq_nil_iff, hordered]
  show _ ↔ _ ∧ header.recordCount = scan.observedCount ∧ (scan.observedCount ≠ 0 →
    header.firstTimeNs = scan.firstObserved ∧ header.lastTimeNs = scan.lastObserved)
  grind

end Aethon.Storage
