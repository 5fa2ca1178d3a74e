import Aethon.Storage.ManifestDiff

/-!
# What a difference of manifests says

Between manifests that list each device and each kind once, a difference is empty exactly when
nothing changed, and the other way it says the opposite: `manifest_diff_spec`.
-/

namespace Aethon.Storage

open Protocol Text

/-! ## Numbers and texts -/

theorem signed_of_lt {n : UInt64} (h : n.toNat < 2 ^ 63) : signed n = n.toNat :=
  BitVec.toInt_eq_toNat_of_lt (by show 2 * n.toNat < 2 ^ 64; omega)

/-- Texts that begin with a word and a number tell the number and what follows it. -/
theorem number_field_inj {word : Text} {m n : ℕ} {left right : List Text}
    (h : (word :: decimal m :: left).flatten = (word :: decimal n :: right).flatten)
    (hleft : Scanning.Stops Char.isDigit left.flatten)
    (hright : Scanning.Stops Char.isDigit right.flatten) :
    m = n ∧ left.flatten = right.flatten := by
  rw [List.flatten_cons, List.flatten_cons, List.flatten_cons, List.flatten_cons] at h
  exact decimal_append_inj hleft hright (List.append_cancel_left h)

/-- The rendered text of a device tells all of its fields. -/
theorem device_string_injective {left right : DeviceArchiveSummary}
    (h : deviceString left = deviceString right) : left = right := by
  have hstops (word : Text) (hword : word.head?.any (fun ch => !ch.isDigit) = true)
      (rest : List Text) : Scanning.Stops Char.isDigit (word :: rest).flatten :=
    Scanning.stops_append hword rest.flatten
  have hrecords := hstops " records=".toList (by decide)
  have hfirst := hstops " first=".toList (by decide)
  have hlast := hstops " last=".toList (by decide)
  have hpayload := hstops " payload_bytes=".toList (by decide)
  obtain ⟨device, h⟩ := number_field_inj h (hrecords _) (hrecords _)
  obtain ⟨records, h⟩ := number_field_inj h (hfirst _) (hfirst _)
  obtain ⟨first, h⟩ := number_field_inj h (hlast _) (hlast _)
  obtain ⟨last, h⟩ := number_field_inj h (hpayload _) (hpayload _)
  obtain ⟨payload, -⟩ := number_field_inj h Scanning.stops_nil Scanning.stops_nil
  rw [UInt64.toNat_inj] at device records first last payload
  cases left
  cases right
  simp_all

/-! ## Opposites -/

/-- What was added was removed the other way. -/
def ManifestDiffKind.swap : ManifestDiffKind → ManifestDiffKind
  | .deviceAdded => .deviceRemoved
  | .deviceRemoved => .deviceAdded
  | .kindAdded => .kindRemoved
  | .kindRemoved => .kindAdded
  | .warningAdded => .warningRemoved
  | .warningRemoved => .warningAdded
  | kind => kind

/-- The entry for the same change the other way. -/
def ManifestDiffEntry.swap (entry : ManifestDiffEntry) : ManifestDiffEntry where
  kind := entry.kind.swap
  key := entry.key
  before := entry.after
  after := entry.before
  recordDelta := -entry.recordDelta
  payloadDelta := -entry.payloadDelta

variable {before after : ArchiveManifest}

/-- The difference of the summaries the other way round. -/
theorem diff_summary_swap (before after : ArchiveManifest) :
    diffSummary after before = (diffSummary before after).map ManifestDiffEntry.swap := by
  unfold diffSummary
  split_ifs with hback hforth hforth
  · rfl
  · exact absurd ⟨hback.1.symm, hback.2.1.symm, hback.2.2.1.symm, hback.2.2.2.symm⟩ hforth
  · exact absurd ⟨hforth.1.symm, hforth.2.1.symm, hforth.2.2.1.symm, hforth.2.2.2.symm⟩ hback
  · simp [ManifestDiffEntry.swap, ManifestDiffKind.swap]

/-- The differences of the devices the other way round. -/
theorem diff_devices_swap (before after : ArchiveManifest) :
    diffDevices after before = (diffDevices before after).map ManifestDiffEntry.swap := by
  refine SortedTable.diff_swap (fun device summary => ?_) (fun device summary => rfl)
    fun device summary summary' => ?_
  · simp [deviceAdded, deviceRemoved, ManifestDiffEntry.swap, ManifestDiffKind.swap]
  · unfold deviceChanged
    by_cases h : deviceString summary = deviceString summary'
    · simp [h]
    · simp [h, Ne.symm h, ManifestDiffEntry.swap, ManifestDiffKind.swap]

/-- The differences of the kinds the other way round. -/
theorem diff_kinds_swap (before after : ArchiveManifest) :
    diffKinds after before = (diffKinds before after).map ManifestDiffEntry.swap := by
  refine SortedTable.diff_swap (fun kind count => ?_) (fun kind count => rfl)
    fun kind count count' => ?_
  · simp [kindAdded, kindRemoved, ManifestDiffEntry.swap, ManifestDiffKind.swap]
  · unfold kindChanged
    by_cases h : count.count = count'.count
    · simp [h]
    · simp [h, Ne.symm h, ManifestDiffEntry.swap, ManifestDiffKind.swap]

/-- The warnings that were removed come first, so the order is the other one. -/
theorem diff_warnings_swap (before after : ArchiveManifest) :
    (diffWarnings after before).Perm
      ((diffWarnings before after).map ManifestDiffEntry.swap) := by
  unfold diffWarnings
  rw [List.map_append, List.map_map, List.map_map]
  exact List.perm_append_comm

/-! ## Manifests that can be compared -/

/-- A manifest that lists each device and each kind once, with numbers that fit a signed one. -/
structure ArchiveManifest.Comparable (manifest : ArchiveManifest) : Prop where
  devices : (manifest.devices.map DeviceArchiveSummary.device).Nodup
  kinds : (manifest.packetKinds.map PacketKindCount.kind).Nodup
  records : manifest.summary.recordCount.toNat < 2 ^ 63
  payload : (manifestPayloadBytes manifest).toNat < 2 ^ 63
  device : ∀ summary ∈ manifest.devices,
    summary.recordCount.toNat < 2 ^ 63 ∧ summary.totalPayloadBytes.toNat < 2 ^ 63
  kind : ∀ count ∈ manifest.packetKinds, count.count.toNat < 2 ^ 63

/-- The deltas of an entry fit a signed number of 64 bits. -/
def ManifestDiffEntry.Fits (entry : ManifestDiffEntry) : Prop :=
  |entry.recordDelta| < 2 ^ 63 ∧ |entry.payloadDelta| < 2 ^ 63

/-- No kind is counted twice. -/
theorem raw_nodup {manifest : ArchiveManifest} (h : manifest.Comparable) :
    (manifest.packetKinds.map fun count => count.kind.raw).Nodup := by
  have hmap := h.kinds.map (f := PacketKind.raw) fun left right hsame => by
    cases left
    cases right
    exact congrArg PacketKind.mk hsame
  rwa [List.map_map] at hmap

theorem delta_fits {m n : UInt64} (hm : m.toNat < 2 ^ 63) (hn : n.toNat < 2 ^ 63) :
    |signed m - signed n| < 2 ^ 63 := by
  rw [signed_of_lt hm, signed_of_lt hn, abs_lt]
  omega

/-- The deltas of the summaries fit. -/
theorem diff_summary_fits (hbefore : before.Comparable) (hafter : after.Comparable) :
    ∀ entry ∈ diffSummary before after, entry.Fits := by
  unfold diffSummary
  split
  · exact fun _ hnone => absurd hnone List.not_mem_nil
  · exact List.forall_mem_singleton.mpr
      ⟨delta_fits hafter.records hbefore.records, delta_fits hafter.payload hbefore.payload⟩

theorem device_of_lookup {manifest : ArchiveManifest} (h : manifest.Comparable) {device : DeviceId}
    {summary : DeviceArchiveSummary} (hfound : (mapDevices manifest).lookup device = some summary) :
    summary.recordCount.toNat < 2 ^ 63 ∧ summary.totalPayloadBytes.toNat < 2 ^ 63 :=
  h.device summary ((SortedTable.lookup_ofValues h.devices).mp hfound).1

theorem kind_of_lookup {manifest : ArchiveManifest} (h : manifest.Comparable) {kind : UInt8}
    {count : PacketKindCount} (hfound : (mapKinds manifest).lookup kind = some count) :
    count.count.toNat < 2 ^ 63 ∧ count.kind.raw = kind := by
  obtain ⟨hcount, hkind⟩ := (SortedTable.lookup_ofValues (raw_nodup h)).mp hfound
  exact ⟨h.kind count hcount, hkind⟩

theorem signed_fits {n : UInt64} (h : n.toNat < 2 ^ 63) : |signed n| < 2 ^ 63 := by
  rw [signed_of_lt h, abs_lt]
  omega

/-- The deltas of the devices fit. -/
theorem diff_devices_fits (hbefore : before.Comparable) (hafter : after.Comparable) :
    ∀ entry ∈ diffDevices before after, entry.Fits := by
  refine SortedTable.forall_mem_diff (fun device summary hfound => ?_)
    (fun device summary hfound => ?_) fun device summary summary' hfound hfound' entry hentry => ?_
  · obtain ⟨hrecords, hpayload⟩ := device_of_lookup hafter hfound
    exact ⟨signed_fits hrecords, signed_fits hpayload⟩
  · obtain ⟨hrecords, hpayload⟩ := device_of_lookup hbefore hfound
    exact ⟨(abs_neg _).trans_lt (signed_fits hrecords), (abs_neg _).trans_lt (signed_fits hpayload)⟩
  · obtain ⟨hrecords, hpayload⟩ := device_of_lookup hbefore hfound
    obtain ⟨hrecords', hpayload'⟩ := device_of_lookup hafter hfound'
    unfold deviceChanged at hentry
    split at hentry
    · rw [← Option.some.inj hentry]
      exact ⟨delta_fits hrecords' hrecords, delta_fits hpayload' hpayload⟩
    · cases hentry

/-- The deltas of the kinds fit. -/
theorem diff_kinds_fits (hbefore : before.Comparable) (hafter : after.Comparable) :
    ∀ entry ∈ diffKinds before after, entry.Fits := by
  have hzero : |(0 : ℤ)| < 2 ^ 63 := by decide
  refine SortedTable.forall_mem_diff (fun kind count hfound => ?_)
    (fun kind count hfound => ?_) fun kind count count' hfound hfound' entry hentry => ?_
  · exact ⟨signed_fits (kind_of_lookup hafter hfound).1, hzero⟩
  · exact ⟨(abs_neg _).trans_lt (signed_fits (kind_of_lookup hbefore hfound).1), hzero⟩
  · unfold kindChanged at hentry
    split at hentry
    · rw [← Option.some.inj hentry]
      exact ⟨delta_fits (kind_of_lookup hafter hfound').1 (kind_of_lookup hbefore hfound).1, hzero⟩
    · cases hentry

theorem diff_warnings_fits : ∀ entry ∈ diffWarnings before after, entry.Fits := by
  have hzero : |(0 : ℤ)| < 2 ^ 63 := by decide
  unfold diffWarnings
  rw [List.forall_mem_append, List.forall_mem_map, List.forall_mem_map]
  exact ⟨fun _ _ => ⟨hzero, hzero⟩, fun _ _ => ⟨hzero, hzero⟩⟩

/-! ## Nothing changed -/

/-- There is no difference exactly when the summaries are equal. -/
theorem diff_summary_eq_nil_iff :
    diffSummary before after = [] ↔ before.summary = after.summary := by
  unfold diffSummary
  split_ifs with h
  · refine iff_of_true rfl ?_
    cases hbefore : before.summary
    cases hafter : after.summary
    rw [hbefore, hafter] at h
    simp_all
  · refine iff_of_false id fun hsame => h ?_
    rw [hsame]
    exact ⟨rfl, rfl, rfl, rfl⟩

/-- There is no difference exactly when the devices are the same. -/
theorem diff_devices_eq_nil_iff (hbefore : before.Comparable) (hafter : after.Comparable) :
    diffDevices before after = [] ↔
      ∀ summary, summary ∈ before.devices ↔ summary ∈ after.devices := by
  rw [diffDevices, SortedTable.diff_eq_nil_iff fun device summary summary' _ _ => ?_]
  · exact SortedTable.ofValues_eq_iff hbefore.devices hafter.devices
  · unfold deviceChanged
    split_ifs with h
    · exact iff_of_false id fun hsame => h (congrArg deviceString hsame)
    · exact iff_of_true rfl (device_string_injective (not_not.mp h))

/-- There is no difference exactly when the kinds are the same. -/
theorem diff_kinds_eq_nil_iff (hbefore : before.Comparable) (hafter : after.Comparable) :
    diffKinds before after = [] ↔
      ∀ count, count ∈ before.packetKinds ↔ count ∈ after.packetKinds := by
  rw [diffKinds, SortedTable.diff_eq_nil_iff fun kind count count' hfound hfound' => ?_]
  · exact SortedTable.ofValues_eq_iff (raw_nodup hbefore) (raw_nodup hafter)
  · -- counts under one key are of the same kind
    have hkind := (kind_of_lookup hbefore hfound).2.trans (kind_of_lookup hafter hfound').2.symm
    unfold kindChanged
    split_ifs with h
    · exact iff_of_false id fun hsame => h (congrArg _ hsame)
    · refine iff_of_true rfl ?_
      obtain ⟨⟨raw⟩, records⟩ := count
      obtain ⟨⟨raw'⟩, records'⟩ := count'
      simp_all

/-- There is no difference exactly when the warnings are the same. -/
theorem diff_warnings_eq_nil_iff :
    diffWarnings before after = [] ↔
      ∀ warning, warning ∈ before.warnings ↔ warning ∈ after.warnings := by
  have hmem (manifest : ArchiveManifest) (warning : String) :
      warning.toList ∈ (warningSet manifest).keys ↔ warning ∈ manifest.warnings := by
    rw [warningSet, SortedTable.mem_keys_setOf]
    exact List.mem_map_of_injective fun _ _ => String.toList_inj.mp
  have hall (manifest other : ArchiveManifest) :
      ((warningSet manifest).keys.filter (· ∉ (warningSet other).keys) = []) ↔
        ∀ warning ∈ manifest.warnings, warning ∈ other.warnings := by
    simp only [List.filter_eq_nil_iff, decide_eq_true_eq, not_not]
    constructor
    · exact fun h warning hwarning =>
        (hmem other warning).mp (h _ ((hmem manifest warning).mpr hwarning))
    · intro h text htext
      have hheld := htext
      rw [warningSet, SortedTable.mem_keys_setOf] at hheld
      obtain ⟨warning, hwarning, rfl⟩ := List.mem_map.mp hheld
      exact (hmem other warning).mpr (h warning hwarning)
  rw [diffWarnings, List.append_eq_nil_iff, List.map_eq_nil_iff, List.map_eq_nil_iff,
    hall before after, hall after before]
  exact ⟨fun h warning => ⟨h.1 warning, h.2 warning⟩,
    fun h => ⟨fun warning => (h warning).mp, fun warning => (h warning).mpr⟩⟩

/-! ## The specification -/

/-- `manifest_diff_empty` finds that two manifests say the same. -/
theorem manifest_diff_empty_iff (hbefore : before.Comparable) (hafter : after.Comparable) :
    manifestDiffEmpty (diffArchiveManifests before after) = true ↔
      before.summary = after.summary ∧
      (∀ summary, summary ∈ before.devices ↔ summary ∈ after.devices) ∧
      (∀ count, count ∈ before.packetKinds ↔ count ∈ after.packetKinds) ∧
      ∀ warning, warning ∈ before.warnings ↔ warning ∈ after.warnings := by
  rw [← diff_summary_eq_nil_iff, ← diff_devices_eq_nil_iff hbefore hafter,
    ← diff_kinds_eq_nil_iff hbefore hafter, ← diff_warnings_eq_nil_iff, manifestDiffEmpty,
    List.isEmpty_iff]
  simp only [diffArchiveManifests, List.append_eq_nil_iff, and_assoc]

/-- The difference has no entries exactly when the summaries, the devices, the counts of the kinds
and the warnings are the same, its deltas fit their type, and the difference the other way has the
opposite entries. -/
theorem manifest_diff_spec (hbefore : before.Comparable) (hafter : after.Comparable) :
    ((diffArchiveManifests before after).entries = [] ↔
      before.summary = after.summary ∧
      (∀ summary, summary ∈ before.devices ↔ summary ∈ after.devices) ∧
      (∀ count, count ∈ before.packetKinds ↔ count ∈ after.packetKinds) ∧
      ∀ warning, warning ∈ before.warnings ↔ warning ∈ after.warnings) ∧
    (∀ entry ∈ (diffArchiveManifests before after).entries, entry.Fits) ∧
    (diffArchiveManifests after before).entries.Perm
      ((diffArchiveManifests before after).entries.map ManifestDiffEntry.swap) := by
  refine ⟨List.isEmpty_iff.symm.trans (manifest_diff_empty_iff hbefore hafter), ?_, ?_⟩
  · simp only [diffArchiveManifests, List.forall_mem_append]
    exact ⟨⟨⟨diff_summary_fits hbefore hafter, diff_devices_fits hbefore hafter⟩,
      diff_kinds_fits hbefore hafter⟩, diff_warnings_fits⟩
  · simp only [diffArchiveManifests, List.map_append]
    rw [diff_summary_swap before after, diff_devices_swap before after,
      diff_kinds_swap before after]
    exact (diff_warnings_swap before after).append_left _

/-- A manifest of three records of one device. -/
def oneDevice : ArchiveManifest where
  summary := { recordCount := 3, firstTimeNs := 100, lastTimeNs := 300 }
  devices := [⟨7, 3, 100, 300, 12⟩]
  packetKinds := [{ kind := .observation, count := 3 }]
  warnings := ["archive records are not ordered by capture time"]

/-- Everything of a manifest is removed. -/
theorem manifest_diff_spec_removed :
    ((diffArchiveManifests oneDevice {}).entries = [] ↔
      oneDevice.summary = {} ∧ (∀ summary, summary ∈ oneDevice.devices ↔ summary ∈ []) ∧
      (∀ count, count ∈ oneDevice.packetKinds ↔ count ∈ []) ∧
      ∀ warning, warning ∈ oneDevice.warnings ↔ warning ∈ []) ∧
    (∀ entry ∈ (diffArchiveManifests oneDevice {}).entries, entry.Fits) ∧
    (diffArchiveManifests {} oneDevice).entries.Perm
      ((diffArchiveManifests oneDevice {}).entries.map ManifestDiffEntry.swap) :=
  manifest_diff_spec
    { devices := by decide, kinds := by decide, records := by decide, payload := by decide,
      device := by decide, kind := by decide }
    { devices := by decide, kinds := by decide, records := by decide, payload := by decide,
      device := by decide, kind := by decide }

end Aethon.Storage
