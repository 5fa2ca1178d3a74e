import Aethon.Foundation.StableSort
import Aethon.Foundation.Words
import Aethon.Storage.ArchiveIndex
import Aethon.Storage.ArchiveRecords

/-!
# Searching an index

No two records of a file stand at one offset, so the comparison of the index leaves no choice: the
entries increase by capture time and offset. `archive_index_spec` says what an index holds, and that
the search by halves returns the first entry at or after a time.
-/

namespace Aethon.Storage

open FileSystem StableSort BinarySearch Protocol

/-! ## The order of the entries -/

namespace ArchiveIndexEntry

/-- Lines of the index are compared by time, then by offset. -/
theorem less_iff {left right : ArchiveIndexEntry} : left.less right = true ↔
    left.captureTimeNs < right.captureTimeNs ∨
      left.captureTimeNs = right.captureTimeNs ∧ left.offset < right.offset := by
  unfold less
  by_cases htime : left.captureTimeNs = right.captureTimeNs
  · simp [htime]
  · simp [htime]

theorem not_less_iff {left right : ArchiveIndexEntry} : ¬right.less left = true ↔
    left.captureTimeNs < right.captureTimeNs ∨
      left.captureTimeNs = right.captureTimeNs ∧ left.offset ≤ right.offset := by
  simp only [less_iff, UInt64.lt_iff_toNat_lt, UInt64.le_iff_toNat_le, ← UInt64.toNat_inj]
  omega

/-- The comparison is by capture time and then by offset. -/
theorem less_iff_before {left right : ArchiveIndexEntry} : left.less right = true ↔
    Before (fun entry => entry.captureTimeNs.toNat) (fun entry => entry.offset.toNat)
      left right := by
  simp only [less_iff, Before, UInt64.toNat_inj, ← UInt64.lt_iff_toNat_lt]

theorem less_asymm (left right : ArchiveIndexEntry) (h : left.less right = true) :
    ¬right.less left = true := by
  rw [less_iff_before] at h ⊢
  exact h.asymm

theorem time_le_of_less {left right : ArchiveIndexEntry} (h : left.less right = true) :
    left.captureTimeNs ≤ right.captureTimeNs := by
  rcases less_iff.mp h with hlt | ⟨heq, -⟩
  · exact UInt64.le_of_lt hlt
  · exact UInt64.le_of_eq heq

end ArchiveIndexEntry

section Entries

variable {entries : List ArchiveIndexEntry}

theorem offsets_differ (hoffsets : (entries.map ArchiveIndexEntry.offset).Nodup) :
    entries.Pairwise fun left right => left.offset.toNat ≠ right.offset.toNat :=
  (List.pairwise_map.mp hoffsets).imp fun hne heq => hne (UInt64.toNat_inj.mp heq)

/-- Entries at different offsets increase once they are sorted. -/
theorem sorted_entries_increase (hoffsets : (entries.map ArchiveIndexEntry.offset).Nodup) :
    (stableSort ArchiveIndexEntry.less entries).Pairwise fun left right =>
      left.less right = true :=
  (pairwise_sort (fun _ _ => ArchiveIndexEntry.less_iff_before) (offsets_differ hoffsets)).imp
    ArchiveIndexEntry.less_iff_before.mpr

/-- The search by halves in sorted entries returns the first of the least capture time at or after
the one asked for. -/
theorem find_in_sorted {index : ArchiveIndex}
    (hsorted : index.records.Pairwise fun left right => left.less right = true)
    (captureTimeNs : UInt64) :
    findRecordAtOrAfter index captureTimeNs =
      index.records.find? fun entry => !decide (entry.captureTimeNs < captureTimeNs) := by
  refine get_lower_bound (hsorted.imp fun {left right} hless hright => ?_)
  rw [decide_eq_true_iff] at hright ⊢
  exact UInt64.lt_of_le_of_lt (ArchiveIndexEntry.time_le_of_less hless) hright

end Entries

/-- The first of sorted times is the least, the last the greatest. -/
theorem sorted_ends {times sorted : List UInt64} (hperm : sorted.Perm times)
    (hsorted : sorted.Pairwise (· ≤ ·)) :
    sorted.head? = times.min? ∧ sorted.getLast? = times.max? := by
  constructor
  · rcases sorted with _ | ⟨first, behind⟩
    · rw [← hperm.nil_eq]
      rfl
    · refine (List.min?_eq_some_iff.mpr ⟨hperm.mem_iff.mp List.mem_cons_self, ?_⟩).symm
      intro time htime
      rcases List.mem_cons.mp (hperm.mem_iff.mpr htime) with rfl | hbehind
      · exact UInt64.le_refl time
      · exact (List.pairwise_cons.mp hsorted).1 time hbehind
  · rcases List.eq_nil_or_concat sorted with rfl | ⟨front, last, rfl⟩
    · rw [← hperm.nil_eq]
      rfl
    · rw [List.concat_eq_append] at hperm hsorted ⊢
      have hlast : last ∈ [last] := List.mem_singleton_self last
      rw [List.getLast?_concat]
      refine (List.max?_eq_some_iff.mpr
        ⟨hperm.mem_iff.mp (List.mem_append_right front hlast), ?_⟩).symm
      intro time htime
      rcases List.mem_append.mp (hperm.mem_iff.mpr htime) with hfront | hitself
      · exact (List.pairwise_append.mp hsorted).2.2 time hfront last hlast
      · rw [List.mem_singleton.mp hitself]
        exact UInt64.le_refl last

/-! ## Indexes of files -/

/-- The index of an archive with this header and these records. -/
def indexOf (header : ArchiveSummary) (records : List ArchiveRecord) : ArchiveIndex :=
  let entries := stableSort ArchiveIndexEntry.less (records.map ArchiveRecord.indexEntry)
  { summary := {
      formatVersion := header.formatVersion
      recordCount := UInt64.ofNat entries.length
      firstTimeNs := (entries.head?.map ArchiveIndexEntry.captureTimeNs).getD 0
      lastTimeNs := (entries.getLast?.map ArchiveIndexEntry.captureTimeNs).getD 0 }
    records := entries }

variable {κ : Type} {disk : Disk Path κ} {path : Path} {header : ArchiveSummary}
  {records : List ArchiveRecord}

/-- The offsets that an index sorts by are those of the records, all different. -/
theorem index_offsets_distinct (h : readArchive (disk.read path) = .ok (header, records)) :
    ((records.map ArchiveRecord.indexEntry).map ArchiveIndexEntry.offset).Nodup := by
  have hdistinct := offsets_distinct disk path
  rw [archiveRecords, h] at hdistinct
  rw [List.map_map]
  exact hdistinct

theorem build_archive_index_of_read {file : Option Bytes}
    (h : readArchive file = .ok (header, records)) :
    buildArchiveIndex file = .ok (indexOf header records) := by
  rw [buildArchiveIndex, h]
  rfl

/-- Whatever a sort does with entries that compare equal, an index comes out the same: there are
none. -/
theorem index_records_unique {sort : List ArchiveIndexEntry → List ArchiveIndexEntry}
    (hsort : Sorts ArchiveIndexEntry.less sort)
    (h : readArchive (disk.read path) = .ok (header, records)) :
    sort (records.map ArchiveRecord.indexEntry) = (indexOf header records).records :=
  hsort.unique (fun _ _ => ArchiveIndexEntry.less_iff_before)
    (offsets_differ (index_offsets_distinct h))

/-- The summary of an index is that of its records. -/
theorem index_summary (h : readArchive (disk.read path) = .ok (header, records)) :
    (indexOf header records).summary.recordCount.toNat = records.length ∧
      (indexOf header records).summary.firstTimeNs =
        (records.map ArchiveRecord.captureTimeNs).min?.getD 0 ∧
      (indexOf header records).summary.lastTimeNs =
        (records.map ArchiveRecord.captureTimeNs).max?.getD 0 := by
  have hperm : ((indexOf header records).records.map ArchiveIndexEntry.captureTimeNs).Perm
      (records.map ArchiveRecord.captureTimeNs) := by
    have hmap := (stable_sort_perm ArchiveIndexEntry.less
      (records.map ArchiveRecord.indexEntry)).map ArchiveIndexEntry.captureTimeNs
    rw [List.map_map] at hmap
    exact hmap
  have hsorted : ((indexOf header records).records.map
      ArchiveIndexEntry.captureTimeNs).Pairwise (· ≤ ·) :=
    List.pairwise_map.mpr ((sorted_entries_increase (index_offsets_distinct h)).imp
      ArchiveIndexEntry.time_le_of_less)
  obtain ⟨hfirst, hlast⟩ := sorted_ends hperm hsorted
  rw [List.head?_map] at hfirst
  rw [List.getLast?_map] at hlast
  refine ⟨?_, congrArg (·.getD 0) hfirst, congrArg (·.getD 0) hlast⟩
  show (UInt64.ofNat (stableSort _ (records.map ArchiveRecord.indexEntry)).length).toNat = _
  rw [(stable_sort_perm _ _).length_eq, List.length_map]
  exact UInt64.toNat_ofNat_of_lt' (length_records_lt h)

/-- An index lists the records of the archive, each once, by capture time and offset, and its
summary says how many there are and their first and last time. The search for a time returns the
first entry of the least capture time from it on, and nothing just where every record is earlier. -/
theorem archive_index_spec (h : readArchive (disk.read path) = .ok (header, records)) :
    ∃ index, buildArchiveIndex (disk.read path) = .ok index ∧
      index.records.Perm (records.map ArchiveRecord.indexEntry) ∧
      (index.records.Pairwise fun left right => left.captureTimeNs < right.captureTimeNs ∨
        left.captureTimeNs = right.captureTimeNs ∧ left.offset < right.offset) ∧
      index.summary.recordCount.toNat = records.length ∧
      index.summary.firstTimeNs = (records.map ArchiveRecord.captureTimeNs).min?.getD 0 ∧
      index.summary.lastTimeNs = (records.map ArchiveRecord.captureTimeNs).max?.getD 0 ∧
      ∀ time, (∀ entry, findRecordAtOrAfter index time = some entry ↔
          entry ∈ index.records ∧ time ≤ entry.captureTimeNs ∧
            ∀ other ∈ index.records, time ≤ other.captureTimeNs →
              entry.captureTimeNs < other.captureTimeNs ∨
                entry.captureTimeNs = other.captureTimeNs ∧ entry.offset ≤ other.offset) ∧
        (findRecordAtOrAfter index time = none ↔
          ∀ record ∈ records, record.captureTimeNs < time) := by
  have hincrease : (indexOf header records).records.Pairwise fun left right =>
      left.less right = true := sorted_entries_increase (index_offsets_distinct h)
  have hperm : (indexOf header records).records.Perm (records.map ArchiveRecord.indexEntry) :=
    stable_sort_perm _ _
  obtain ⟨hcount, hfirst, hlast⟩ := index_summary h
  refine ⟨indexOf header records, build_archive_index_of_read h, hperm,
    hincrease.imp ArchiveIndexEntry.less_iff.mp, hcount, hfirst, hlast,
    fun time => ⟨fun entry => ?_, ?_⟩⟩
  · rw [find_in_sorted hincrease,
      find?_eq_some_iff_of_pairwise ArchiveIndexEntry.less_asymm hincrease]
    simp only [ArchiveIndexEntry.not_less_iff, Bool.not_eq_true', decide_eq_false_iff_not,
      UInt64.not_lt]
  · rw [find_in_sorted hincrease, List.find?_eq_none]
    simp only [hperm.mem_iff, List.forall_mem_map, Bool.not_eq_true', Bool.not_eq_false,
      decide_eq_true_iff]
    rfl

/-- Observations whose capture times are out of order. -/
def shuffledEntries : List (UInt64 × Packet) :=
  [(3000, { payload := [3] }), (1000, { payload := [1] }), (2000, { payload := [2] })]

/-- A disk with an archive whose records are out of order. -/
def shuffledDisk : Disk Path Path :=
  diskOf [(⟨"day.ath"⟩, shuffledEntries)]

/-- The index of an archive whose records are out of order. -/
theorem archive_index_of_shuffled :
    ∃ index, buildArchiveIndex (shuffledDisk.read ⟨"day.ath"⟩) = .ok index ∧
      index.summary.recordCount.toNat = 3 ∧ index.summary.firstTimeNs = 1000 ∧
      index.summary.lastTimeNs = 3000 ∧
      ∀ time, findRecordAtOrAfter index time = none ↔
        ∀ record ∈ recordsAt 36 shuffledEntries, record.captureTimeNs < time := by
  have hlimits : ∀ entry ∈ shuffledEntries, ReadableLimits entry.2 := by
    intro entry hentry
    simp only [shuffledEntries, List.mem_cons, List.not_mem_nil, or_false] at hentry
    rcases hentry with rfl | rfl | rfl
    all_goals exact readable_observation 0 0 (by decide)
  have hsize : (archiveWire shuffledEntries).length < 2 ^ 63 := by
    simp [shuffledEntries, archiveWire, recordsWire, length_packet_frame, Packet.sectionsWire]
  have hread : readArchive (shuffledDisk.read ⟨"day.ath"⟩) =
      .ok (summarize {} shuffledEntries, recordsAt 36 shuffledEntries) :=
    read_disk_of rfl hlimits hsize
  obtain ⟨index, hbuild, -, -, hcount, hfirst, hlast, hfind⟩ := archive_index_spec hread
  exact ⟨index, hbuild, hcount, hfirst, hlast, fun time => (hfind time).2⟩

end Aethon.Storage
