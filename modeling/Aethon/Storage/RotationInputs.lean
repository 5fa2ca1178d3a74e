import Mathlib.Data.Char
import Mathlib.Data.Prod.Lex
import Mathlib.Data.List.Lex
import Mathlib.Data.List.Sort
import Aethon.Storage.AuditFindings
import Aethon.Storage.ArchiveRotation

/-!
# The records of a rotation

`collect_inputs` sorts the records of all inputs. Paths that compare equal without being equal would
leave it without an order, so the inputs have paths that compare different; then the records come
out in strictly increasing order of capture time, path and offset.
-/

namespace Aethon.Storage

open FileSystem Codec Protocol Parsing

/-- What the records are sorted by. -/
def rotationKey (record : RotationRecordProjection) : ℕ ×ₗ List Char ×ₗ ℕ :=
  toLex (record.captureTimeNs.toNat, toLex (record.sourcePath.chars, record.sourceOffset.toNat))

/-- Where paths that compare equal are equal, the comparison is that of the keys. -/
theorem less_iff {left right : RotationRecordProjection}
    (hpaths : left.sourcePath.same right.sourcePath = true →
      left.sourcePath = right.sourcePath) :
    left.less right = true ↔ rotationKey left < rotationKey right := by
  have hsame : left.sourcePath.same right.sourcePath = true ↔
      left.sourcePath.chars = right.sourcePath.chars := by
    refine ⟨fun h => congrArg Path.chars (hpaths h), fun h => ?_⟩
    have hequal : left.sourcePath = right.sourcePath :=
      congrArg Path.mk (String.toList_inj.mp h)
    rw [hequal]
    exact Path.same_self _
  simp only [rotationKey, Prod.Lex.toLex_lt_toLex, UInt64.toNat_inj, ← UInt64.lt_iff_toNat_lt]
  unfold RotationRecordProjection.less
  by_cases htime : left.captureTimeNs = right.captureTimeNs
  · by_cases hpath : left.sourcePath.same right.sourcePath = true
    · simp [htime, hpath, hsame.mp hpath]
    · simp [htime, hpath, mt hsame.mpr hpath]
  · simp [htime]

/-- Sorted records are in the order of their keys. -/
theorem sort_in_order {records : List RotationRecordProjection}
    (hpaths : ∀ left ∈ records, ∀ right ∈ records,
      left.sourcePath.same right.sourcePath = true → left.sourcePath = right.sourcePath)
    (hdistinct : (records.map rotationKey).Nodup) :
    (records.mergeSort fun left right => !right.less left).Pairwise fun left right =>
      rotationKey left < rotationKey right := by
  have hagree := @List.map_mergeSort _ _ (fun left right => !right.less left)
    (fun left right => decide (left ≤ right)) rotationKey records (by
      intro left hleft right hright
      rw [Bool.eq_iff_iff, Bool.not_eq_true', ← Bool.not_eq_true,
        less_iff (hpaths right hright left hleft), decide_eq_true_iff, not_lt])
  have hsorted : ((records.map rotationKey).mergeSort fun left right =>
      decide (left ≤ right)).Pairwise (· ≤ ·) :=
    List.pairwise_mergeSort' (· ≤ ·) _
  have hnodup := (List.mergeSort_perm (records.map rotationKey) fun left right =>
    decide (left ≤ right)).nodup_iff.mpr hdistinct
  rw [← hagree] at hsorted hnodup
  exact List.pairwise_map.mp ((hsorted.and hnodup).imp fun h => lt_of_le_of_ne h.1 h.2)

section Inputs

variable {κ : Type}

/-- The projections of the records of all inputs, in the order of the files. -/
def inputRecords (disk : Disk Path κ) (inputs : List RotationInputArchive) :
    List RotationRecordProjection :=
  inputs.flatMap fun input =>
    (archiveRecords (disk.read input.path)).map fun record =>
      record.indexEntry.projection input.path

/-- Every input is read to its end. -/
def Readable (disk : Disk Path κ) (inputs : List RotationInputArchive) : Prop :=
  ∀ input ∈ inputs, ∃ header records, readArchive (disk.read input.path) = .ok (header, records)

/-- The projections of an archive are those of its records. -/
theorem project_records_perm {disk : Disk Path κ} {path : Path} {header : ArchiveSummary}
    {records : List ArchiveRecord} (h : readArchive (disk.read path) = .ok (header, records)) :
    ∃ projected, projectArchiveRecords disk path = .ok projected ∧
      projected.Perm ((archiveRecords (disk.read path)).map fun record =>
        record.indexEntry.projection path) := by
  obtain ⟨index, hindex, hperm⟩ := build_archive_index_perm h
  refine ⟨_, by rw [projectArchiveRecords, hindex]; rfl, ?_⟩
  have hmap := hperm.map (ArchiveIndexEntry.projection path)
  rw [List.map_map] at hmap
  simp only [archiveRecords, h]
  exact hmap

/-- The inputs give all their records, in some order. -/
theorem project_inputs_perm {disk : Disk Path κ} {inputs : List RotationInputArchive}
    (h : Readable disk inputs) : ∃ projected,
      inputs.mapM (fun input => projectArchiveRecords disk input.path) = .ok projected ∧
        projected.flatten.Perm (inputRecords disk inputs) := by
  induction inputs with
  | nil => exact ⟨[], rfl, List.Perm.nil⟩
  | cons input inputs ih =>
      obtain ⟨header, records, hread⟩ := h input List.mem_cons_self
      obtain ⟨projected, hproject, hperm⟩ := project_records_perm hread
      obtain ⟨rest, hrest, hrestPerm⟩ :=
        ih fun other hother => h other (List.mem_cons_of_mem _ hother)
      refine ⟨projected :: rest, ?_, ?_⟩
      · rw [List.mapM_cons, hproject, hrest]
        rfl
      · rw [List.flatten_cons, inputRecords, List.flatMap_cons]
        exact hperm.append hrestPerm

/-- Records at different places have different keys. -/
theorem keys_distinct {disk : Disk Path κ} {inputs : List RotationInputArchive}
    (hpaths : inputs.Pairwise fun left right => ¬ left.path.same right.path) :
    ((inputRecords disk inputs).map rotationKey).Nodup := by
  rw [inputRecords, List.map_flatMap, List.nodup_flatMap]
  constructor
  · intro input _
    have hoffsets := offsets_distinct disk input.path
    rw [List.Nodup, List.pairwise_map] at hoffsets
    rw [List.Nodup, List.pairwise_map, List.pairwise_map]
    refine hoffsets.imp fun hne hkey => hne ?_
    exact UInt64.toNat.inj (congrArg (fun key => (ofLex (ofLex key).2).2) hkey)
  · refine hpaths.imp fun {input other} hpath => ?_
    intro key hkey hkey'
    simp only [List.mem_map, exists_exists_and_eq_and] at hkey hkey'
    obtain ⟨record, -, rfl⟩ := hkey
    obtain ⟨record', -, hkey⟩ := hkey'
    have hchars : other.path.chars = input.path.chars :=
      congrArg (fun key => (ofLex (ofLex key).2).1) hkey
    have hequal : other.path = input.path := congrArg Path.mk (String.toList_inj.mp hchars)
    rw [hequal] at hpath
    exact hpath (Path.same_self _)

/-- A record comes from one of the inputs. -/
theorem source_of_mem_inputs {disk : Disk Path κ} {inputs : List RotationInputArchive}
    {record : RotationRecordProjection} (h : record ∈ inputRecords disk inputs) :
    ∃ input ∈ inputs, record.sourcePath = input.path := by
  obtain ⟨input, hinput, hrecord⟩ := List.mem_flatMap.mp h
  obtain ⟨source, -, rfl⟩ := List.mem_map.mp hrecord
  exact ⟨input, hinput, rfl⟩

/-- The records of all inputs are collected, each once. -/
theorem collect_inputs_perm {disk : Disk Path κ} {inputs : List RotationInputArchive}
    (h : Readable disk inputs) : ∃ projected : List RotationRecordProjection,
      collectInputs disk inputs = .ok (projected.mergeSort fun left right => !right.less left) ∧
        projected.Perm (inputRecords disk inputs) := by
  obtain ⟨projected, hproject, hperm⟩ := project_inputs_perm h
  exact ⟨projected.flatten, by rw [collectInputs, hproject]; rfl, hperm⟩

/-- Paths that compare different make the order of the records total: they come out strictly in the
order of capture time, path and offset, and each comes out once. -/
theorem collect_inputs_spec {disk : Disk Path κ} {inputs : List RotationInputArchive}
    (hread : Readable disk inputs)
    (hpaths : inputs.Pairwise fun left right => ¬ left.path.same right.path) :
    ∃ records, collectInputs disk inputs = .ok records ∧
      records.Perm (inputRecords disk inputs) ∧
      records.Pairwise fun left right => rotationKey left < rotationKey right := by
  obtain ⟨projected, hcollect, hperm⟩ := collect_inputs_perm hread
  refine ⟨_, hcollect, (List.mergeSort_perm _ _).trans hperm, ?_⟩
  refine sort_in_order ?_ ((hperm.map rotationKey).nodup_iff.mpr (keys_distinct hpaths))
  have hinputs : ∀ input ∈ inputs, ∀ other ∈ inputs,
      input.path.same other.path = true → input.path = other.path := by
    have hpairwise : inputs.Pairwise fun input other =>
        input.path.same other.path = true → input.path = other.path :=
      hpaths.imp fun hne hsame => absurd hsame hne
    have : Std.Symm fun input other : RotationInputArchive =>
        input.path.same other.path = true → input.path = other.path := by
      refine ⟨fun input other h hsame => ?_⟩
      rw [Path.same_comm] at hsame
      exact (h hsame).symm
    exact fun input hinput other hother =>
      hpairwise.forall_of_forall (fun _ _ _ => rfl) hinput hother
  intro left hleft right hright hsame
  obtain ⟨input, hinput, hpath⟩ := source_of_mem_inputs (hperm.mem_iff.mp hleft)
  obtain ⟨other, hother, hpath'⟩ := source_of_mem_inputs (hperm.mem_iff.mp hright)
  rw [hpath, hpath'] at hsame ⊢
  exact hinputs input hinput other hother hsame

end Inputs

end Aethon.Storage
