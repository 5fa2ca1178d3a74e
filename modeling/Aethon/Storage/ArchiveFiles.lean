import Aethon.Common.Path
import Aethon.Foundation.FileSystem
import Aethon.Storage.RecordLoop

/-!
# Archive writers on a disk

`ArchiveWriter writer(path)` truncates the file of its path, and the file is left as the writer is
destroyed at the end of the scope, also when an exception leaves it. `write_entries_on_disk_iff`
says what a scope leaves that appends entries and closes the writer.
-/

namespace Aethon.Storage

open Actions FileStream FileSystem Codec Protocol Parsing

/-- The medium of the examples. -/
def smallMedium : Medium := ⟨1000, by decide⟩

variable {κ α : Type} [DecidableEq κ]

/-- A scope with a writer for `output`. The body is given the disk from before the file was opened,
and works on the writer. -/
def withWriter (output : Path) (body : Disk Path κ → Action ArchiveWriter Error α) :
    Action (Disk Path κ) Error α := do
  let disk ← get
  let place := disk.locate output
  let leave (bytes : Bytes) : Action (Disk Path κ) Error Unit :=
    modify fun disk => disk.put place (some (File.ofBytes bytes))
  match disk.medium place with
  | none => throw (archiveError "failed to open archive for writing")
  | some medium =>
      match ArchiveWriter.create (some medium) with
      | .error failure =>
          -- as much of the first header as fits was written
          leave ((archiveMagic ++ ({} : ArchiveSummary).wire).take medium.capacity)
          throw failure
      | .ok opened =>
          let (result, writer) := start (body disk) opened
          -- the destructor closes the writer and drops what that throws
          let destroyed := (start ArchiveWriter.close writer).2
          leave destroyed.out.content
          liftM result

/-- Append entries in order and close the writer. -/
def writeEntries (entries : List (UInt64 × Packet)) : Action ArchiveWriter Error Unit := do
  forM entries fun entry => ArchiveWriter.append entry.1 entry.2
  ArchiveWriter.close

/-- A scope returns when the file can be opened and its body returns. -/
theorem with_writer_ok_iff {output : Path} {body : Disk Path κ → Action ArchiveWriter Error α}
    {disk disk' : Disk Path κ} {a : α} :
    start (withWriter output body) disk = (.ok a, disk') ↔
      ∃ medium opened writer, disk.medium (disk.locate output) = some medium ∧
        ArchiveWriter.create (some medium) = .ok opened ∧
        start (body disk) opened = (.ok a, writer) ∧
        disk' = disk.put (disk.locate output)
          (some (File.ofBytes (start ArchiveWriter.close writer).2.out.content)) := by
  rw [withWriter, start_get_bind]
  rcases hmedium : disk.medium (disk.locate output) with _ | medium
  · simp only [hmedium, reduceCtorEq, false_and, exists_false, iff_false]
    intro h
    cases h
  rcases hopen : ArchiveWriter.create (some medium) with failure | opened
  · simp only [hmedium, hopen, Option.some.injEq, ↓existsAndEq, true_and, reduceCtorEq, false_and,
      exists_false, iff_false]
    intro h
    cases h
  rcases hbody : start (body disk) opened with ⟨result, writer⟩
  simp only [hmedium, hopen, hbody, start_modify_bind, start_lift_ok_iff]
  constructor
  · intro h
    obtain ⟨rfl, rfl⟩ := h
    exact ⟨medium, opened, writer, rfl, hopen, hbody, rfl⟩
  · intro h
    obtain ⟨_, _, _, hsame, hopen', hbody', rfl⟩ := h
    obtain rfl := Option.some.inj hsame
    obtain rfl := Except.ok.inj (hopen.symm.trans hopen')
    obtain ⟨rfl, rfl⟩ := Prod.mk.inj (hbody.symm.trans hbody')
    exact ⟨rfl, rfl⟩

/-- An archive is written by the entries one by one. -/
theorem write_archive_iff_write_entries {medium : Medium} {entries : List (UInt64 × Packet)}
    {writer : ArchiveWriter} : writeArchive medium entries = .ok writer ↔
      ∃ opened, ArchiveWriter.create (some medium) = .ok opened ∧
        start (writeEntries entries) opened = (.ok (), writer) := by
  simp only [writeArchive, except_bind_ok_iff, execute_ok_iff]
  exact exists_congr fun opened => and_congr_right fun _ =>
    ⟨fun h => h.choose_spec, fun h => ⟨(), h⟩⟩

/-- A scope that writes entries leaves their archive, when the encoder accepts them and the archive
fits. -/
theorem write_entries_on_disk_iff {output : Path} {entries : List (UInt64 × Packet)}
    {disk disk' : Disk Path κ} :
    start (withWriter output fun _ => writeEntries entries) disk = (.ok (), disk') ↔
      ∃ medium, disk.medium (disk.locate output) = some medium ∧
        (∀ entry ∈ entries, EncoderLimits entry.2) ∧
        (archiveWire entries).length ≤ medium.capacity ∧
        disk' = disk.put (disk.locate output) (some (File.ofBytes (archiveWire entries))) := by
  rw [with_writer_ok_iff]
  constructor
  · intro h
    obtain ⟨medium, opened, writer, hmedium, hopen, hbody, rfl⟩ := h
    obtain ⟨⟨hlimits, hfits⟩, rfl⟩ :=
      write_archive_ok_iff.mp (write_archive_iff_write_entries.mpr ⟨opened, hopen, hbody⟩)
    -- the destructor finds the writer closed
    exact ⟨medium, hmedium, hlimits, hfits, rfl⟩
  · intro h
    obtain ⟨medium, hmedium, hlimits, hfits, rfl⟩ := h
    obtain ⟨opened, hopen, hbody⟩ := write_archive_iff_write_entries.mp
      (write_archive_ok_iff.mpr ⟨⟨hlimits, hfits⟩, rfl⟩)
    exact ⟨medium, opened, _, hmedium, hopen, hbody, rfl⟩

end Aethon.Storage
