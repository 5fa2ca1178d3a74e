import Mathlib.Logic.Function.Basic
import Aethon.Foundation.FileStream

/-!
# Files behind paths

A `Disk` holds files at places. Which place a path leads to is left open, so different paths may
lead to the same file. `read_put` and its companions say what a change of one place does to the
files that other paths see.
-/

namespace FileSystem

open FileStream

/-- A file is no longer than stream offsets reach. -/
structure File where
  bytes : List UInt8
  addressable : bytes.length < 2 ^ 63

/-- The file of these bytes, as far as they are addressable. -/
def File.ofBytes (bytes : List UInt8) : File :=
  ⟨bytes.take (2 ^ 63 - 1), by rw [List.length_take]; omega⟩

@[simp] theorem File.bytes_ofBytes {bytes : List UInt8} (h : bytes.length < 2 ^ 63) :
    (File.ofBytes bytes).bytes = bytes :=
  List.take_of_length_le (by omega)

/-- The files of a system. `locate` says which place a path leads to, and `medium` which room there
is for a file that is written there, if one can be written at all. -/
structure Disk (π κ : Type) where
  locate : π → κ
  medium : κ → Option Medium
  files : κ → Option File

namespace Disk

variable {π κ : Type}

/-- The bytes of the file that a path leads to. -/
def read (disk : Disk π κ) (path : π) : Option (List UInt8) :=
  (disk.files (disk.locate path)).map File.bytes

theorem read_addressable {disk : Disk π κ} {path : π} {bytes : List UInt8}
    (h : disk.read path = some bytes) : bytes.length < 2 ^ 63 := by
  obtain ⟨file, -, rfl⟩ := Option.map_eq_some_iff.mp h
  exact file.addressable

/-- A path leads to a file. -/
def isFile (disk : Disk π κ) (path : π) : Bool :=
  (disk.files (disk.locate path)).isSome

variable [DecidableEq κ]

/-- The disk with another file, or none, at a place. -/
def put (disk : Disk π κ) (place : κ) (file : Option File) : Disk π κ :=
  { disk with files := Function.update disk.files place file }

/-- Take away the file that a path leads to. -/
def remove (disk : Disk π κ) (path : π) : Disk π κ :=
  disk.put (disk.locate path) none

/-- Move the file of one path to another, over the file there. -/
def rename (disk : Disk π κ) (source target : π) : Disk π κ :=
  (disk.remove source).put (disk.locate target) (disk.files (disk.locate source))

@[simp] theorem locate_put (disk : Disk π κ) (place : κ) (file : Option File) :
    (disk.put place file).locate = disk.locate := rfl

@[simp] theorem put_put (disk : Disk π κ) (place : κ) (first second : Option File) :
    (disk.put place first).put place second = disk.put place second := by
  simp [put]

@[simp] theorem files_put_same (disk : Disk π κ) (place : κ) (file : Option File) :
    (disk.put place file).files place = file := by
  simp [put]

theorem files_put_of_ne {disk : Disk π κ} {place other : κ} (h : other ≠ place)
    (file : Option File) : (disk.put place file).files other = disk.files other := by
  simp [put, h]

/-- What is put at the place of a path is read through it. -/
theorem read_put_same {disk : Disk π κ} {path : π} {place : κ} (h : disk.locate path = place)
    (file : File) : (disk.put place (some file)).read path = some file.bytes := by
  simp [read, h]

/-- A path that leads elsewhere sees no change. -/
theorem read_put_of_ne {disk : Disk π κ} {path : π} {place : κ} (h : disk.locate path ≠ place)
    (file : Option File) : (disk.put place file).read path = disk.read path := by
  simp [read, files_put_of_ne h]

end Disk

end FileSystem
