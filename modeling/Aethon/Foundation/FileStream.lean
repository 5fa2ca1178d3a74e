import Mathlib.Algebra.Group.Nat.Defs
import Mathlib.Tactic.Common

/-!
# Byte files behind a stream

An `OutputFile` is written through a put position on a medium of bounded capacity, an `InputFile`
is read through a get position. As with the streams of the language, a failure sets a flag that
stays, and every later operation on a failed stream does nothing. `write_end` and `write_within`
say what a write does that succeeds, `read_of_le` what a read does that is not cut short.
-/

namespace FileStream

/-- The bytes a file may grow to. A stream counts bytes with signed 64-bit offsets, so no medium
holds more than those reach. -/
structure Medium where
  capacity : Nat
  addressable : capacity < 2 ^ 63

/-! ## Writing -/

/-- A file open for writing, truncated when it was opened. -/
structure OutputFile where
  medium : Medium
  content : List UInt8 := []
  position : Nat := 0
  failed : Bool := false

namespace OutputFile

/-- A stream that has failed keeps its put position. -/
def seek (file : OutputFile) (position : Nat) : OutputFile :=
  if file.failed then file else { file with position := position }

/-- Write at the put position, over what is there. Of bytes beyond the capacity of the medium
those that fit are written, and the stream fails. No buffer stands in front of the medium: one with
a buffer fails later, at a flush or when it is closed, so only runs without a failure tell which
call was the last that was written. -/
def write (file : OutputFile) (bytes : List UInt8) : OutputFile :=
  if file.failed then file
  else
    let written := bytes.take (file.medium.capacity - file.position)
    { file with
      content := file.content.take file.position ++ written ++
        file.content.drop (file.position + written.length)
      position := file.position + written.length
      failed := decide (written.length < bytes.length) }

/-- A write leaves the stream good exactly when it was and the bytes fit. -/
theorem failed_write {file : OutputFile} {bytes : List UInt8} :
    (file.write bytes).failed = false ↔
      file.failed = false ∧ bytes.length ≤ file.medium.capacity - file.position := by
  unfold write
  by_cases h : file.failed = true
  · rw [if_pos h]
    simp [h]
  · rw [if_neg h]
    simp only [List.length_take, decide_eq_false_iff_not, Bool.not_eq_true] at h ⊢
    simp only [h, true_and]
    omega

/-- A write that fits puts its bytes at the put position. -/
theorem write_of_fits {file : OutputFile} {bytes : List UInt8} (hgood : file.failed = false)
    (hfits : bytes.length ≤ file.medium.capacity - file.position) :
    file.write bytes = { file with
      content := file.content.take file.position ++ bytes ++
        file.content.drop (file.position + bytes.length)
      position := file.position + bytes.length } := by
  have hwhole : bytes.take (file.medium.capacity - file.position) = bytes :=
    List.take_of_length_le hfits
  simp only [write, hgood, hwhole, Bool.false_eq_true, if_false, Nat.lt_irrefl, decide_false]

/-- A write at the end of the file that fits appends the bytes. -/
theorem write_end {file : OutputFile} {bytes : List UInt8} (hgood : file.failed = false)
    (hend : file.position = file.content.length)
    (hfits : bytes.length ≤ file.medium.capacity - file.position) :
    file.write bytes = { file with
      content := file.content ++ bytes, position := (file.content ++ bytes).length } := by
  rw [write_of_fits hgood hfits, hend]
  simp

/-- A write over bytes of the file, which always fits, replaces them by as many others. -/
theorem write_within {file : OutputFile} {before old new after : List UInt8}
    (hgood : file.failed = false) (hcontent : file.content = before ++ old ++ after)
    (hposition : file.position = before.length) (hlength : new.length = old.length)
    (hfits : file.content.length ≤ file.medium.capacity) :
    file.write new = { file with
      content := before ++ new ++ after, position := (before ++ new).length } := by
  rw [hcontent, List.length_append, List.length_append] at hfits
  rw [write_of_fits hgood (by omega), hcontent, hposition, hlength]
  simp [hlength]

end OutputFile

/-! ## Reading -/

/-- A file open for reading, with the two flags of its stream. -/
structure InputFile where
  content : List UInt8
  position : Nat := 0
  eof : Bool := false
  fail : Bool := false
  deriving DecidableEq, Repr

namespace InputFile

/-- Neither flag is set. -/
def good (file : InputFile) : Bool :=
  !file.eof && !file.fail

/-- The bytes from the get position to the end of the file. -/
def unread (file : InputFile) : List UInt8 :=
  file.content.drop file.position

/-- Look at the next byte without reading it. -/
def peek (file : InputFile) : Option UInt8 × InputFile :=
  if file.good then
    match file.unread with
    | [] => (none, { file with eof := true })
    | byte :: _ => (some byte, file)
  else (none, { file with fail := true })

/-- Read `n` bytes, or those that are left, and fail. -/
def read (n : Nat) (file : InputFile) : List UInt8 × InputFile :=
  if file.good then
    if n ≤ file.unread.length then
      (file.unread.take n, { file with position := file.position + n })
    else
      (file.unread, { file with
        position := file.position + file.unread.length, eof := true, fail := true })
  else ([], { file with fail := true })

/-- The get position, or nothing on a stream that is not good. -/
def tell (file : InputFile) : Option Nat × InputFile :=
  if file.good then (some file.position, file) else (none, { file with fail := true })

/-- Move the get position. Seeking forgets the end of the file, but not a failure. -/
def seek (position : Option Nat) (file : InputFile) : InputFile :=
  match position with
  | none => { file with eof := false, fail := true }
  | some position =>
      if file.fail then { file with eof := false }
      else { file with eof := false, position := position }

/-- Move the get position behind the last byte. -/
def seekEnd (file : InputFile) : InputFile :=
  file.seek (some file.content.length)

/-- A good stream tells its position, and goes where it is sent. -/
theorem tell_of_good {file : InputFile} (hgood : file.good = true) :
    file.tell = (some file.position, file) :=
  if_pos hgood

theorem seek_of_good {file : InputFile} (hgood : file.good = true) (position : Nat) :
    file.seek (some position) = { file with position := position } := by
  simp only [good, Bool.and_eq_true, Bool.not_eq_true'] at hgood
  simp [seek, hgood]

/-- The file after `n` of its bytes were read. -/
def advance (file : InputFile) (n : Nat) : InputFile :=
  { file with position := file.position + n }

@[simp] theorem good_advance (file : InputFile) (n : Nat) :
    (file.advance n).good = file.good := rfl

@[simp] theorem unread_advance (file : InputFile) (n : Nat) :
    (file.advance n).unread = file.unread.drop n := by
  simp [unread, advance]

@[simp] theorem advance_advance (file : InputFile) (m n : Nat) :
    (file.advance m).advance n = file.advance (m + n) := by
  simp [advance, Nat.add_assoc]

/-- What is behind the first bytes to read is what is unread once they are read. -/
theorem unread_eq_append_iff {file : InputFile} {bytes rest : List UInt8} {n : Nat}
    (hlength : bytes.length = n) : file.unread = bytes ++ rest ↔
      file.unread = bytes ++ (file.advance n).unread ∧ (file.advance n).unread = rest := by
  subst hlength
  constructor
  · intro h
    have hrest : (file.advance bytes.length).unread = rest := by
      rw [unread_advance, h, List.drop_left]
    exact ⟨by rw [hrest, h], hrest⟩
  · intro h
    rw [h.1, h.2]

/-- On a good stream a read yields the asked number of bytes exactly when as many are left. -/
theorem read_eq_iff {file file' : InputFile} {n : Nat} {bytes : List UInt8}
    (hgood : file.good = true) (hlength : bytes.length = n) :
    file.read n = (bytes, file') ↔
      (∃ rest, file.unread = bytes ++ rest) ∧ file' = file.advance n := by
  subst hlength
  unfold read
  rw [if_pos hgood]
  by_cases hle : bytes.length ≤ file.unread.length
  · rw [if_pos hle, Prod.mk.injEq]
    refine and_congr ?_ eq_comm
    constructor
    · intro htake
      exact ⟨file.unread.drop bytes.length, by simpa [htake] using
        (List.take_append_drop bytes.length file.unread).symm⟩
    · intro hbegins
      obtain ⟨rest, hrest⟩ := hbegins
      rw [hrest, List.take_left]
  · -- a read that is cut short returns fewer bytes than asked for
    rw [if_neg hle]
    constructor
    · intro heq
      rw [← (Prod.mk.inj heq).1] at hle
      exact absurd (Nat.le_refl _) hle
    · intro h
      obtain ⟨⟨rest, hrest⟩, -⟩ := h
      rw [hrest, List.length_append] at hle
      omega

/-- A good stream sees the end of the file exactly when nothing is left to read. -/
theorem peek_of_nil {file : InputFile} (hgood : file.good = true) (hunread : file.unread = []) :
    file.peek = (none, { file with eof := true }) := by
  rw [peek, if_pos hgood, hunread]

/-- Looking at a byte changes nothing. -/
theorem peek_of_cons {file : InputFile} (hgood : file.good = true) {byte : UInt8}
    {rest : List UInt8} (hunread : file.unread = byte :: rest) :
    file.peek = (some byte, file) := by
  rw [peek, if_pos hgood, hunread]

end InputFile

end FileStream
