import Mathlib.Data.List.TakeWhile
import Mathlib.Tactic.Common

/-!
# Paths

The operations of `std::filesystem::path` that the library uses, on systems where `/` separates
the components. A character of the string stands for a byte, so strings compare as bytes do.
-/

namespace Aethon

/-- A path is its text, as it was given. -/
structure Path where
  string : String
  deriving DecidableEq, Repr

namespace Path

/-- A path of characters. -/
def ofChars (chars : List Char) : Path :=
  ⟨String.ofList chars⟩

/-- The characters of a path. -/
def chars (path : Path) : List Char :=
  path.string.toList

/-- A path without a character. -/
def empty (path : Path) : Bool :=
  path.chars.isEmpty

/-- A path from the root. -/
def isAbsolute (path : Path) : Bool :=
  path.chars.head? = some '/'

/-- The characters behind the last separator. -/
def filename (path : Path) : Path :=
  ofChars (path.chars.reverse.takeWhile (· ≠ '/')).reverse

/-- The path without its filename and the separators in front of it. A path that is only a root is
its own parent. -/
def parentPath (path : Path) : Path :=
  let directory := path.chars.reverse.dropWhile (· ≠ '/')
  let parent := (directory.dropWhile (· = '/')).reverse
  if parent.isEmpty then
    if path.chars.all (· = '/') then path else ofChars (path.chars.take 1 |>.filter (· = '/'))
  else ofChars parent

/-- `operator/`. An absolute path replaces the one in front of it. -/
def append (directory path : Path) : Path :=
  if path.isAbsolute then path
  else if directory.filename.empty then ⟨directory.string ++ path.string⟩
  else ⟨directory.string ++ "/" ++ path.string⟩

/-- The names between the separators. A separator at the end is followed by an empty name. -/
def components (path : Path) : List (List Char) :=
  let names := (path.chars.splitOn '/').filter (· ≠ [])
  if path.chars.getLast? = some '/' ∧ names ≠ [] then names ++ [[]] else names

/-- `operator==`, which compares names and not strings. -/
def same (left right : Path) : Bool :=
  left.isAbsolute = right.isAbsolute ∧ left.components = right.components

example : (Path.mk "archives/day.ath").filename = ⟨"day.ath"⟩ := by decide

example : (Path.mk "archives/day.ath").parentPath = ⟨"archives"⟩ := by decide

example : (Path.mk "/day.ath").parentPath = ⟨"/"⟩ := by decide

example : (Path.mk "a//b").same ⟨"a/b"⟩ ∧ ¬ (Path.mk "a/b/").same ⟨"a/b"⟩ := by decide

example : (Path.mk "archives").append ⟨"day.ath"⟩ = ⟨"archives/day.ath"⟩ := by decide

@[simp] theorem chars_ofChars (chars : List Char) : (ofChars chars).chars = chars :=
  String.toList_ofList

theorem same_self (path : Path) : path.same path = true := by
  simp [same]

theorem same_comm (left right : Path) : left.same right = right.same left := by
  simp only [same, eq_comm]

theorem empty_eq_false_iff {path : Path} : path.empty = false ↔ path.chars ≠ [] := by
  rw [empty, List.isEmpty_eq_false_iff]

/-- A path behind another one is empty only if both are. -/
theorem append_not_empty {directory path : Path}
    (h : directory.empty = false ∨ path.empty = false) :
    (directory.append path).empty = false := by
  simp only [empty_eq_false_iff] at h ⊢
  unfold append
  split_ifs with habsolute hfilename
  · intro hnone
    rw [isAbsolute, hnone] at habsolute
    cases habsolute
  · simpa [chars, String.toList_append, imp_iff_not_or] using h
  · simp [chars, String.toList_append]

/-- Names that are both relative, or both absolute, are told apart behind the same directory. -/
theorem append_injective {directory left right : Path} (hkind : left.isAbsolute = right.isAbsolute)
    (h : directory.append left = directory.append right) : left = right := by
  unfold append at h
  rw [hkind] at h
  split_ifs at h
  · exact h
  all_goals
    have hchars := congrArg (fun path => path.string.toList) h
    simp only [String.toList_append, List.append_cancel_left_eq] at hchars
    exact congrArg Path.mk (String.toList_inj.mp hchars)

/-- A path that is not empty has a parent or a filename. -/
theorem parent_or_filename {path : Path} (h : path.empty = false) :
    path.parentPath.empty = false ∨ path.filename.empty = false := by
  rw [or_iff_not_imp_right]
  intro hfilename
  simp only [empty_eq_false_iff, filename, chars_ofChars, ne_eq, not_not,
    List.reverse_eq_nil_iff] at h hfilename ⊢
  -- without a filename the path ends with a separator
  have hends : path.chars.reverse.dropWhile (· ≠ '/') = path.chars.reverse := by
    have hsplit := List.takeWhile_append_dropWhile (l := path.chars.reverse) (p := (· ≠ '/'))
    rwa [hfilename, List.nil_append] at hsplit
  unfold parentPath
  simp only [hends]
  split_ifs with hparent hall
  · exact h
  · -- a path whose separators were all stripped consists of separators
    rw [List.isEmpty_iff, List.reverse_eq_nil_iff, List.dropWhile_eq_nil_iff] at hparent
    refine absurd (List.all_eq_true.mpr fun character hcharacter => ?_) hall
    exact hparent character (List.mem_reverse.mpr hcharacter)
  · rw [chars_ofChars]
    exact fun hnone => hparent (List.isEmpty_iff.mpr hnone)

end Path

end Aethon
