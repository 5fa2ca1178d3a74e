import Mathlib.Data.List.Basic
import Mathlib.Tactic.Common

/-!
# Comma-separated values

A reader of rows of fields. A line ends with a line feed, after a carriage return or not, and the
last one may end with the text. A field between quotes has its quotes doubled; one without holds no
quote, comma, line feed or carriage return. `parse_row` reads a row of such plain fields, and
`plain_of_parse` says that a field which comes back as it stands in front of a comma is plain.
-/

namespace Csv

/-- What is read from a place inside a row: the rest of its field, the other fields of the row and
the rows behind it. -/
structure Reading where
  field : List Char
  row : List (List Char)
  rows : List (List (List Char))
  deriving DecidableEq, Repr

namespace Reading

/-- A character of the field. -/
def put (ch : Char) (reading : Reading) : Reading :=
  { reading with field := ch :: reading.field }

/-- Text in front of the field that is being read. -/
def putAll (front : List Char) (reading : Reading) : Reading :=
  { reading with field := front ++ reading.field }

/-- The end of a field in front of another one. -/
def next (reading : Reading) : Reading :=
  { reading with field := [], row := reading.field :: reading.row }

/-- The rows, if the place is at the start of one. -/
def table (reading : Reading) : List (List (List Char)) :=
  (reading.field :: reading.row) :: reading.rows

end Reading

/-- Where the reader is: at the start of a field, in a field without quotes, between the quotes of
one, behind a quote that closes a field or is doubled, or behind a carriage return. -/
inductive Mode where
  | start
  | plain
  | quoted
  | closed
  | carriage
  deriving DecidableEq, Repr

/-- The end of a row in front of the rest of the text. -/
def endRow (rest : List Char) (reading : Option Reading) : Option Reading :=
  if rest = [] then some ⟨[], [], []⟩
  else reading.map fun reading => ⟨[], [], reading.table⟩

/-- What a reader makes of the rest of a text, from the end backwards. -/
def read : Mode → List Char → Option Reading
  | .quoted, [] => none
  | .carriage, [] => none
  | _, [] => some ⟨[], [], []⟩
  | .quoted, ch :: rest =>
    if ch = '"' then read .closed rest else (read .quoted rest).map (Reading.put ch)
  | .carriage, ch :: rest => if ch = '\n' then endRow rest (read .start rest) else none
  | mode, ch :: rest =>
    if ch = ',' then (read .start rest).map Reading.next
    else if ch = '\n' then endRow rest (read .start rest)
    else if ch = '\r' then read .carriage rest
    else
      match mode with
      | .start =>
        if ch = '"' then read .quoted rest else (read .plain rest).map (Reading.put ch)
      | .plain => if ch = '"' then none else (read .plain rest).map (Reading.put ch)
      | _ => if ch = '"' then (read .quoted rest).map (Reading.put ch) else none

/-- The rows of a text. -/
def parse (text : List Char) : Option (List (List (List Char))) :=
  if text = [] then some [] else (read .start text).map Reading.table

example : parse "a,\"b,\"\"c\"\"\"\r\n,d".toList =
    some [["a".toList, "b,\"c\"".toList], ["".toList, "d".toList]] := by decide

/-- A field that stands for itself without quotes. -/
def Plain (field : List Char) : Prop :=
  ∀ ch ∈ field, ch ≠ ',' ∧ ch ≠ '\n' ∧ ch ≠ '\r' ∧ ch ≠ '"'

instance (field : List Char) : Decidable (Plain field) :=
  List.decidableBAll _ field

section Plain

variable {ch : Char} {field rest : List Char}

-- the equations of `read` are made here, once for all the proofs that rewrite with them
attribute [local simp] read

theorem plain_nil : Plain [] :=
  List.forall_mem_nil _

theorem plain_cons :
    Plain (ch :: field) ↔ (ch ≠ ',' ∧ ch ≠ '\n' ∧ ch ≠ '\r' ∧ ch ≠ '"') ∧ Plain field :=
  List.forall_mem_cons

/-! ## Reading plain fields -/

theorem read_plain_cons (hcomma : ch ≠ ',') (hline : ch ≠ '\n') (hreturn : ch ≠ '\r')
    (hquote : ch ≠ '"') :
    read .plain (ch :: rest) = (read .plain rest).map (Reading.put ch) := by
  rw [read, if_neg hcomma, if_neg hline, if_neg hreturn]
  exact if_neg hquote

/-- At the start of a field, only a quote makes a difference. -/
theorem read_start_eq (hquote : ch ≠ '"') :
    read .start (ch :: rest) = read .plain (ch :: rest) := by
  simp [read, hquote]

theorem read_comma : read .plain (',' :: rest) = (read .start rest).map Reading.next := by
  simp [read]

theorem read_line : read .plain ('\n' :: rest) = (parse rest).map (⟨[], [], ·⟩) := by
  have hend : read .plain ('\n' :: rest) = endRow rest (read .start rest) := by
    simp [read]
  rw [hend, endRow, parse]
  split_ifs with hrest
  · rfl
  · rw [Option.map_map]
    rfl

/-- A plain field is read as it stands. -/
theorem read_plain_append (h : Plain field) :
    read .plain (field ++ rest) = (read .plain rest).map (Reading.putAll field) := by
  induction field with
  | nil =>
    show read .plain rest = (read .plain rest).map id
    rw [Option.map_id, id]
  | cons ch field ih =>
    obtain ⟨⟨hcomma, hline, hreturn, hquote⟩, hfield⟩ := plain_cons.mp h
    rw [List.cons_append, read_plain_cons hcomma hline hreturn hquote, ih hfield, Option.map_map]
    rfl

/-- The same at the start of a field, if it does not stand in front of a quote. -/
theorem read_start_append (h : Plain field) (hch : ch ≠ '"') :
    read .start (field ++ ch :: rest) =
      (read .plain (ch :: rest)).map (Reading.putAll field) := by
  rw [← read_plain_append h]
  cases field with
  | nil => exact read_start_eq hch
  | cons first field => exact read_start_eq (plain_cons.mp h).1.2.2.2

/-- A row of plain fields is read field by field. -/
theorem read_row (h : Plain field) {fields : List (List Char)}
    (hfields : ∀ field ∈ fields, Plain field) :
    read .start (List.intercalate [','] (field :: fields) ++ '\n' :: rest) =
      (parse rest).map (⟨field, fields, ·⟩) := by
  induction fields generalizing field with
  | nil =>
    rw [List.intercalate_singleton, read_start_append h (by decide), read_line, Option.map_map]
    simp [Function.comp_def, Reading.putAll]
  | cons next fields ih =>
    obtain ⟨hnext, hrest⟩ := List.forall_mem_cons.mp hfields
    rw [List.intercalate_cons_cons, List.append_assoc, List.append_assoc, List.singleton_append,
      read_start_append h (by decide), read_comma, ih hnext hrest, Option.map_map, Option.map_map]
    simp [Function.comp_def, Reading.putAll, Reading.next]

/-- A line of plain fields is read as these fields. -/
theorem parse_row {fields : List (List Char)} (hne : fields ≠ [])
    (h : ∀ field ∈ fields, Plain field) :
    parse (List.intercalate [','] fields ++ '\n' :: rest) = (parse rest).map (fields :: ·) := by
  cases fields with
  | nil => exact absurd rfl hne
  | cons field fields =>
    obtain ⟨hfield, hfields⟩ := List.forall_mem_cons.mp h
    rw [parse, if_neg (by simp), read_row hfield hfields, Option.map_map]
    rfl

/-! ## Fields that come back -/

/-- A field with its quotes doubled. -/
def doubled (field : List Char) : List Char :=
  field.flatMap fun ch => if ch = '"' then ['"', '"'] else [ch]

/-- No quotes are left over at the front of a text that holds them twice. -/
theorem ne_of_doubled (n : ℕ) (behind : List Char) :
    field ++ ',' :: rest ≠ List.replicate (n + 1) '"' ++ (doubled field ++ behind) := by
  induction field generalizing n with
  | nil =>
    rw [List.replicate_succ]
    exact fun heq => absurd (List.cons.inj heq).1 (by decide)
  | cons ch field ih =>
    intro heq
    rw [List.replicate_succ] at heq
    obtain ⟨rfl, heq⟩ := List.cons.inj heq
    refine ih (n + 1) (heq.trans ?_)
    simp [doubled, List.replicate_succ']

/-- A line break ends the field. -/
theorem field_endRow {reading : Reading} {behind : Option Reading}
    (h : endRow rest behind = some reading) : reading.field = [] := by
  unfold endRow at h
  split_ifs at h with hrest
  · exact (Option.some.inj h) ▸ rfl
  · obtain ⟨next, -, rfl⟩ := Option.map_eq_some_iff.mp h
    rfl

/-- Nothing is in the field behind a carriage return. -/
theorem field_carriage {reading : Reading} (h : read .carriage rest = some reading) :
    reading.field = [] := by
  cases rest with
  | nil => cases h
  | cons ch rest =>
    rw [read] at h
    split_ifs at h
    exact field_endRow h

/-- Outside of quotes, a comma or a line break ends the field. -/
theorem field_separator {mode : Mode} {reading : Reading} (hmode : mode ≠ .quoted)
    (hch : ch = ',' ∨ ch = '\n' ∨ ch = '\r') (h : read mode (ch :: rest) = some reading) :
    reading.field = [] := by
  cases mode with
  | quoted => exact absurd rfl hmode
  | carriage =>
    exact field_carriage h
  | start | plain | closed =>
    rcases hch with rfl | rfl | rfl
    · obtain ⟨next, -, rfl⟩ := Option.map_eq_some_iff.mp ((if_pos rfl).symm.trans h)
      rfl
    · exact field_endRow h
    · exact field_carriage h

/-- A character in a field without quotes either ends it or is one of it. -/
theorem read_plain_cases {reading : Reading} (h : read .plain (ch :: rest) = some reading) :
    reading.field = [] ∨
      (ch ≠ ',' ∧ ch ≠ '\n' ∧ ch ≠ '\r' ∧ ch ≠ '"') ∧
        ∃ next, read .plain rest = some next ∧ reading.field = ch :: next.field := by
  by_cases hend : ch = ',' ∨ ch = '\n' ∨ ch = '\r'
  · exact .inl (field_separator (by decide) hend h)
  · obtain ⟨hcomma, hline, hreturn⟩ := by simpa only [not_or] using hend
    by_cases hquote : ch = '"'
    · simp [read, hquote] at h
    · rw [read_plain_cons hcomma hline hreturn hquote] at h
      obtain ⟨next, hnext, rfl⟩ := Option.map_eq_some_iff.mp h
      exact .inr ⟨⟨hcomma, hline, hreturn, hquote⟩, next, hnext, rfl⟩

/-- Behind a quote the field ends, or the quote was the first of two. -/
theorem read_closed_cases {text : List Char} {reading : Reading}
    (h : read .closed text = some reading) :
    reading.field = [] ∨ ∃ rest next, text = '"' :: rest ∧ read .quoted rest = some next ∧
      reading.field = '"' :: next.field := by
  cases text with
  | nil => exact .inl (Option.some.inj h ▸ rfl)
  | cons ch rest =>
    by_cases hend : ch = ',' ∨ ch = '\n' ∨ ch = '\r'
    · exact .inl (field_separator (by decide) hend h)
    · obtain ⟨hcomma, hline, hreturn⟩ := by simpa only [not_or] using hend
      by_cases hquote : ch = '"'
      · subst hquote
        obtain ⟨next, hnext, rfl⟩ := Option.map_eq_some_iff.mp
          (show (read .quoted rest).map (Reading.put '"') = some reading from h)
        exact .inr ⟨rest, next, rfl, hnext, rfl⟩
      · simp [read, hcomma, hline, hreturn, hquote] at h

/-- What is read between quotes stands there with its quotes doubled, up to the one that closes. -/
theorem text_of_quoted {text : List Char} :
    (∀ {reading}, read .quoted text = some reading →
      ∃ behind, text = doubled reading.field ++ '"' :: behind) ∧
    ∀ {reading}, read .closed text = some reading →
      ∃ behind, '"' :: text = doubled reading.field ++ '"' :: behind := by
  induction text with
  | nil =>
    refine ⟨fun h => absurd h (by simp [read]), fun h => ⟨[], ?_⟩⟩
    obtain rfl := Option.some.inj h
    rfl
  | cons ch text ih =>
    constructor
    · intro reading h
      by_cases hquote : ch = '"'
      · subst hquote
        exact ih.2 h
      · rw [read, if_neg hquote] at h
        obtain ⟨next, hnext, rfl⟩ := Option.map_eq_some_iff.mp h
        obtain ⟨behind, htext⟩ := ih.1 hnext
        exact ⟨behind, by rw [htext]; simp [doubled, Reading.put, hquote]⟩
    · intro reading h
      rcases read_closed_cases h with hend | ⟨rest, next, heq, hnext, hput⟩
      · exact ⟨ch :: text, by rw [hend]; rfl⟩
      · obtain ⟨rfl, rfl⟩ := List.cons.inj heq
        obtain ⟨behind, htext⟩ := ih.1 hnext
        exact ⟨behind, by rw [hput, htext]; rfl⟩

/-- A field that is read as it stands in the middle of a field is plain. -/
theorem plain_of_read_plain {reading : Reading}
    (h : read .plain (field ++ rest) = some reading) (hfield : reading.field = field) :
    Plain field := by
  induction field generalizing reading with
  | nil => exact plain_nil
  | cons ch field ih =>
    rcases read_plain_cases h with hend | ⟨hch, next, hnext, hput⟩
    · rw [hend] at hfield
      cases hfield
    · rw [hput] at hfield
      exact plain_cons.mpr ⟨hch, ih hnext (List.cons.inj hfield).2⟩

/-- A field that is read as it stands is plain. -/
theorem plain_of_read {reading : Reading}
    (h : read .start (field ++ ',' :: rest) = some reading) (hfield : reading.field = field) :
    Plain field := by
  cases field with
  | nil => exact plain_nil
  | cons ch field =>
    by_cases hquote : ch = '"'
    · subst hquote
      have hquoted : read .quoted (field ++ ',' :: rest) = some reading := h
      obtain ⟨behind, htext⟩ := text_of_quoted.1 hquoted
      rw [hfield] at htext
      -- the text begins with the field, but also with the quote that stands twice in it
      exact absurd htext (ne_of_doubled 1 _)
    · rw [List.cons_append, read_start_eq hquote, ← List.cons_append] at h
      exact plain_of_read_plain h hfield

/-- A field that comes back as it stands in front of a comma is plain. -/
theorem plain_of_parse {row : List (List Char)} {rows : List (List (List Char))}
    (h : parse (field ++ ',' :: rest) = some ((field :: row) :: rows)) : Plain field := by
  rw [parse, if_neg (by simp)] at h
  obtain ⟨reading, hread, htable⟩ := Option.map_eq_some_iff.mp h
  exact plain_of_read hread (List.cons.inj (List.cons.inj htable).1).1

end Plain

end Csv
