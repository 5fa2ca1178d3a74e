import Aethon.Foundation.Csv
import Aethon.Storage.ArchiveExport

/-!
# The rows of the CSV export

The header and the rows of references are read back by `Csv.parse`. Numbers and names never need
quotes, so `csv_export_iff` is about the paths alone: the export puts none around them.
-/

namespace Aethon.Storage

open Text

/-! ## What is under a column -/

/-- The columns that have a value of the reference under them. -/
def columnValues (ref : ArchiveCollectionRecordRef) : List (Text × Text) :=
  [("archive_path".toList, ref.path.chars), ("offset".toList, decimal ref.offset.toNat),
    ("capture_time_ns".toList, decimal ref.captureTimeNs.toNat),
    ("device".toList, decimal ref.device.toNat), ("sequence".toList, decimal ref.sequence.toNat),
    ("payload_size".toList, decimal ref.payloadSize.toNat)]

/-- The field under a column is its value, if it has one. -/
def Under (ref : ArchiveCollectionRecordRef) (column field : Text) : Prop :=
  ∀ value, (column, value) ∈ columnValues ref → field = value

/-- As many fields as there are columns, each the value under its column. -/
def RowOf (columns : List Text) (ref : ArchiveCollectionRecordRef) (row : List Text) : Prop :=
  List.Forall₂ (Under ref) columns row

/-- The header, if there is one, and a row for each reference. -/
def ReadsAsRows (options : ArchiveExportWriterOptions) (refs : List ArchiveCollectionRecordRef)
    (output : Text) : Prop :=
  ∃ rows, Csv.parse output =
      some ((if options.includeHeader then [csvRecordColumns options] else []) ++ rows) ∧
    List.Forall₂ (RowOf (csvRecordColumns options)) refs rows

variable {ref : ArchiveCollectionRecordRef} {refs : List ArchiveCollectionRecordRef}
  {options : ArchiveExportWriterOptions}

/-- A value stands under its column. -/
theorem under_of_mem {column field : Text} (h : (column, field) ∈ columnValues ref) :
    Under ref column field := by
  have hkeys : ((columnValues ref).map Prod.fst).Nodup := by
    show ["archive_path".toList, "offset".toList, "capture_time_ns".toList, "device".toList,
      "sequence".toList, "payload_size".toList].Nodup
    decide
  intro value hvalue
  exact congrArg Prod.snd (List.inj_on_of_nodup_map hkeys h hvalue rfl)

theorem under_kind (field : Text) : Under ref "kind".toList field := by
  have hkeys : "kind".toList ∉ (columnValues ref).map Prod.fst := by
    show "kind".toList ∉ ["archive_path".toList, "offset".toList, "capture_time_ns".toList,
      "device".toList, "sequence".toList, "payload_size".toList]
    decide
  exact fun value hvalue => absurd (List.mem_map_of_mem hvalue) hkeys

theorem under_field_if {column field : Text} (included : Bool) (h : Under ref column field) :
    List.Forall₂ (Under ref) (fieldIf included column) (fieldIf included field) := by
  cases included with
  | false => exact .nil
  | true => exact .cons h .nil

/-- The switches leave out a column and its field together. -/
theorem row_of_fields (options : ArchiveExportWriterOptions) (ref : ArchiveCollectionRecordRef) :
    RowOf (csvRecordColumns options) ref (csvRefFields ref options) := by
  refine List.rel_append (List.rel_append (List.rel_append (List.rel_append
    (under_field_if _ ?path) (under_field_if _ ?offset)) (.cons ?time (.cons ?device
      (.cons ?sequence .nil)))) (under_field_if _ (under_kind _))) (under_field_if _ ?payload)
  case path => exact under_of_mem (.head _)
  case offset => exact under_of_mem (.tail _ (.head _))
  case time => exact under_of_mem (.tail _ (.tail _ (.head _)))
  case device => exact under_of_mem (.tail _ (.tail _ (.tail _ (.head _))))
  case sequence => exact under_of_mem (.tail _ (.tail _ (.tail _ (.tail _ (.head _)))))
  case payload => exact under_of_mem (.tail _ (.tail _ (.tail _ (.tail _ (.tail _ (.head _))))))

/-! ## Plain fields -/

theorem plain_decimal (n : ℕ) : Csv.Plain (decimal n) := by
  intro ch hch
  have hdigit := isDigit_of_mem_decimal hch
  refine ⟨?_, ?_, ?_, ?_⟩ <;> rintro rfl <;> exact absurd hdigit (by decide)

/-- Fields of which each is plain if it is there. -/
theorem plain_field_if {included : Bool} {field : Text} (h : included = true → Csv.Plain field) :
    ∀ text ∈ fieldIf included field, Csv.Plain text := by
  cases included with
  | false => exact List.forall_mem_nil _
  | true => exact List.forall_mem_singleton.mpr (h rfl)

theorem plain_columns (options : ArchiveExportWriterOptions) :
    ∀ column ∈ csvRecordColumns options, Csv.Plain column := by
  simp only [csvRecordColumns, List.forall_mem_append]
  refine ⟨⟨⟨⟨plain_field_if fun _ => ?_, plain_field_if fun _ => ?_⟩, ?_⟩,
    plain_field_if fun _ => ?_⟩, plain_field_if fun _ => ?_⟩ <;> decide

/-- Only the path may hold what needs quotes. -/
theorem plain_ref_fields (h : options.includeArchivePath = true → Csv.Plain ref.path.chars) :
    ∀ field ∈ csvRefFields ref options, Csv.Plain field := by
  simp only [csvRefFields, List.forall_mem_append]
  refine ⟨⟨⟨⟨plain_field_if h, plain_field_if fun _ => plain_decimal _⟩, ?_⟩,
    plain_field_if fun _ => by decide⟩, plain_field_if fun _ => plain_decimal _⟩
  simp [plain_decimal]

/-! ## Reading -/

theorem columns_ne_nil (options : ArchiveExportWriterOptions) : csvRecordColumns options ≠ [] := by
  simp [csvRecordColumns]

theorem ref_fields_ne_nil : csvRefFields ref options ≠ [] := by
  simp [csvRefFields]

theorem parse_ref (h : options.includeArchivePath = true → Csv.Plain ref.path.chars) (rest : Text) :
    Csv.parse (writeCsvRef ref options ++ rest) =
      (Csv.parse rest).map (csvRefFields ref options :: ·) := by
  rw [writeCsvRef, commaJoined, List.append_assoc, List.singleton_append]
  exact Csv.parse_row ref_fields_ne_nil (plain_ref_fields h)

/-- The lines of references are parsed as their fields. -/
theorem parse_refs
    (h : options.includeArchivePath = true → ∀ ref ∈ refs, Csv.Plain ref.path.chars) :
    Csv.parse (refs.flatMap fun ref => writeCsvRef ref options) =
      some (refs.map fun ref => csvRefFields ref options) := by
  induction refs with
  | nil => rfl
  | cons ref refs ih =>
    have href := fun hincluded => h hincluded ref (List.mem_cons_self ..)
    rw [List.flatMap_cons, parse_ref href,
      ih fun hincluded ref hmem => h hincluded ref (List.mem_cons_of_mem _ hmem)]
    rfl

/-- The path in front of a row that comes back is plain. -/
theorem plain_path_of_parse (hincluded : options.includeArchivePath = true) {row : List Text}
    {rows : List (List Text)} {rest : Text}
    (hparse : Csv.parse (writeCsvRef ref options ++ rest) = some (row :: rows))
    (hrow : RowOf (csvRecordColumns options) ref row) : Csv.Plain ref.path.chars := by
  obtain ⟨behind, hbehind⟩ : ∃ behind,
      writeCsvRef ref options ++ rest = ref.path.chars ++ ',' :: behind := by
    have hfields : csvRefFields ref options =
        ref.path.chars :: csvRefFields ref { options with includeArchivePath := false } := by
      rw [csvRefFields, hincluded]
      rfl
    rw [writeCsvRef, commaJoined, hfields, List.intercalate_cons_of_ne_nil ref_fields_ne_nil]
    rw [List.append_assoc, List.append_assoc, List.append_assoc]
    exact ⟨_, rfl⟩
  have hcolumns : csvRecordColumns options =
      "archive_path".toList :: csvRecordColumns { options with includeArchivePath := false } := by
    rw [csvRecordColumns, hincluded]
    rfl
  rw [hcolumns] at hrow
  cases hrow with
  | cons hpath hrest =>
    rw [hbehind, hpath _ (.head _)] at hparse
    exact Csv.plain_of_parse hparse

/-- Only plain paths are parsed as they were. -/
theorem plain_of_parse_refs (hincluded : options.includeArchivePath = true)
    {rows : List (List Text)}
    (hparse : Csv.parse (refs.flatMap fun ref => writeCsvRef ref options) = some rows)
    (hrows : List.Forall₂ (RowOf (csvRecordColumns options)) refs rows) :
    ∀ ref ∈ refs, Csv.Plain ref.path.chars := by
  induction hrows with
  | nil => exact List.forall_mem_nil _
  | cons hrow hrows ih =>
    rw [List.flatMap_cons] at hparse
    have hplain := plain_path_of_parse hincluded hparse hrow
    rw [parse_ref fun _ => hplain] at hparse
    obtain ⟨behind, hbehind, heq⟩ := Option.map_eq_some_iff.mp hparse
    obtain rfl := (List.cons.inj heq).2
    exact List.forall_mem_cons.mpr ⟨hplain, ih hbehind⟩

/-- The header is read back in front of the rows. -/
theorem parse_header (hformat : options.format = .csv) (rest : Text) :
    Csv.parse (ArchiveRecordExportWriter.writeHeader options ++ rest) =
      (Csv.parse rest).map
        ((if options.includeHeader then [csvRecordColumns options] else []) ++ ·) := by
  cases hheader : options.includeHeader with
  | false => simp [ArchiveRecordExportWriter.writeHeader, hheader]
  | true =>
    have hwrite : ArchiveRecordExportWriter.writeHeader options = writeCsvRecordHeader options := by
      simp [ArchiveRecordExportWriter.writeHeader, hheader, hformat]
    rw [hwrite, writeCsvRecordHeader, commaJoined, List.append_assoc, List.singleton_append]
    exact Csv.parse_row (columns_ne_nil options) (plain_columns options)

/-- The export is read back exactly when the paths in it, if there are any, need no quotes. -/
theorem csv_export_iff (options : ArchiveExportWriterOptions) (hformat : options.format = .csv)
    (refs : List ArchiveCollectionRecordRef) :
    ReadsAsRows options refs (ArchiveRecordExportWriter.writeHeader options ++
        refs.flatMap (ArchiveRecordExportWriter.writeRef options)) ↔
      (options.includeArchivePath = true → ∀ ref ∈ refs, Csv.Plain ref.path.chars) := by
  have hwrite : ArchiveRecordExportWriter.writeRef options =
      fun ref => writeCsvRef ref options := by
    funext ref
    rw [ArchiveRecordExportWriter.writeRef, hformat]
  rw [ReadsAsRows, hwrite, parse_header hformat]
  constructor
  · rintro ⟨rows, hparse, hrows⟩ hincluded
    obtain ⟨behind, hbehind, heq⟩ := Option.map_eq_some_iff.mp hparse
    obtain rfl := List.append_cancel_left heq
    exact plain_of_parse_refs hincluded hbehind hrows
  · intro hplain
    refine ⟨refs.map fun ref => csvRefFields ref options, ?_, ?_⟩
    · exact congrArg _ (parse_refs hplain)
    · rw [List.forall₂_map_right_iff]
      exact List.forall₂_same.mpr fun ref _ => row_of_fields options ref

/-- Two references without their paths, one of which has a comma in it. -/
theorem csv_export_without_paths :
    let options : ArchiveExportWriterOptions := { includeArchivePath := false }
    let refs : List ArchiveCollectionRecordRef :=
      [{ path := ⟨"a,b"⟩ }, { path := ⟨"c.log"⟩, offset := 36, captureTimeNs := 5 }]
    ReadsAsRows options refs (ArchiveRecordExportWriter.writeHeader options ++
      refs.flatMap (ArchiveRecordExportWriter.writeRef options)) := by
  intro options refs
  exact (csv_export_iff options rfl refs).mpr fun hincluded => absurd hincluded (by decide)

/-- A comma in a path splits it: the row has a field more than the header. -/
theorem comma_in_path_exported :
    let options : ArchiveExportWriterOptions := {}
    let ref : ArchiveCollectionRecordRef := { path := ⟨"a,b"⟩ }
    let output := ArchiveRecordExportWriter.writeHeader options ++
      [ref].flatMap (ArchiveRecordExportWriter.writeRef options)
    Csv.parse output = some [csvRecordColumns options,
      ["a", "b", "0", "0", "0", "0", "unknown", "0"].map String.toList] ∧
      ¬ReadsAsRows options [ref] output := by
  intro options ref output
  have hread : Csv.parse ([ref].flatMap (ArchiveRecordExportWriter.writeRef options)) =
      some [["a", "b", "0", "0", "0", "0", "unknown", "0"].map String.toList] := by decide
  have hparse : Csv.parse output = some [csvRecordColumns options,
      ["a", "b", "0", "0", "0", "0", "unknown", "0"].map String.toList] := by
    rw [parse_header rfl, hread]
    rfl
  refine ⟨hparse, ?_⟩
  rintro ⟨rows, hrows, hmatch⟩
  obtain rfl := (List.cons.inj (Option.some.inj (hparse.symm.trans hrows))).2
  obtain ⟨hrow, -⟩ := List.forall₂_cons.mp hmatch
  exact absurd hrow.length_eq (by decide)

end Aethon.Storage
