import Aethon.Diagnostics.JsonWriter
import Aethon.Storage.ArchiveExport

/-!
# The lines of the JSON export

The export has an escaping of its own, which leaves control bytes as they are. `Renders` says of a
text when it is well-formed, and is put together along the structure of the lines:
`escape_json_string_iff` says for which strings the lines are objects.
-/

namespace Aethon.Storage

open Text Diagnostics

/-! ## Escaping -/

/-- The control bytes of the text are those that the export escapes. -/
def Exportable (text : Text) : Prop :=
  Json.Tame text

/-- A character is escaped to a text of a backslash and a letter, or stands for itself. -/
theorem escape_json_char_cases (ch : Char) :
    (∃ letter, escapeJsonChar ch = ['\\', letter] ∧ jsonEscapeChar ch = ['\\', letter] ∧
      letter ≠ '\n' ∧ (ch.toNat < 0x20 → ch ∈ ['\t', '\n', '\r'])) ∨
    escapeJsonChar ch = [ch] ∧ ch ∉ ['\t', '\n', '\r'] ∧
      jsonEscapeChar ch = if ch.toNat < 0x20 then hexEscape ch else [ch] := by
  unfold escapeJsonChar
  split
  · exact .inl ⟨_, rfl, rfl, by decide, by decide⟩
  · exact .inl ⟨_, rfl, rfl, by decide, by decide⟩
  · exact .inl ⟨_, rfl, rfl, by decide, by decide⟩
  · exact .inl ⟨_, rfl, rfl, by decide, by decide⟩
  · exact .inl ⟨_, rfl, rfl, by decide, by decide⟩
  · next hslash hquote hnewline hreturn htab =>
    refine .inr ⟨rfl, ?_, ?_⟩
    · simpa using ⟨htab, hnewline, hreturn⟩
    · unfold jsonEscapeChar
      split <;> first | contradiction | rfl

theorem escape_json_char_eq {ch : Char} (h : ch.toNat < 0x20 → ch ∈ ['\t', '\n', '\r']) :
    escapeJsonChar ch = jsonEscapeChar ch := by
  rcases escape_json_char_cases ch with ⟨letter, hexport, hdiagnostics, -⟩ | ⟨hraw, hnot, hescape⟩
  · rw [hexport, hdiagnostics]
  · rw [hraw, hescape, if_neg fun hcontrol => hnot (h hcontrol)]

theorem escape_json_string_eq {text : Text} (h : Exportable text) :
    escapeJsonString text = jsonEscape text := by
  rw [escapeJsonString, jsonEscape, List.flatMap_def, List.flatMap_def]
  exact congrArg List.flatten (List.map_congr_left fun ch hch => escape_json_char_eq (h ch hch))

/-- What the export does not escape stands in its text. -/
theorem exportable_of_tame {text : Text} (h : Json.Tame (escapeJsonString text)) :
    Exportable text := by
  intro ch hch hcontrol
  rcases escape_json_char_cases ch with ⟨letter, -, -, -, hescaped⟩ | ⟨hraw, -⟩
  · exact hescaped hcontrol
  · refine h ch (List.mem_flatMap.mpr ⟨ch, hch, ?_⟩) hcontrol
    rw [hraw]
    exact List.mem_singleton_self ch

/-- An escaped text is read as itself exactly when it can be exported. -/
theorem decode_escape_json_iff (text : Text) :
    Json.decode (escapeJsonString text) = some text ↔ Exportable text := by
  constructor
  · intro hdecode
    exact exportable_of_tame (Json.tame_of_not_control (Json.not_control_of_decode hdecode))
  · intro hfits
    rw [escape_json_string_eq hfits]
    exact decode_json_escape text

/-- An escaped text is one line. -/
theorem newline_notMem_escape (text : Text) : '\n' ∉ escapeJsonString text := by
  intro hmem
  obtain ⟨ch, -, hch⟩ := List.mem_flatMap.mp hmem
  rcases escape_json_char_cases ch with ⟨letter, hescape, -, hletter, -⟩ | ⟨hraw, hnot, -⟩
  · rw [hescape] at hch
    simp [hletter.symm] at hch
  · rw [hraw, List.mem_singleton] at hch
    exact hnot (hch ▸ by decide)

/-! ## Texts of values -/

/-- The text stands in one line, spells a value of the shape under the condition and has a control
byte in it otherwise. -/
structure Renders (shape : Json.Value → Prop) (fits : Prop) (text : Text) : Prop where
  oneLine : '\n' ∉ text
  spells : fits → ∃ value, shape value ∧ Json.Spells value text
  fits : Json.Tame text → fits

/-- The fields stand in one line, are the members of an object under the condition and have a
control byte in them otherwise. -/
structure RendersFields (fits : Prop) (fields : List Text) : Prop where
  oneLine : ∀ field ∈ fields, '\n' ∉ field
  members : fits → ∃ members : List Json.Member,
    (∀ member ∈ members, member.Named ∧
      Json.Spells member.element.value member.element.text) ∧
    fields = members.map Json.Member.padded
  fits : (∀ field ∈ fields, Json.Tame field) → fits

/-- Any value at all. -/
def AnyValue (_ : Json.Value) : Prop := True

/-- A value that is an object. -/
def IsObject (value : Json.Value) : Prop :=
  ∃ members, value = .object members

/-- A text that renders a value of some shape renders a value. -/
theorem Renders.any {shape : Json.Value → Prop} {fits : Prop} {text : Text}
    (h : Renders shape fits text) : Renders AnyValue fits text where
  oneLine := h.oneLine
  spells hfits := by
    obtain ⟨value, -, hspells⟩ := h.spells hfits
    exact ⟨value, trivial, hspells⟩
  fits := h.fits

theorem Renders.congr {shape : Json.Value → Prop} {fits fits' : Prop} {text : Text}
    (h : Renders shape fits text) (hiff : fits ↔ fits') : Renders shape fits' text where
  oneLine := h.oneLine
  spells hfits := h.spells (hiff.mpr hfits)
  fits htame := hiff.mp (h.fits htame)

/-- A text that always spells a value. -/
theorem renders_of_spells {value : Json.Value} {text : Text} (h : Json.Spells value text)
    (hline : '\n' ∉ text) : Renders AnyValue True text :=
  ⟨hline, fun _ => ⟨value, trivial, h⟩, fun _ => trivial⟩

theorem newline_notMem_decimal (n : ℕ) : '\n' ∉ decimal n :=
  fun hmem => absurd (isDigit_of_mem_decimal hmem) (by decide)

theorem renders_decimal (n : ℕ) : Renders AnyValue True (decimal n) :=
  renders_of_spells (.number (@Json.is_number_toDigits [] (by decide) n))
    (newline_notMem_decimal n)

/-- A number with a sign renders. -/
theorem renders_signed (n : ℤ) : Renders AnyValue True (signedDecimal n) := by
  unfold signedDecimal
  split
  · refine renders_of_spells (.number (@Json.is_number_toDigits ['-'] (by decide) n.natAbs)) ?_
    exact List.not_mem_cons_of_ne_of_not_mem (by decide) (newline_notMem_decimal _)
  · exact renders_decimal n.natAbs

/-- A name without quotes, backslashes and control bytes. -/
def PlainName (text : Text) : Prop :=
  ∀ ch ∈ text, ch ≠ '\\' ∧ ch ≠ '"' ∧ ¬ch.toNat < 0x20

instance (text : Text) : Decidable (PlainName text) :=
  List.decidableBAll _ text

/-- A text between two other characters stands in one line. -/
theorem newline_notMem_between {first last : Char} {text : Text} (hfirst : first ≠ '\n')
    (htext : '\n' ∉ text) (hlast : last ≠ '\n') : '\n' ∉ first :: (text ++ [last]) := by
  rw [List.mem_cons, List.mem_append, List.mem_singleton]
  rintro (heq | hmem | heq)
  · exact hfirst heq.symm
  · exact htext hmem
  · exact hlast heq.symm

theorem PlainName.oneLine {text : Text} (h : PlainName text) : '\n' ∉ inQuotes text :=
  newline_notMem_between (by decide) (fun hmem => (h '\n' hmem).2.2 (by decide)) (by decide)

theorem renders_name {text : Text} (h : PlainName text) :
    Renders AnyValue True (inQuotes text) :=
  renders_of_spells (.string (Json.decode_of_plain h)) h.oneLine

/-- An escaped text renders exactly when it can be exported. -/
theorem renders_escaped (text : Text) :
    Renders AnyValue (Exportable text) (inQuotes (escapeJsonString text)) where
  oneLine := newline_notMem_between (by decide) (newline_notMem_escape text) (by decide)
  spells hfits := ⟨.string text, trivial, .string ((decode_escape_json_iff text).mpr hfits)⟩
  fits htame := by
    rw [inQuotes, Json.tame_cons (by decide), Json.tame_append] at htame
    exact exportable_of_tame htame.1

/-! ## Objects -/

theorem fields_nil : RendersFields True [] where
  oneLine field hfield := by cases hfield
  members _ := ⟨[], List.forall_mem_nil _, rfl⟩
  fits _ := trivial

/-- Fields render when both parts do. -/
theorem RendersFields.append {front behind : List Text} {fits fits' : Prop}
    (h : RendersFields fits front) (h' : RendersFields fits' behind) :
    RendersFields (fits ∧ fits') (front ++ behind) where
  oneLine := List.forall_mem_append.mpr ⟨h.oneLine, h'.oneLine⟩
  members := by
    rintro ⟨hfits, hfits'⟩
    obtain ⟨members, hmembers, rfl⟩ := h.members hfits
    obtain ⟨members', hmembers', rfl⟩ := h'.members hfits'
    exact ⟨members ++ members', List.forall_mem_append.mpr ⟨hmembers, hmembers'⟩,
      List.map_append.symm⟩
  fits htame := by
    obtain ⟨hfront, hbehind⟩ := List.forall_mem_append.mp htame
    exact ⟨h.fits hfront, h'.fits hbehind⟩

/-- A field renders when its value does. -/
theorem RendersFields.single {name : String} {value : Text} {fits : Prop}
    (hname : PlainName name.toList) (h : Renders AnyValue fits value) :
    RendersFields fits [jsonField name value] where
  oneLine field hfield := by
    rw [List.mem_singleton.mp hfield, jsonField, List.mem_append, List.mem_cons, not_or, not_or]
    exact ⟨hname.oneLine, by decide, h.oneLine⟩
  members hfits := by
    obtain ⟨parsed, -, hspells⟩ := h.spells hfits
    refine ⟨[.compact name.toList name.toList parsed value], ?_, ?_⟩
    · intro member hmember
      rw [List.mem_singleton.mp hmember]
      exact ⟨Json.Member.named_compact (Json.decode_of_plain hname) parsed value, hspells⟩
    · rw [List.map_singleton, Json.Member.padded_compact]
      rfl
  fits htame := by
    have hfield := htame _ (List.mem_singleton_self _)
    rw [jsonField, Json.tame_append, Json.tame_cons (by decide)] at hfield
    exact h.fits hfield.2

theorem RendersFields.cons {name : String} {value : Text} {fields : List Text} {fits fits' : Prop}
    (hname : PlainName name.toList) (h : Renders AnyValue fits value)
    (h' : RendersFields fits' fields) :
    RendersFields (fits ∧ fits') (jsonField name value :: fields) :=
  (RendersFields.single hname h).append h'

/-- A field that may be left out renders when its value does or it is left out. -/
theorem RendersFields.fieldIf {name : String} {value : Text} {fits : Prop} (included : Bool)
    (hname : PlainName name.toList) (h : Renders AnyValue fits value) :
    RendersFields (included = true → fits) (fieldIf included (jsonField name value)) := by
  cases included with
  | false => simpa [Aethon.Storage.fieldIf] using fields_nil
  | true => simpa [Aethon.Storage.fieldIf] using RendersFields.single hname h

/-- Fields are one line when each is. -/
theorem newline_notMem_joined {fields : List Text} (h : ∀ field ∈ fields, '\n' ∉ field) :
    '\n' ∉ commaJoined fields := by
  induction fields with
  | nil => exact List.not_mem_nil
  | cons field fields ih =>
    obtain ⟨hfield, hfields⟩ := List.forall_mem_cons.mp h
    cases fields with
    | nil => simpa [commaJoined] using hfield
    | cons next fields =>
      rw [commaJoined, List.intercalate_cons_cons, List.mem_append, List.mem_append,
        List.mem_singleton]
      rintro ((hmem | heq) | hmem)
      · exact hfield hmem
      · exact absurd heq (by decide)
      · exact ih hfields hmem

/-- No field has a control character when the joined text has none. -/
theorem tame_of_joined {fields : List Text} (h : Json.Tame (commaJoined fields)) :
    ∀ field ∈ fields, Json.Tame field := by
  induction fields with
  | nil => exact fun field hfield => absurd hfield List.not_mem_nil
  | cons field fields ih =>
    cases fields with
    | nil => simpa [commaJoined] using h
    | cons next fields =>
      rw [commaJoined, List.intercalate_cons_cons, Json.tame_append, Json.tame_append] at h
      exact List.forall_mem_cons.mpr ⟨h.1.1, ih h.2⟩

/-- An object renders when its fields do. -/
theorem RendersFields.object {fields : List Text} {fits : Prop} (h : RendersFields fits fields) :
    Renders IsObject fits (jsonObject fields) where
  oneLine := newline_notMem_between (by decide) (newline_notMem_joined h.oneLine) (by decide)
  spells hfits := by
    obtain ⟨members, hmembers, rfl⟩ := h.members hfits
    exact ⟨_, ⟨_, rfl⟩, Json.Spells.object Json.isSpace_nil (fun member hmember =>
      (hmembers member hmember).1) fun member hmember => (hmembers member hmember).2⟩
  fits htame := by
    rw [jsonObject, Json.tame_cons (by decide), Json.tame_append] at htame
    exact h.fits (tame_of_joined htame.1)

theorem plain_packet_kind (kind : Protocol.PacketKind) : PlainName kind.name := by
  unfold Protocol.PacketKind.name
  split_ifs <;> decide

theorem plain_diff_kind (kind : ManifestDiffKind) : PlainName kind.name := by
  cases kind <;> decide

theorem renders_bool (value : Bool) : Renders AnyValue True (boolString value) := by
  cases value with
  | false => exact renders_of_spells .false (by decide)
  | true => exact renders_of_spells .true (by decide)

/-- The line of a record renders when its path can be exported. -/
theorem renders_record_line (record : ArchiveRecord) (options : ArchiveExportWriterOptions)
    (path : Path) :
    Renders IsObject (options.includeArchivePath = true → Exportable path.chars)
      (renderRecordJsonLine record options path) := by
  refine Renders.congr (RendersFields.object
    (.append (.append (.append (.append
      (.fieldIf _ (by decide) (renders_escaped path.chars))
      (.fieldIf _ (by decide) (renders_decimal _)))
      (.cons (by decide) (renders_decimal _) (.cons (by decide) (renders_decimal _)
        (.cons (by decide) (renders_decimal _) fields_nil))))
      (.fieldIf _ (by decide) (renders_name (plain_packet_kind _))))
      (.fieldIf _ (by decide) (renders_decimal _)))) ?_
  simp

/-- The line of a reference renders when its path can be exported. -/
theorem renders_ref_line (ref : ArchiveCollectionRecordRef)
    (options : ArchiveExportWriterOptions) :
    Renders IsObject (options.includeArchivePath = true → Exportable ref.path.chars)
      (renderRefJsonLine ref options) := by
  refine Renders.congr (RendersFields.object
    (.append (.append (.append (.append
      (.fieldIf _ (by decide) (renders_escaped ref.path.chars))
      (.cons (by decide) (renders_decimal _) fields_nil))
      (.fieldIf _ (by decide) (renders_decimal _)))
      (.cons (by decide) (renders_decimal _) (.cons (by decide) (renders_decimal _)
        (.cons (by decide) (renders_decimal _) fields_nil))))
      (.fieldIf _ (by decide) (renders_decimal _)))) ?_
  simp

/-- The summary of a device renders. -/
theorem renders_device (device : DeviceArchiveSummary) :
    Renders IsObject True (renderDeviceJson device) := by
  refine Renders.congr (RendersFields.object
    (.cons (by decide) (renders_decimal _) (.cons (by decide) (renders_decimal _)
      (.cons (by decide) (renders_decimal _) fields_nil)))) ?_
  simp

/-- An array of objects that are well-formed anyway. -/
theorem renders_array {texts : List Text} (h : ∀ text ∈ texts, Renders IsObject True text) :
    Renders AnyValue True ('[' :: (commaJoined texts ++ [']'])) := by
  obtain ⟨elements, htexts, helements⟩ : ∃ elements : List Json.Element,
      texts = elements.map Json.Element.padded ∧ ∀ element ∈ elements, element.Spaced ∧
        Json.Spells element.value element.text := by
    induction texts with
    | nil => exact ⟨[], rfl, List.forall_mem_nil _⟩
    | cons text texts ih =>
      obtain ⟨htext, hrest⟩ := List.forall_mem_cons.mp h
      obtain ⟨value, -, hspells⟩ := htext.spells trivial
      obtain ⟨elements, rfl, helements⟩ := ih hrest
      refine ⟨{ value, text } :: elements, ?_, List.forall_mem_cons.mpr
        ⟨⟨⟨Json.isSpace_nil, Json.isSpace_nil⟩, hspells⟩, helements⟩⟩
      simp [Json.Element.padded]
  have hspells := Json.Spells.array Json.isSpace_nil
    (fun element helement => (helements element helement).1)
    fun element helement => (helements element helement).2
  rw [← htexts] at hspells
  exact renders_of_spells hspells (newline_notMem_between (by decide)
    (newline_notMem_joined fun text htext => (h text htext).oneLine) (by decide))

/-- The line of a manifest renders when its path can be exported. -/
theorem renders_manifest_line (manifest : ArchiveManifest) (options : ArchiveExportWriterOptions)
    (path : Path) :
    Renders IsObject (options.includeArchivePath = true → Exportable path.chars)
      (renderManifestJsonLine manifest options path) := by
  have hdevices : ∀ text ∈ manifest.devices.map renderDeviceJson, Renders IsObject True text :=
    List.forall_mem_map.mpr fun device _ => renders_device device
  refine Renders.congr (RendersFields.object
    (.append (.fieldIf _ (by decide) (renders_escaped path.chars))
      (.cons (by decide) (renders_decimal _) (.cons (by decide) (renders_decimal _)
        (.cons (by decide) (renders_decimal _) (.cons (by decide) (renders_decimal _)
          (.cons (by decide) (renders_array hdevices)
            (.cons (by decide) (renders_bool _) fields_nil)))))))) ?_
  simp

/-- The line of a sampled reference renders when its texts can be exported. -/
theorem renders_sampled_line (item : SampledRecordRef) (options : ArchiveExportWriterOptions) :
    Renders IsObject (Exportable item.reason.toList ∧
        (options.includeArchivePath = true → Exportable item.ref.path.chars))
      (renderSampledJsonLine item options) := by
  refine Renders.congr (RendersFields.object
    (.cons (by decide) (renders_decimal _)
      (.cons (by decide) (renders_escaped item.reason.toList)
        (.cons (by decide) (renders_ref_line item.ref options).any fields_nil)))) ?_
  simp

/-- The line of a difference renders when its texts can be exported. -/
theorem renders_diff_line (entry : ManifestDiffEntry) :
    Renders IsObject (Exportable entry.key ∧ Exportable entry.before ∧ Exportable entry.after)
      (renderDiffEntryJsonLine entry) := by
  refine Renders.congr (RendersFields.object
    (.cons (by decide) (renders_name (plain_diff_kind _))
      (.cons (by decide) (renders_escaped entry.key) (.cons (by decide) (renders_signed _)
        (.cons (by decide) (renders_signed _) (.cons (by decide) (renders_escaped entry.before)
          (.cons (by decide) (renders_escaped entry.after) fields_nil))))))) ?_
  simp

/-! ## The lines of the writers -/

/-- Every line of the output is an object. -/
def ObjectLines (output : Text) : Prop :=
  ∃ lines : List Text, output = lines.flatMap (fun line => line ++ ['\n']) ∧
    ∀ line ∈ lines, '\n' ∉ line ∧ ∃ members, Json.Document (.object members) line

/-- The lines of texts that are written one by one. -/
theorem object_lines_iff {α : Type} {items : List α} {render : α → Text} {fits : α → Prop}
    (h : ∀ item, Renders IsObject (fits item) (render item)) :
    ObjectLines (items.flatMap fun item => render item ++ ['\n']) ↔ ∀ item ∈ items, fits item := by
  constructor
  · rintro ⟨lines, houtput, hlines⟩ item hitem
    have htame : Json.Tame (items.flatMap fun item => render item ++ ['\n']) := by
      rw [houtput]
      intro ch hch
      obtain ⟨line, hline, hch⟩ := List.mem_flatMap.mp hch
      obtain ⟨-, members, hdocument⟩ := hlines line hline
      exact (Json.tame_append.mpr ⟨hdocument.control, by decide⟩) ch hch
    refine (h item).fits fun ch hch => htame ch (List.mem_flatMap.mpr ⟨item, hitem, ?_⟩)
    exact List.mem_append_left _ hch
  · intro hfits
    refine ⟨items.map render, ?_, List.forall_mem_map.mpr fun item hitem => ?_⟩
    · rw [List.flatMap_map]
    · obtain ⟨_, ⟨members, rfl⟩, hspells⟩ := (h item).spells (hfits item hitem)
      exact ⟨(h item).oneLine, members, .of_spells hspells⟩

/-- A single line. -/
theorem object_line_iff {fits : Prop} {text : Text} (h : Renders IsObject fits text) :
    ObjectLines (text ++ ['\n']) ↔ fits := by
  have hlines := @object_lines_iff Unit [()] (fun _ => text) (fun _ => fits) fun _ => h
  simpa using hlines

section Writers

variable {options : ArchiveExportWriterOptions}

theorem header_of_json_lines (hformat : options.format = .jsonLines) :
    ArchiveRecordExportWriter.writeHeader options = [] := by
  simp [ArchiveRecordExportWriter.writeHeader, hformat]

theorem write_record_eq (hformat : options.format = .jsonLines) (record : ArchiveRecord)
    (path : Path) : ArchiveRecordExportWriter.writeRecord options record path =
      renderRecordJsonLine record options path ++ ['\n'] := by
  rw [ArchiveRecordExportWriter.writeRecord, hformat]

theorem write_ref_eq (hformat : options.format = .jsonLines) (ref : ArchiveCollectionRecordRef) :
    ArchiveRecordExportWriter.writeRef options ref = renderRefJsonLine ref options ++ ['\n'] := by
  rw [ArchiveRecordExportWriter.writeRef, hformat]

theorem write_manifest_eq (hformat : options.format = .jsonLines) (manifest : ArchiveManifest)
    (path : Path) : ArchiveSummaryExportWriter.writeManifest options manifest path =
      renderManifestJsonLine manifest options path ++ ['\n'] := by
  rw [ArchiveSummaryExportWriter.writeManifest, hformat]

/-- Lines of references are lines of objects when their paths can be exported. -/
theorem write_refs_iff (hformat : options.format = .jsonLines)
    (refs : List ArchiveCollectionRecordRef) :
    ObjectLines (refs.flatMap (ArchiveRecordExportWriter.writeRef options)) ↔
      ∀ ref ∈ refs, options.includeArchivePath = true → Exportable ref.path.chars := by
  rw [funext (write_ref_eq hformat)]
  exact object_lines_iff fun ref => renders_ref_line ref options

/-- The records of a search are written without a path. -/
theorem write_search_result_iff (hformat : options.format = .jsonLines)
    (result : CollectionSearchResult) :
    ObjectLines (ArchiveRecordExportWriter.writeSearchResult options result) ↔
      (result.records = [] →
        ∀ ref ∈ result.refs, options.includeArchivePath = true → Exportable ref.path.chars) := by
  rw [ArchiveRecordExportWriter.writeSearchResult, header_of_json_lines hformat, List.nil_append]
  cases hrecords : result.records with
  | nil =>
    simp only [List.isEmpty_nil, Bool.not_true, Bool.false_eq_true, if_false, true_imp_iff]
    exact write_refs_iff hformat result.refs
  | cons record records =>
    have hlines := @object_lines_iff _ (record :: records) _ _ fun record =>
      renders_record_line record options ⟨""⟩
    simp only [List.isEmpty_cons, Bool.not_false, if_true, write_record_eq hformat]
    rw [hlines]
    simp [Path.chars, Exportable, Json.tame_nil]

end Writers

/-- The text between the quotes of a string is that of the diagnostics, is a string at all and is
read back as the string exactly when the string fits. The lines of the export are objects exactly
when the strings in them fit: the paths, if they are asked for, the reasons of a sample and the
texts of a difference. -/
theorem escape_json_string_iff (text : Text) (options : ArchiveExportWriterOptions) :
    (escapeJsonString text = jsonEscape text ↔ Exportable text) ∧
    (Json.decode (escapeJsonString text) = some text ↔ Exportable text) ∧
    ((∃ decoded, Json.decode (escapeJsonString text) = some decoded) ↔ Exportable text) ∧
    Json.decode (jsonEscape text) = some text ∧
    (options.format = .jsonLines →
      (∀ record path, ObjectLines (ArchiveRecordExportWriter.writeRecord options record path) ↔
        (options.includeArchivePath = true → Exportable path.chars)) ∧
      (∀ ref, ObjectLines (ArchiveRecordExportWriter.writeRef options ref) ↔
        (options.includeArchivePath = true → Exportable ref.path.chars)) ∧
      (∀ collection, ObjectLines (ArchiveRecordExportWriter.writeCollection options collection) ↔
        ∀ ref ∈ collection.records, options.includeArchivePath = true → Exportable ref.path.chars) ∧
      (∀ result, ObjectLines (ArchiveRecordExportWriter.writeSearchResult options result) ↔
        (result.records = [] →
          ∀ ref ∈ result.refs, options.includeArchivePath = true → Exportable ref.path.chars)) ∧
      (∀ manifest path,
        ObjectLines (ArchiveSummaryExportWriter.writeManifest options manifest path) ↔
          (options.includeArchivePath = true → Exportable path.chars)) ∧
      (∀ collection, ObjectLines (ArchiveSummaryExportWriter.writeCollection options collection) ↔
        ∀ archive ∈ collection.archives,
          options.includeArchivePath = true → Exportable archive.path.chars) ∧
      (∀ sample, ObjectLines (ArchiveSummaryExportWriter.writeSample options sample) ↔
        ∀ item ∈ sample.refs, Exportable item.reason.toList ∧
          (options.includeArchivePath = true → Exportable item.ref.path.chars)) ∧
      ∀ diff, ObjectLines (ArchiveSummaryExportWriter.writeManifestDiff options diff) ↔
        ∀ entry ∈ diff.entries,
          Exportable entry.key ∧ Exportable entry.before ∧ Exportable entry.after) := by
  refine ⟨⟨fun heq => ?_, escape_json_string_eq⟩, decode_escape_json_iff text,
    ⟨fun hdecode => ?_, fun hfits => ⟨text, (decode_escape_json_iff text).mpr hfits⟩⟩,
    decode_json_escape text, ?_⟩
  · exact (decode_escape_json_iff text).mp (by rw [heq, decode_json_escape])
  · obtain ⟨decoded, hdecode⟩ := hdecode
    exact exportable_of_tame (Json.tame_of_not_control (Json.not_control_of_decode hdecode))
  · intro hformat
    refine ⟨fun record path => ?_, fun ref => ?_, fun collection => ?_,
      write_search_result_iff hformat, fun manifest path => ?_, fun collection => ?_,
      fun sample => ?_, fun diff => ?_⟩
    · rw [write_record_eq hformat]
      exact object_line_iff (renders_record_line record options path)
    · rw [write_ref_eq hformat]
      exact object_line_iff (renders_ref_line ref options)
    · rw [ArchiveRecordExportWriter.writeCollection, header_of_json_lines hformat,
        List.nil_append]
      exact write_refs_iff hformat collection.records
    · rw [write_manifest_eq hformat]
      exact object_line_iff (renders_manifest_line manifest options path)
    · simp only [ArchiveSummaryExportWriter.writeCollection, write_manifest_eq hformat]
      exact object_lines_iff fun archive =>
        renders_manifest_line archive.manifest options archive.path
    · rw [ArchiveSummaryExportWriter.writeSample, if_pos hformat]
      exact object_lines_iff fun item => renders_sampled_line item options
    · rw [ArchiveSummaryExportWriter.writeManifestDiff, if_pos hformat]
      exact object_lines_iff renders_diff_line

/-- A path with a byte of value one in it: the export leaves it as it is, and its line is no
object. -/
theorem control_byte_exported :
    let text : Text := ['a', Char.ofNat 1]
    let ref : ArchiveCollectionRecordRef := { path := ⟨String.ofList text⟩ }
    let options : ArchiveExportWriterOptions := { format := .jsonLines }
    escapeJsonString text = text ∧ jsonEscape text = 'a' :: "\\u0001".toList ∧
      Json.decode (escapeJsonString text) = none ∧
      ¬ObjectLines (ArchiveRecordExportWriter.writeRef options ref) := by
  intro text ref options
  refine ⟨by decide, by decide, by decide, ?_⟩
  show ¬ObjectLines (renderRefJsonLine ref options ++ ['\n'])
  rw [object_line_iff (renders_ref_line ref options)]
  intro hfits
  have hpath : ref.path.chars = text := String.toList_ofList
  have htext := hfits rfl
  rw [hpath] at htext
  exact absurd (htext (Char.ofNat 1) (by decide) (by decide)) (by decide)

end Aethon.Storage
