import Mathlib.Data.List.Forall2
import Aethon.Common.Text
import Aethon.Foundation.JsonReading

/-!
# JSON of the diagnostics

The escaping and the objects of `diagnostics/json_writer.cpp`. A JSON reader undoes the escaping for
every text (`decode_json_escape`), and finds the fields of an object in its text:
`json_rendering_read_back`. Reports nest objects and arrays by adding one text raw to another
object; `nested_json_read_back` says that a reader finds all that was nested.
-/

namespace Aethon.Diagnostics

open Text

/-- The code unit in four hexadecimal digits. -/
def hexEscape (ch : Char) : Text :=
  let digits := Nat.toDigits 16 ch.toNat
  '\\' :: 'u' :: (List.replicate (4 - digits.length) '0' ++ digits)

/-- The body of the loop of `json_escape`. -/
def jsonEscapeChar (ch : Char) : Text :=
  match ch with
  | '"' => ['\\', '"']
  | '\\' => ['\\', '\\']
  | '\n' => ['\\', 'n']
  | '\r' => ['\\', 'r']
  | '\t' => ['\\', 't']
  | ch => if ch.toNat < 0x20 then hexEscape ch else [ch]

/-- A text with every special character escaped. -/
def jsonEscape (value : Text) : Text :=
  value.flatMap jsonEscapeChar

/-- A name with a value, which is written as it is or as a string. -/
structure JsonField where
  name : Text
  value : Text
  raw : Bool := false
  deriving DecidableEq, Repr

/-- The fields in the order in which they were added. -/
structure JsonObject where
  fields : List JsonField := []
  deriving DecidableEq, Repr

namespace JsonObject

/-- Add a text. -/
def string (object : JsonObject) (name value : Text) : JsonObject where
  fields := object.fields ++ [{ name, value, raw := false }]

/-- Add a number. -/
def number (object : JsonObject) (name : Text) (value : UInt64) : JsonObject where
  fields := object.fields ++ [{ name, value := decimal value.toNat, raw := true }]

/-- Add a truth value. -/
def boolean (object : JsonObject) (name : Text) (value : Bool) : JsonObject where
  fields := object.fields ++
    [{ name, value := (if value then "true" else "false").toList, raw := true }]

/-- Add a value that is JSON already. -/
def raw (object : JsonObject) (name value : Text) : JsonObject where
  fields := object.fields ++ [{ name, value, raw := true }]

end JsonObject

/-- The text of a field. -/
def appendField (field : JsonField) : Text :=
  ['"'] ++ jsonEscape field.name ++ ['"', ':'] ++
    if field.raw then field.value
    else ['"'] ++ jsonEscape field.value ++ ['"']

/-- The text of an object. -/
def renderJsonObject (object : JsonObject) : Text :=
  ['{'] ++ List.intercalate [','] (object.fields.map appendField) ++ ['}']

/-- `render_json_object_pretty`, with the index of each field. -/
def renderJsonObjectPretty (object : JsonObject) (indent : ℕ := 2) : Text :=
  ['{', '\n'] ++
    (object.fields.zipIdx.flatMap fun (field, i) =>
      List.replicate indent ' ' ++ appendField field ++
        (if i + 1 ≠ object.fields.length then [','] else []) ++ ['\n']) ++
    ['}']

/-- The text of an array of objects. -/
def renderJsonArray (objects : List JsonObject) : Text :=
  ['['] ++ List.intercalate [','] (objects.map renderJsonObject) ++ [']']

/-- The text of an array of strings. -/
def renderJsonStringArray (values : List Text) : Text :=
  ['['] ++ List.intercalate [','] (values.map fun value => ['"'] ++ jsonEscape value ++ ['"']) ++
    [']']

/-- An object with a status and a message. -/
def makeStatusObject (status message : Text) : JsonObject :=
  (({} : JsonObject).string "status".toList status).string "message".toList message

/-- The text of a status, with notes if there are any. -/
def renderStatusJson (status message : Text) (notes : List Text := []) : Text :=
  let object := makeStatusObject status message
  renderJsonObject
    (if !notes.isEmpty then object.raw "notes".toList (renderJsonStringArray notes) else object)

/-! ## Reading it back -/

/-- A control character is escaped by its number. -/
theorem hex_escape_control : ∀ n < 0x20, ∃ third fourth,
    hexEscape (Char.ofNat n) = ['\\', 'u', '0', '0', third, fourth] ∧
      Json.codeUnit '0' '0' third fourth = some n := by
  have hdigits : ∀ n < 0x20,
      hexEscape (Char.ofNat n) =
          ['\\', 'u', '0', '0', Nat.digitChar (n / 16), Nat.digitChar (n % 16)] ∧
        Json.codeUnit '0' '0' (Nat.digitChar (n / 16)) (Nat.digitChar (n % 16)) = some n := by
    decide
  exact fun n hn => ⟨_, _, hdigits n hn⟩

/-- The code unit of a control byte is read back. -/
theorem decode_hex_escape {ch : Char} (h : ch.toNat < 0x20) (rest : Text) :
    Json.decode (hexEscape ch ++ rest) = (Json.decode rest).map (ch :: ·) := by
  obtain ⟨third, fourth, hescape, hunit⟩ := hex_escape_control ch.toNat h
  rw [Char.ofNat_toNat] at hescape
  have hdecode := @Json.decode_unit rest _ _ _ _ _ hunit (by omega)
  rw [Char.ofNat_toNat] at hdecode
  rw [hescape]
  exact hdecode

/-- An escaped character is read as itself. -/
theorem decode_json_escape_char (ch : Char) (rest : Text) :
    Json.decode (jsonEscapeChar ch ++ rest) = (Json.decode rest).map (ch :: ·) := by
  unfold jsonEscapeChar
  split
  · exact Json.decode_escaped rfl
  · exact Json.decode_escaped rfl
  · exact Json.decode_escaped rfl
  · exact Json.decode_escaped rfl
  · exact Json.decode_escaped rfl
  · next hquote hslash _ _ _ =>
    split
    · next hcontrol => exact decode_hex_escape hcontrol rest
    · next hcontrol => exact Json.decode_plain hslash hquote hcontrol

theorem decode_json_escape (value : Text) : Json.decode (jsonEscape value) = some value :=
  Json.decode_flatMap fun ch _ rest => decode_json_escape_char ch rest

/-- What a string or a number adds to an object. -/
inductive FieldValue where
  | string (text : Text)
  | number (n : UInt64)
  deriving DecidableEq, Repr

namespace FieldValue

/-- The field of the value. -/
def field (name : Text) : FieldValue → JsonField
  | string text => { name, value := text, raw := false }
  | number n => { name, value := decimal n.toNat, raw := true }

/-- The value that a reader finds for a field. -/
def toJson : FieldValue → Json.Value
  | string text => .string text
  | number n => .number (decimal n.toNat)

/-- The text of the value. -/
def text : FieldValue → Text
  | string text => Json.quoted (jsonEscape text)
  | number n => decimal n.toNat

/-- The value that a reader finds. -/
def ofJson : Json.Value → Option FieldValue
  | .string text => some (string text)
  | .number spelling =>
    match fromChars spelling with
    | some (n, []) => some (number n)
    | _ => none
  | _ => none

theorem ofJson_toJson (value : FieldValue) : ofJson value.toJson = some value := by
  cases value with
  | string text => rfl
  | number n => rw [toJson, ofJson, from_chars_decimal]

theorem spells (value : FieldValue) : Json.Spells value.toJson value.text := by
  cases value with
  | string text => exact .string (decode_json_escape text)
  | number n => exact .number (@Json.is_number_toDigits [] (by decide) n.toNat)

end FieldValue

namespace JsonObject

/-- The call that adds the value under the name. -/
def add (object : JsonObject) : Text × FieldValue → JsonObject
  | (name, .string text) => object.string name text
  | (name, .number n) => object.number name n

/-- The object of strings and numbers that are added in this order. -/
def ofFields (fields : List (Text × FieldValue)) : JsonObject :=
  fields.foldl add {}

/-- A field goes behind the others. -/
theorem add_eq (object : JsonObject) (field : Text × FieldValue) :
    (object.add field).fields = object.fields ++ [field.2.field field.1] := by
  obtain ⟨name, value⟩ := field
  cases value with
  | string text => rfl
  | number n => rfl

/-- Fields go behind the others in their order. -/
theorem foldl_add (object : JsonObject) (fields : List (Text × FieldValue)) :
    (fields.foldl add object).fields =
      object.fields ++ fields.map fun field => field.2.field field.1 := by
  induction fields generalizing object with
  | nil => rw [List.foldl_nil, List.map_nil, List.append_nil]
  | cons field fields ih =>
    rw [List.foldl_cons, ih, add_eq, List.map_cons, List.append_assoc, List.singleton_append]

theorem fields_ofFields (fields : List (Text × FieldValue)) :
    (ofFields fields).fields = fields.map fun field => field.2.field field.1 :=
  foldl_add {} fields

end JsonObject

/-- The field that a member was written from. -/
def readField (member : Text × Json.Value) : Option (Text × FieldValue) :=
  (FieldValue.ofJson member.2).map (member.1, ·)

/-- The fields that a reader finds in an object of strings and numbers. -/
def readFields : Json.Value → Option (List (Text × FieldValue))
  | .object members => members.mapM readField
  | _ => none

/-- A field in the text of its object. -/
def fieldMember (field : Text × FieldValue) : Json.Member :=
  .compact field.1 (jsonEscape field.1) field.2.toJson field.2.text

/-- A field that is appended is a member. -/
theorem append_field_eq (field : Text × FieldValue) :
    appendField (field.2.field field.1) = (fieldMember field).padded := by
  obtain ⟨name, value⟩ := field
  rw [fieldMember, Json.Member.padded_compact]
  cases value with
  | string text => simp [appendField, FieldValue.field, FieldValue.text, Json.quoted]
  | number n => simp [appendField, FieldValue.field, FieldValue.text, Json.quoted]

/-- The text of an object spells its fields. -/
theorem spells_object (fields : List (Text × FieldValue)) :
    Json.Spells (.object (fields.map fun field => (field.1, field.2.toJson)))
      (renderJsonObject (.ofFields fields)) := by
  have hspells := @Json.Spells.object [] (fields.map fieldMember) Json.isSpace_nil
    (List.forall_mem_map.mpr fun field _ =>
      Json.Member.named_compact (decode_json_escape field.1) _ _)
    (List.forall_mem_map.mpr fun field _ => field.2.spells)
  have htext : renderJsonObject (.ofFields fields) = '{' :: ([] ++ Json.commaSeparated
      ((fields.map fieldMember).map Json.Member.padded) ++ ['}']) := by
    rw [renderJsonObject, JsonObject.fields_ofFields, List.map_map, List.map_map]
    exact congrArg (fun texts => '{' :: (List.intercalate [','] texts ++ ['}']))
      (List.map_congr_left fun field _ => append_field_eq field)
  rw [htext]
  rwa [List.map_map] at hspells

/-- The fields of an object are read back. -/
theorem read_fields_object (fields : List (Text × FieldValue)) :
    readFields (.object (fields.map fun field => (field.1, field.2.toJson))) = some fields := by
  rw [readFields, List.mapM_map]
  induction fields with
  | nil => rfl
  | cons field fields ih =>
    rw [List.mapM_cons, ih, Function.comp_apply, readField, FieldValue.ofJson_toJson]
    rfl

/-- The escaped text has no control byte, no quote that ends the string and no backslash that waits
for a letter, and stands for the text. A reader finds the strings and numbers of an object in its
text. So both texts say what they are made of. -/
theorem json_rendering_read_back :
    (∀ text : Text, (∀ ch ∈ jsonEscape text, 0x20 ≤ ch.toNat) ∧
      Json.pending false (jsonEscape text) = some false ∧
      Json.decode (jsonEscape text) = some text) ∧
    (∀ fields : List (Text × FieldValue),
      (∃ value, Json.Document value (renderJsonObject (.ofFields fields))) ∧
      ∀ value, Json.Document value (renderJsonObject (.ofFields fields)) →
        readFields value = some fields) ∧
    Function.Injective jsonEscape ∧
    Function.Injective fun fields => renderJsonObject (.ofFields fields) := by
  have hobject (fields : List (Text × FieldValue)) :
      Json.Document _ (renderJsonObject (.ofFields fields)) := .of_spells (spells_object fields)
  refine ⟨fun text => ?_, fun fields => ⟨⟨_, hobject fields⟩, fun value hvalue => ?_⟩, ?_, ?_⟩
  · have hdecode := decode_json_escape text
    exact ⟨Json.not_control_of_decode hdecode, Json.pending_of_decode hdecode, hdecode⟩
  · rw [hvalue.unique (hobject fields), read_fields_object]
  · -- both texts are read back from one
    intro text text' heq
    have hdecode := decode_json_escape text
    rw [heq, decode_json_escape] at hdecode
    exact (Option.some.inj hdecode).symm
  · intro fields fields' heq
    simp only at heq
    have hfields' := hobject fields'
    rw [← heq] at hfields'
    have hread := read_fields_object fields
    rw [(hobject fields).unique hfields', read_fields_object] at hread
    exact (Option.some.inj hread).symm

/-! ## Nested texts -/

mutual

/-- What the calls of a report give to the fields of its objects. -/
inductive Content where
  | string (text : Text)
  | number (n : UInt64)
  | boolean (value : Bool)
  | strings (values : List Text)
  | object (fields : Contents)
  | prettyObject (indent : ℕ) (fields : Contents)
  | objects (items : Items)

/-- The calls on an object. -/
inductive Contents where
  | nil
  | cons (name : Text) (content : Content) (rest : Contents)

/-- The objects of an array. -/
inductive Items where
  | nil
  | cons (fields : Contents) (rest : Items)

end

mutual

/-- The call that gives the content to a field; a nested text is added raw. -/
def Content.addTo (object : JsonObject) (name : Text) : Content → JsonObject
  | .string text => object.string name text
  | .number n => object.number name n
  | .boolean value => object.boolean name value
  | .strings values => object.raw name (renderJsonStringArray values)
  | .object fields => object.raw name (renderJsonObject (fields.addTo {}))
  | .prettyObject indent fields => object.raw name (renderJsonObjectPretty (fields.addTo {}) indent)
  | .objects items => object.raw name (renderJsonArray items.build)

/-- Add all fields of the contents to an object. -/
def Contents.addTo (object : JsonObject) : Contents → JsonObject
  | .nil => object
  | .cons name content rest => rest.addTo (content.addTo object name)

/-- The objects of items. -/
def Items.build : Items → List JsonObject
  | .nil => []
  | .cons fields rest => fields.addTo {} :: rest.build

end

mutual

/-- The value that the content stands for. -/
def Content.toJson : Content → Json.Value
  | .string text => .string text
  | .number n => .number (decimal n.toNat)
  | .boolean value => .bool value
  | .strings values => .array (values.map .string)
  | .object fields => .object fields.toJson
  | .prettyObject _ fields => .object fields.toJson
  | .objects items => .array items.toJson

/-- The members that a reader finds. -/
def Contents.toJson : Contents → List (Text × Json.Value)
  | .nil => []
  | .cons name content rest => (name, content.toJson) :: rest.toJson

/-- The objects that a reader finds. -/
def Items.toJson : Items → List Json.Value
  | .nil => []
  | .cons fields rest => .object fields.toJson :: rest.toJson

end

/-- The field has the name and a text of the value. -/
def JsonField.Means (field : JsonField) (member : Text × Json.Value) : Prop :=
  member.1 = field.name ∧
    Json.Spells member.2 (if field.raw then field.value else Json.quoted (jsonEscape field.value))

/-- A field between white space. -/
structure JsonLine where
  front : Text := []
  field : JsonField
  behind : Text := []

/-- The text of a line. -/
def JsonLine.text (line : JsonLine) : Text :=
  line.front ++ appendField line.field ++ line.behind

/-- The field as a member of an object. -/
def JsonLine.member (line : JsonLine) (value : Json.Value) : Json.Member where
  front := line.front
  name := line.field.name
  body := jsonEscape line.field.name
  element.value := value
  element.text :=
    if line.field.raw then line.field.value else Json.quoted (jsonEscape line.field.value)
  element.behind := line.behind

theorem JsonLine.text_eq_padded (line : JsonLine) (value : Json.Value) :
    line.text = (line.member value).padded := by
  rw [text, appendField]
  cases hraw : line.field.raw <;>
    simp [member, hraw, Json.Member.padded, Json.Element.padded, Json.quoted]

/-- An object is spelled by its fields between commas, whatever the white space is. -/
theorem spells_of_lines {lines : List JsonLine} {members : List (Text × Json.Value)} {gap : Text}
    (h : List.Forall₂ JsonField.Means (lines.map JsonLine.field) members)
    (hspace : ∀ line ∈ lines, Json.IsSpace line.front ∧ Json.IsSpace line.behind)
    (hgap : Json.IsSpace gap) :
    Json.Spells (.object members)
      ('{' :: (gap ++ Json.commaSeparated (lines.map JsonLine.text) ++ ['}'])) := by
  obtain ⟨found, htexts, hmembers, hfound⟩ : ∃ found : List Json.Member,
      lines.map JsonLine.text = found.map Json.Member.padded ∧
      members = found.map (fun member => (member.name, member.element.value)) ∧
      ∀ member ∈ found, member.Named ∧ Json.Spells member.element.value member.element.text := by
    induction lines generalizing members with
    | nil =>
        cases h
        exact ⟨[], rfl, rfl, List.forall_mem_nil _⟩
    | cons line lines ih =>
        obtain ⟨hline, hlines⟩ := List.forall_mem_cons.mp hspace
        cases h with
        | @cons _ member _ members hfield hfields =>
            obtain ⟨found, htexts, hmembers, hfound⟩ := ih hfields hlines
            refine ⟨line.member member.2 :: found, ?_, ?_, List.forall_mem_cons.mpr
              ⟨⟨⟨hline.1, decode_json_escape line.field.name, Json.isSpace_nil, Json.isSpace_nil,
                hline.2⟩, hfield.2⟩, hfound⟩⟩
            · rw [List.map_cons, List.map_cons, htexts, line.text_eq_padded member.2]
            · rw [List.map_cons, ← hmembers]
              exact congrArg (· :: members) (Prod.ext hfield.1 rfl)
  rw [hmembers, htexts]
  exact Json.Spells.object hgap (fun member hmember => (hfound member hmember).1)
    fun member hmember => (hfound member hmember).2

/-- A line of the pretty text, with what stands in front of it on the line before. -/
def prettyLine (indent count : ℕ) (entry : JsonField × ℕ) : JsonLine where
  front := '\n' :: List.replicate indent ' '
  field := entry.1
  behind := if entry.2 + 1 ≠ count then [] else ['\n']

/-- The line breaks behind the fields are those in front of them, and the last one. -/
theorem pretty_lines_eq (indent count : ℕ) (field : JsonField) (fields : List JsonField) {k : ℕ}
    (hcount : k + fields.length + 1 = count) :
    '\n' :: ((field :: fields).zipIdx k).flatMap (fun entry =>
        List.replicate indent ' ' ++ appendField entry.1 ++
          (if entry.2 + 1 ≠ count then [','] else []) ++ ['\n']) =
      Json.commaSeparated
        ((((field :: fields).zipIdx k).map (prettyLine indent count)).map JsonLine.text) := by
  induction fields generalizing field k with
  | nil =>
      have hlast : ¬ k + 1 ≠ count := not_not.mpr hcount
      simp [List.zipIdx_cons, Json.commaSeparated, prettyLine, JsonLine.text, hlast]
  | cons next fields ih =>
      rw [List.length_cons] at hcount
      have hmore : k + 1 ≠ count := by omega
      have hrest := ih next (show k + 1 + fields.length + 1 = count by omega)
      rw [List.zipIdx_cons, List.flatMap_cons, List.map_cons, List.map_cons]
      rw [List.zipIdx_cons, List.map_cons, List.map_cons] at hrest ⊢
      rw [Json.commaSeparated, List.intercalate_cons_cons, ← Json.commaSeparated, ← hrest,
        if_pos hmore]
      simp [prettyLine, JsonLine.text, hmore]

/-- The texts of an object whose fields mean the members. -/
theorem spells_of_means {object : JsonObject} {members : List (Text × Json.Value)}
    (h : List.Forall₂ JsonField.Means object.fields members) :
    Json.Spells (.object members) (renderJsonObject object) ∧
      ∀ indent, Json.Spells (.object members) (renderJsonObjectPretty object indent) := by
  constructor
  · have hlines : (object.fields.map fun field => ({ field } : JsonLine)).map JsonLine.field =
        object.fields := by
      rw [List.map_map]
      exact List.map_id _
    have hspells := @spells_of_lines (object.fields.map fun field => { field }) members []
      (by rw [hlines]; exact h)
      (List.forall_mem_map.mpr fun _ _ => ⟨Json.isSpace_nil, Json.isSpace_nil⟩) Json.isSpace_nil
    rw [List.map_map] at hspells
    refine (congrArg (Json.Spells _) ?_).mp hspells
    rw [renderJsonObject, List.nil_append]
    refine congrArg (fun texts => '{' :: (List.intercalate [','] texts ++ ['}'])) ?_
    exact List.map_congr_left fun field _ => by simp [JsonLine.text]
  · intro indent
    rw [renderJsonObjectPretty]
    rcases hfields : object.fields with _ | ⟨field, fields⟩
    · rw [hfields] at h
      cases h
      refine @spells_of_lines [] [] ['\n'] .nil (List.forall_mem_nil _) ?_
      exact List.forall_mem_singleton.mpr (by decide)
    · let count := (field :: fields).length
      let lines := ((field :: fields).zipIdx).map (prettyLine indent count)
      have hlines : lines.map JsonLine.field = field :: fields := by
        show (((field :: fields).zipIdx).map _).map _ = _
        rw [List.map_map]
        exact List.zipIdx_map_fst 0 (field :: fields)
      have hspace : ∀ line ∈ lines, Json.IsSpace line.front ∧ Json.IsSpace line.behind := by
        refine List.forall_mem_map.mpr fun entry _ => ⟨List.forall_mem_cons.mpr ⟨by decide, ?_⟩, ?_⟩
        · intro ch hch
          rw [List.eq_of_mem_replicate hch]
          decide
        · rw [prettyLine]
          split
          · exact Json.isSpace_nil
          · exact List.forall_mem_singleton.mpr (by decide)
      have hspells := @spells_of_lines lines members [] (by rw [hlines, ← hfields]; exact h) hspace
        Json.isSpace_nil
      have htext := @pretty_lines_eq indent count field fields 0 (by rw [Nat.zero_add]; rfl)
      refine (congrArg (Json.Spells _) ?_).mp hspells
      rw [List.nil_append, ← htext]
      rfl

/-- An array of strings spells the strings. -/
theorem spells_of_strings (values : List Text) :
    Json.Spells (.array (values.map .string)) (renderJsonStringArray values) := by
  have hspells := @Json.Spells.array []
    (values.map fun value => { value := .string value, text := Json.quoted (jsonEscape value) })
    Json.isSpace_nil (List.forall_mem_map.mpr fun _ _ => ⟨Json.isSpace_nil, Json.isSpace_nil⟩)
    (List.forall_mem_map.mpr fun value _ => .string (decode_json_escape value))
  rw [List.map_map, List.map_map] at hspells
  refine (congrArg (Json.Spells _) ?_).mp hspells
  rw [renderJsonStringArray, List.nil_append]
  refine congrArg (fun texts => '[' :: (List.intercalate [','] texts ++ [']'])) ?_
  exact List.map_congr_left fun value _ => by simp [Json.Element.padded, Json.quoted]

/-- An array of objects whose fields mean the members. -/
theorem spells_of_objects {objects : List JsonObject} {values : List Json.Value}
    (h : List.Forall₂ (fun object value => ∃ members, value = .object members ∧
      List.Forall₂ JsonField.Means object.fields members) objects values) :
    Json.Spells (.array values) (renderJsonArray objects) := by
  obtain ⟨elements, htexts, hvalues, helements⟩ : ∃ elements : List Json.Element,
      objects.map renderJsonObject = elements.map Json.Element.padded ∧
      values = elements.map Json.Element.value ∧
      ∀ element ∈ elements, element.Spaced ∧ Json.Spells element.value element.text := by
    induction h with
    | nil => exact ⟨[], rfl, rfl, List.forall_mem_nil _⟩
    | @cons object value objects values hobject _ ih =>
        obtain ⟨members, rfl, hmeans⟩ := hobject
        obtain ⟨elements, htexts, hvalues, helements⟩ := ih
        refine ⟨{ value := .object members, text := renderJsonObject object } :: elements, ?_, ?_,
          List.forall_mem_cons.mpr ⟨⟨⟨Json.isSpace_nil, Json.isSpace_nil⟩,
            (spells_of_means hmeans).1⟩, helements⟩⟩
        · rw [List.map_cons, List.map_cons, htexts]
          simp [Json.Element.padded]
        · rw [List.map_cons, ← hvalues]
  rw [hvalues, renderJsonArray, htexts]
  exact Json.Spells.array Json.isSpace_nil (fun element helement => (helements element helement).1)
    fun element helement => (helements element helement).2

theorem means_raw {object : JsonObject} {members : List (Text × Json.Value)}
    (h : List.Forall₂ JsonField.Means object.fields members) (name : Text) {value : Json.Value}
    {text : Text} (hspells : Json.Spells value text) :
    List.Forall₂ JsonField.Means (object.raw name text).fields (members ++ [(name, value)]) :=
  List.rel_append h (.cons ⟨rfl, hspells⟩ .nil)

mutual

/-- A call adds the member that its content stands for. -/
theorem Content.means (content : Content) {object : JsonObject}
    {members : List (Text × Json.Value)}
    (h : List.Forall₂ JsonField.Means object.fields members) (name : Text) :
    List.Forall₂ JsonField.Means (content.addTo object name).fields
      (members ++ [(name, content.toJson)]) := by
  cases content with
  | string text =>
      exact List.rel_append h (.cons ⟨rfl, .string (decode_json_escape text)⟩ .nil)
  | number n => exact means_raw h name (.number (@Json.is_number_toDigits [] (by decide) n.toNat))
  | boolean value =>
      cases value with
      | false => exact means_raw h name .false
      | true => exact means_raw h name .true
  | strings values => exact means_raw h name (spells_of_strings values)
  | object fields => exact means_raw h name (spells_of_means (fields.means .nil)).1
  | prettyObject indent fields =>
      exact means_raw h name ((spells_of_means (fields.means .nil)).2 indent)
  | objects items => exact means_raw h name (spells_of_objects items.means)

/-- The contents of an object stand for its members. -/
theorem Contents.means (contents : Contents) {object : JsonObject}
    {members : List (Text × Json.Value)}
    (h : List.Forall₂ JsonField.Means object.fields members) :
    List.Forall₂ JsonField.Means (contents.addTo object).fields (members ++ contents.toJson) := by
  cases contents with
  | nil =>
      rw [Contents.addTo, Contents.toJson, List.append_nil]
      exact h
  | cons name content rest =>
      rw [Contents.addTo, Contents.toJson, List.append_cons]
      exact rest.means (content.means h name)

/-- The items of an array stand for objects. -/
theorem Items.means (items : Items) :
    List.Forall₂ (fun object value => ∃ members, value = Json.Value.object members ∧
      List.Forall₂ JsonField.Means object.fields members) items.build items.toJson := by
  cases items with
  | nil => exact .nil
  | cons fields rest => exact .cons ⟨_, rfl, fields.means .nil⟩ rest.means

end

/-- A text that spells a value is read as that value and no other. -/
theorem document_iff {value : Json.Value} {text : Text} (h : Json.Spells value text)
    (found : Json.Value) : Json.Document found text ↔ found = value := by
  constructor
  · exact fun hfound => hfound.unique (.of_spells h)
  · rintro rfl
    exact .of_spells h

/-- **Nested reports.** Whatever is nested in an object, a reader of its text finds that and nothing
else, whether the text is compact or pretty with any indent, and so it does for arrays of objects
and of strings. A status has its notes if there are any. -/
theorem nested_json_read_back :
    (∀ (contents : Contents) (found : Json.Value),
      (Json.Document found (renderJsonObject (contents.addTo {})) ↔
        found = .object contents.toJson) ∧
      ∀ indent, Json.Document found (renderJsonObjectPretty (contents.addTo {}) indent) ↔
        found = .object contents.toJson) ∧
    (∀ (items : Items) (found : Json.Value),
      Json.Document found (renderJsonArray items.build) ↔ found = .array items.toJson) ∧
    (∀ (values : List Text) (found : Json.Value),
      Json.Document found (renderJsonStringArray values) ↔
        found = .array (values.map .string)) ∧
    ∀ (status message : Text) (notes : List Text) (found : Json.Value),
      Json.Document found (renderStatusJson status message notes) ↔
        found = .object (("status".toList, .string status) :: ("message".toList, .string message) ::
          if notes = [] then [] else [("notes".toList, .array (notes.map .string))]) := by
  refine ⟨fun contents found => ?_, fun items found => ?_, fun values found => ?_,
    fun status message notes found => ?_⟩
  · obtain ⟨hcompact, hpretty⟩ := spells_of_means (@Contents.means contents {} [] .nil)
    exact ⟨document_iff hcompact found, fun indent => document_iff (hpretty indent) found⟩
  · exact document_iff (spells_of_objects items.means) found
  · exact document_iff (spells_of_strings values) found
  · let contents : Contents := .cons "status".toList (.string status)
      (.cons "message".toList (.string message)
        (if notes = [] then .nil else .cons "notes".toList (.strings notes) .nil))
    have hspells := (spells_of_means (@Contents.means contents {} [] .nil)).1
    refine (congrArg (Json.Document found) ?_).to_iff.trans ((document_iff hspells found).trans ?_)
    · cases notes <;> rfl
    · cases notes <;> rfl

end Aethon.Diagnostics
