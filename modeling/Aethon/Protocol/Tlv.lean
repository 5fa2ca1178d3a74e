import Aethon.Codec.BinaryReader
import Aethon.Codec.BinaryWriter

/-!
# Type-length-value fields

The parser and the encoder of `protocol/tlv.cpp`: fields of a 16-bit type, a 16-bit length and a
value, one behind the other. An unsigned number is a field with as few bytes as it needs.
-/

namespace Aethon.Protocol

open Codec Parsing LittleEndian

/-- A field with its type. -/
structure TlvField where
  type : UInt16 := 0
  value : Bytes := []
  deriving DecidableEq, Repr

/-- The limits of the parser. -/
structure TlvParseOptions where
  maxFields : Nat := 128
  maxValueSize : Nat := 64 * 1024
  requireFullBuffer : Bool := true
  deriving DecidableEq, Repr

/-! ## Parsing -/

/-- One round of the loop behind the tests on the rest of the buffer. -/
def readTlvField (options : TlvParseOptions) : BinaryReader TlvField := do
  let type ← BinaryReader.u16
  let length ← BinaryReader.u16
  rejectIf (length.toNat > options.maxValueSize)
    (Error.mk .malformedPacket "tlv field exceeds maximum value size")
  let value ← BinaryReader.bytes length.toNat
  pure { type, value }

/-- A field on the wire. -/
def TlvField.wire (field : TlvField) : Bytes :=
  digits 2 field.type.toNat ++ digits 2 field.value.length ++ field.value

@[simp] theorem length_field_wire (field : TlvField) :
    field.wire.length = 4 + field.value.length := by
  simp [TlvField.wire]
  omega

/-- A field is a type and bytes behind their length. -/
theorem read_tlv_field_exact (options : TlvParseOptions) :
    Exact (readTlvField options) TlvField.wire
      fun field => field.value.length ≤ options.maxValueSize ∧ field.value.length < 2 ^ 16 := by
  have hread : readTlvField options = (do
      let type ← BinaryReader.u16
      let value ← BinaryReader.sized options.maxValueSize
        (Error.mk .malformedPacket "tlv field exceeds maximum value size")
      pure { type, value }) := by
    simp only [readTlvField, BinaryReader.sized, bind_assoc]
  refine ⟨fun input rest field => ?_⟩
  simp only [hread, bind_ok_iff, BinaryReader.u16_exact.ok_iff,
    (BinaryReader.sized_exact _ _).ok_iff, pure_ok_iff, and_true]
  constructor
  · rintro ⟨type, _, rfl, value, _, ⟨rfl, hgood⟩, rfl, rfl⟩
    exact ⟨by simp [TlvField.wire], hgood⟩
  · rintro ⟨rfl, hgood⟩
    exact ⟨field.type, digits 2 field.value.length ++ field.value ++ rest, by simp [TlvField.wire],
      field.value, rest, ⟨rfl, hgood⟩, rfl, rfl⟩

/-- A field that is read makes the rest shorter. -/
theorem read_tlv_field_shorter {options : TlvParseOptions} {unread rest : Bytes}
    {field : TlvField} (h : readTlvField options unread = .ok (field, rest)) :
    rest.length < unread.length := by
  obtain ⟨rfl, -⟩ := ((read_tlv_field_exact options).ok_iff _ _ _).mp h
  rw [List.length_append, length_field_wire]
  omega

/-- The loop over the unread bytes, with the fields so far. -/
def parseTlvLoop (options : TlvParseOptions) (fields : List TlvField) (unread : Bytes) :
    Except Error (List TlvField) :=
  if unread.isEmpty then .ok fields
  else if unread.length < 4 then
    if options.requireFullBuffer then .error ⟨.malformedPacket, "truncated tlv header"⟩
    else .ok fields
  else if fields.length ≥ options.maxFields then .error ⟨.malformedPacket, "too many tlv fields"⟩
  else
    match _h : readTlvField options unread with
    | .error failure => .error failure
    | .ok (field, rest) => parseTlvLoop options (fields ++ [field]) rest
termination_by unread.length
decreasing_by exact read_tlv_field_shorter _h

/-- Parse fields from the start of a buffer. -/
def parseTlvFields (bytes : Bytes) (options : TlvParseOptions := {}) :
    Except Error (List TlvField) :=
  parseTlvLoop options [] bytes

/-! ## Encoding -/

/-- One round of the loop of `encode_tlv_fields`. -/
def writeTlvField (writer : BinaryWriter) (field : TlvField) : Except Error BinaryWriter :=
  if field.value.length > 65535 then
    .error ⟨.invalidArgument, "tlv field is too large to encode"⟩
  else
    .ok (((writer.u16 field.type).u16 (UInt16.ofNat field.value.length)).bytes field.value)

/-- The wire form of fields, one behind the other. -/
def encodeTlvFields (fields : List TlvField) : Except Error Bytes := do
  let writer ← fields.foldlM writeTlvField {}
  pure writer.buffer

/-- A field is written as its bytes, up to the largest length. -/
theorem write_tlv_field_ok_iff (writer : BinaryWriter) (field : TlvField)
    (writer' : BinaryWriter) : writeTlvField writer field = .ok writer' ↔
      field.value.length < 2 ^ 16 ∧ writer' = ⟨writer.buffer ++ field.wire⟩ := by
  unfold writeTlvField
  split
  · simp only [reduceCtorEq, false_iff, not_and]
    omega
  · have hwidth : field.value.length < 2 ^ 16 := by omega
    have hlength : (UInt16.ofNat field.value.length).toNat = field.value.length :=
      Nat.mod_eq_of_lt hwidth
    have hbuffer : ((writer.u16 field.type).u16 (UInt16.ofNat field.value.length)).bytes
        field.value = ⟨writer.buffer ++ field.wire⟩ := by
      rw [BinaryWriter.bytes, BinaryWriter.buffer_u16, BinaryWriter.buffer_u16, hlength,
        TlvField.wire]
      simp only [List.append_assoc]
    rw [hbuffer, Except.ok.injEq]
    exact ⟨fun h => ⟨hwidth, h.symm⟩, fun h => h.2.symm⟩

/-- The encoder writes the fields one behind the other, and refuses a value of more than 65535
bytes. -/
theorem encode_tlv_fields_ok_iff {fields : List TlvField} {bytes : Bytes} :
    encodeTlvFields fields = .ok bytes ↔
      (∀ field ∈ fields, field.value.length < 2 ^ 16) ∧ bytes = fields.flatMap TlvField.wire := by
  simp only [encodeTlvFields, except_bind_ok_iff, except_pure_ok_iff,
    BinaryWriter.foldlM_ok_iff write_tlv_field_ok_iff]
  constructor
  · intro h
    obtain ⟨writer, ⟨hfields, rfl⟩, rfl⟩ := h
    exact ⟨hfields, rfl⟩
  · intro h
    obtain ⟨hfields, rfl⟩ := h
    exact ⟨_, ⟨hfields, rfl⟩, rfl⟩

/-! ## Values -/

/-- The number in a field of one to eight bytes. -/
def tlvUnsigned (field : TlvField) : Option UInt64 :=
  if field.value.isEmpty || field.value.length > 8 then none
  else some (field.value.zipIdx.foldl
    (fun value (byte, i) => value ||| (byte.toUInt64 <<< UInt64.ofNat (8 * i))) 0)

theorem toNat_shift_byte (value : UInt64) : (value >>> 8).toNat = value.toNat / 256 := by
  rw [UInt64.toNat_shiftRight]
  exact Nat.shiftRight_eq_div_pow ..

theorem shift_byte_lt {value : UInt64} (h : value >>> 8 ≠ 0) :
    (value >>> 8).toNat < value.toNat := by
  have hne : (value >>> 8).toNat ≠ 0 := fun hzero => h (UInt64.toNat_inj.mp hzero)
  rw [toNat_shift_byte] at hne ⊢
  omega

/-- The loop of `make_tlv_u64`: at least one byte. -/
def unsignedBytes (value : UInt64) : Bytes :=
  (value &&& 0xff).toUInt8 :: if value >>> 8 ≠ 0 then unsignedBytes (value >>> 8) else []
termination_by value.toNat
decreasing_by exact shift_byte_lt ‹_›

/-- A buffer of one field with a number. -/
def makeTlvU64 (type : UInt16) (value : UInt64) : Except Error Bytes :=
  encodeTlvFields [{ type, value := unsignedBytes value }]

end Aethon.Protocol
