import Mathlib.Tactic.Ring
import Aethon.Protocol.Tlv

/-!
# Round trips of the fields

`parse_tlv_fields_ok_iff` says which byte strings the parser accepts: fields within its limits, and
behind them nothing, or a rest that is shorter than a header where the full buffer is not required.
So it accepts just what the encoder writes, and a number survives its shortest encoding.
-/

namespace Aethon.Protocol

open Codec Parsing LittleEndian

/-! ## Fields -/

/-- What the parser may leave unread. -/
def TlvParseOptions.Leaves (options : TlvParseOptions) (rest : Bytes) : Prop :=
  rest = [] ∨ options.requireFullBuffer = false ∧ rest.length < 4

theorem TlvParseOptions.Leaves.length_lt {options : TlvParseOptions} {rest : Bytes}
    (h : options.Leaves rest) : rest.length < 4 := by
  rcases h with rfl | ⟨-, hlength⟩
  · exact Nat.zero_lt_succ 3
  · exact hlength

section Loop

variable {options : TlvParseOptions} {before : List TlvField}

/-- The loop ends where it may leave the rest unread. -/
theorem parse_tlv_loop_leaves {rest : Bytes} (h : options.Leaves rest) :
    parseTlvLoop options before rest = .ok before := by
  have hlength := h.length_lt
  rw [parseTlvLoop]
  rcases h with rfl | ⟨hfull, -⟩
  · rfl
  · rw [hfull, if_pos hlength]
    split <;> rfl

/-- The loop goes on behind a field that is within the limits. -/
theorem parse_tlv_loop_field {field : TlvField} (hroom : before.length < options.maxFields)
    (hfield : field.value.length ≤ options.maxValueSize ∧ field.value.length < 2 ^ 16)
    (rest : Bytes) :
    parseTlvLoop options before (field.wire ++ rest) =
      parseTlvLoop options (before ++ [field]) rest := by
  have hread : readTlvField options (field.wire ++ rest) = .ok (field, rest) :=
    ((read_tlv_field_exact options).ok_iff _ _ _).mpr ⟨rfl, hfield⟩
  have hlong : ¬ (field.wire ++ rest).length < 4 := by
    rw [List.length_append, length_field_wire]
    omega
  have hnonempty : ¬ (field.wire ++ rest).isEmpty = true := by
    rw [List.isEmpty_iff]
    intro hempty
    rw [hempty] at hlong
    exact hlong (Nat.zero_lt_succ 3)
  rw [parseTlvLoop, if_neg hnonempty, if_neg hlong, if_neg (Nat.not_le.mpr hroom)]
  split
  case h_1 hfailure =>
    rw [hread] at hfailure
    cases hfailure
  case h_2 hok =>
    rw [hread] at hok
    cases hok
    rfl

/-- The loop appends the fields that it reads, until the rest is too short for a header. -/
theorem parse_tlv_loop_reads {fields : List TlvField} {unread : Bytes}
    (hbefore : before.length ≤ options.maxFields)
    (h : parseTlvLoop options before unread = .ok fields) :
    ∃ added rest, fields = before ++ added ∧ unread = added.flatMap TlvField.wire ++ rest ∧
      options.Leaves rest ∧ fields.length ≤ options.maxFields ∧
      ∀ field ∈ added, field.value.length ≤ options.maxValueSize ∧
        field.value.length < 2 ^ 16 := by
  fun_induction parseTlvLoop options before unread with
  | case1 before unread hempty =>
      cases h
      rw [List.isEmpty_iff] at hempty
      exact ⟨[], [], by simp, by simp [hempty], .inl rfl, hbefore, by simp⟩
  | case2 => cases h
  | case3 before unread hempty hshort hfull =>
      cases h
      exact ⟨[], unread, by simp, by simp, .inr ⟨by simpa using hfull, hshort⟩, hbefore, by simp⟩
  | case4 => cases h
  | case5 => cases h
  | case6 before unread hempty hlong hroom field rest hread ih =>
      obtain ⟨added, last, rfl, rfl, hleaves, hcount, hadded⟩ := ih (by simp; omega) h
      obtain ⟨rfl, hfield⟩ := ((read_tlv_field_exact options).ok_iff _ _ _).mp hread
      exact ⟨field :: added, last, by simp, by simp, hleaves, hcount,
        List.forall_mem_cons.mpr ⟨hfield, hadded⟩⟩

/-- The loop reads the fields that were written, one by one. -/
theorem parse_tlv_loop_fields {added : List TlvField} {rest : Bytes}
    (hleaves : options.Leaves rest) (hcount : (before ++ added).length ≤ options.maxFields)
    (hadded : ∀ field ∈ added, field.value.length ≤ options.maxValueSize ∧
      field.value.length < 2 ^ 16) :
    parseTlvLoop options before (added.flatMap TlvField.wire ++ rest) = .ok (before ++ added) := by
  induction added generalizing before with
  | nil =>
      rw [List.append_nil]
      exact parse_tlv_loop_leaves hleaves
  | cons field added ih =>
      obtain ⟨hfield, hadded⟩ := List.forall_mem_cons.mp hadded
      have hroom : before.length < options.maxFields := by
        rw [List.length_append, List.length_cons] at hcount
        omega
      rw [List.flatMap_cons, List.append_assoc, parse_tlv_loop_field hroom hfield]
      rw [List.append_cons before field added] at hcount ⊢
      exact ih hcount hadded

end Loop

/-- The parser accepts fields within its limits, with a rest that it may leave behind them. -/
theorem parse_tlv_fields_ok_iff {options : TlvParseOptions} {bytes : Bytes}
    {fields : List TlvField} :
    parseTlvFields bytes options = .ok fields ↔
      ∃ rest, bytes = fields.flatMap TlvField.wire ++ rest ∧ options.Leaves rest ∧
        fields.length ≤ options.maxFields ∧
        ∀ field ∈ fields, field.value.length ≤ options.maxValueSize ∧
          field.value.length < 2 ^ 16 := by
  constructor
  · intro h
    obtain ⟨added, rest, rfl, hbytes, hleaves, hcount, hadded⟩ :=
      parse_tlv_loop_reads (Nat.zero_le _) h
    exact ⟨rest, hbytes, hleaves, hcount, hadded⟩
  · rintro ⟨rest, rfl, hleaves, hcount, hfields⟩
    exact parse_tlv_loop_fields hleaves hcount hfields

/-- With the full buffer required the parser inverts the encoder. -/
theorem parse_iff_encode {options : TlvParseOptions} (hfull : options.requireFullBuffer = true)
    {bytes : Bytes} {fields : List TlvField} :
    parseTlvFields bytes options = .ok fields ↔
      encodeTlvFields fields = .ok bytes ∧ fields.length ≤ options.maxFields ∧
        ∀ field ∈ fields, field.value.length ≤ options.maxValueSize := by
  rw [parse_tlv_fields_ok_iff, encode_tlv_fields_ok_iff]
  constructor
  · intro h
    obtain ⟨rest, rfl, rfl | ⟨hnot, -⟩, hcount, hfields⟩ := h
    · rw [List.append_nil]
      exact ⟨⟨fun field hfield => (hfields field hfield).2, rfl⟩, hcount,
        fun field hfield => (hfields field hfield).1⟩
    · rw [hfull] at hnot
      cases hnot
  · intro h
    obtain ⟨⟨hwidth, rfl⟩, hcount, hmax⟩ := h
    exact ⟨[], (List.append_nil _).symm, .inl rfl, hcount,
      fun field hfield => ⟨hmax field hfield, hwidth field hfield⟩⟩

/-! ## Numbers -/

/-- A byte that is set above the bits of a number adds its digit. -/
theorem toNat_or_byte {low : UInt64} {shift : Nat} (byte : UInt8)
    (hlow : low.toNat < 2 ^ (8 * shift)) (hfits : shift < 8) :
    (low ||| (byte.toUInt64 <<< UInt64.ofNat (8 * shift))).toNat =
      low.toNat + byte.toNat * 2 ^ (8 * shift) := by
  have hshift : (UInt64.ofNat (8 * shift)).toNat % 64 = 8 * shift := by
    have hword : 8 * shift < UInt64.size := by
      show 8 * shift < 2 ^ 64
      omega
    rw [UInt64.toNat_ofNat_of_lt' hword]
    omega
  rw [UInt64.toNat_or, UInt64.toNat_shiftLeft, hshift, UInt8.toNat_toUInt64,
    BinaryReader.byte_shift_mod byte (by omega), or_shift _ hlow]

/-- The loop of `tlv_unsigned` from a position on. -/
theorem foldl_or_bytes (bytes : Bytes) (shift : Nat) (low : UInt64)
    (hlow : low.toNat < 2 ^ (8 * shift)) (hfits : shift + bytes.length ≤ 8) :
    ((bytes.zipIdx shift).foldl
        (fun value (byte, i) => value ||| (byte.toUInt64 <<< UInt64.ofNat (8 * i))) low).toNat =
      low.toNat + 2 ^ (8 * shift) * value bytes := by
  induction bytes generalizing shift low with
  | nil => rfl
  | cons byte bytes ih =>
    rw [List.length_cons] at hfits
    have hbyte : byte.toNat < 256 := byte.toNat_lt
    have hstep := toNat_or_byte byte hlow (by omega)
    have hpow : 2 ^ (8 * (shift + 1)) = 2 ^ (8 * shift) * 256 := Nat.pow_add 2 (8 * shift) 8
    have hnext : low.toNat + byte.toNat * 2 ^ (8 * shift) < 2 ^ (8 * (shift + 1)) := by
      have hdigit : byte.toNat * 2 ^ (8 * shift) ≤ 255 * 2 ^ (8 * shift) :=
        Nat.mul_le_mul_right _ (by omega)
      omega
    rw [List.zipIdx_cons, List.foldl_cons]
    dsimp only
    rw [ih (shift + 1) _ (by rwa [hstep]) (by omega), hstep, value_cons, hpow]
    ring

/-- A field of one to eight bytes has their value. -/
theorem tlv_unsigned_of_bytes {field : TlvField} (hnonempty : field.value ≠ [])
    (hlength : field.value.length ≤ 8) :
    tlvUnsigned field = some (UInt64.ofNat (value field.value)) := by
  have hbytes := foldl_or_bytes field.value 0 0 (by decide) (by omega)
  have hvalue : value field.value < 2 ^ 64 := by
    calc value field.value < 256 ^ field.value.length := value_lt _
      _ ≤ 256 ^ 8 := Nat.pow_le_pow_right (by decide) hlength
      _ = 2 ^ 64 := by decide
  rw [tlvUnsigned, if_neg (by simpa using ⟨hnonempty, hlength⟩)]
  refine congrArg some (UInt64.toNat_inj.mp (hbytes.trans ?_))
  rw [UInt64.toNat_ofNat_of_lt' hvalue]
  show 0 + 1 * value field.value = _
  omega

/-- The bytes of a number are its digits, no more of them than it needs. -/
theorem unsigned_bytes_spec (number : UInt64) :
    unsignedBytes number ≠ [] ∧ value (unsignedBytes number) = number.toNat ∧
      ∀ width, 0 < width → number.toNat < 256 ^ width → (unsignedBytes number).length ≤ width := by
  have hlow (number : UInt64) : (number &&& 0xff).toUInt8.toNat = number.toNat % 256 := by
    simp [Nat.and_two_pow_sub_one_eq_mod _ 8]
  induction number using unsignedBytes.induct with
  | case1 number ih =>
    rw [unsignedBytes]
    refine ⟨List.cons_ne_nil _ _, ?_⟩
    by_cases hmore : number >>> 8 ≠ 0
    · obtain ⟨-, hvalue, hlength⟩ := ih hmore
      rw [if_pos hmore]
      refine ⟨?_, fun width hpos hwidth => ?_⟩
      · rw [value_cons, hvalue, hlow, toNat_shift_byte]
        omega
      · -- a number with more than one byte needs more than one
        have hne : number.toNat / 256 ≠ 0 := by
          rw [← toNat_shift_byte]
          exact fun hzero => hmore (UInt64.toNat_inj.mp hzero)
        obtain ⟨width, rfl⟩ : ∃ rest, width = rest + 1 := ⟨width - 1, by omega⟩
        rw [Nat.pow_succ] at hwidth
        have hrest : (number >>> 8).toNat < 256 ^ width := by
          rw [toNat_shift_byte]
          exact Nat.div_lt_of_lt_mul (by omega)
        have hwidthPos : 0 < width := by
          by_contra hzero
          rw [Nat.le_zero.mp (Nat.not_lt.mp hzero)] at hwidth
          omega
        exact Nat.succ_le_succ (hlength width hwidthPos hrest)
    · rw [if_neg hmore]
      refine ⟨?_, fun width hpos _ => hpos⟩
      have hzero := congrArg UInt64.toNat (not_not.mp hmore)
      rw [toNat_shift_byte] at hzero
      have hsmall : number.toNat < 256 := by
        by_contra hlarge
        have := Nat.div_pos (Nat.not_lt.mp hlarge) (by decide)
        exact absurd hzero (Nat.pos_iff_ne_zero.mp this)
      rw [value_cons, hlow, value_nil, Nat.mod_eq_of_lt hsmall]
      omega

/-- A number that is made a field is read back, under any limits that let one field of eight bytes
through. -/
theorem make_tlv_u64_spec (type : UInt16) (number : UInt64) :
    ∃ bytes field, makeTlvU64 type number = .ok bytes ∧ field.type = type ∧
      tlvUnsigned field = some number ∧ ∀ options : TlvParseOptions, 1 ≤ options.maxFields →
        8 ≤ options.maxValueSize → parseTlvFields bytes options = .ok [field] := by
  obtain ⟨hnonempty, hvalue, hlength⟩ := unsigned_bytes_spec number
  have hshort : (unsignedBytes number).length ≤ 8 := hlength 8 (by decide) number.toNat_lt
  let field : TlvField := { type, value := unsignedBytes number }
  have hwidth : ∀ other ∈ [field], other.value.length < 2 ^ 16 := by
    intro other hother
    rw [List.mem_singleton.mp hother]
    exact hshort.trans_lt (by decide)
  refine ⟨_, field, encode_tlv_fields_ok_iff.mpr ⟨hwidth, rfl⟩, rfl, ?_,
    fun options hcount hmax => ?_⟩
  · rw [tlv_unsigned_of_bytes hnonempty hshort]
    show some (UInt64.ofNat (value (unsignedBytes number))) = _
    rw [hvalue, UInt64.ofNat_toNat]
  · refine parse_tlv_fields_ok_iff.mpr ⟨[], (List.append_nil _).symm, .inl rfl, hcount, ?_⟩
    intro other hother
    refine ⟨?_, hwidth other hother⟩
    rw [List.mem_singleton.mp hother]
    exact hshort.trans hmax

/-- The parser returns fields just where the encoder writes the bytes for them and they are within
its limits, and throws everywhere else; and a number survives its field under any limits that let
one such field through, the default ones among them. -/
theorem tlv_codec {options : TlvParseOptions} (hfull : options.requireFullBuffer = true) :
    (∀ bytes fields, parseTlvFields bytes options = .ok fields ↔
      encodeTlvFields fields = .ok bytes ∧ fields.length ≤ options.maxFields ∧
        ∀ field ∈ fields, field.value.length ≤ options.maxValueSize) ∧
    (∀ bytes, (∃ failure, parseTlvFields bytes options = .error failure) ↔
      ¬∃ fields, encodeTlvFields fields = .ok bytes ∧ fields.length ≤ options.maxFields ∧
        ∀ field ∈ fields, field.value.length ≤ options.maxValueSize) ∧
    ∀ type number, ∃ bytes field, makeTlvU64 type number = .ok bytes ∧ field.type = type ∧
      tlvUnsigned field = some number ∧ ∀ others : TlvParseOptions, 1 ≤ others.maxFields →
        8 ≤ others.maxValueSize → parseTlvFields bytes others = .ok [field] := by
  refine ⟨fun bytes fields => parse_iff_encode hfull, fun bytes => ?_, make_tlv_u64_spec⟩
  simp only [← parse_iff_encode hfull]
  cases parseTlvFields bytes options with
  | error failure => simp
  | ok fields => simp

/-- The default options require the full buffer. -/
theorem tlv_codec_by_default :
    (∀ bytes fields, parseTlvFields bytes = .ok fields ↔
      encodeTlvFields fields = .ok bytes ∧ fields.length ≤ 128 ∧
        ∀ field ∈ fields, field.value.length ≤ 65536) ∧
    ∀ type number, ∃ bytes field, makeTlvU64 type number = .ok bytes ∧ field.type = type ∧
      tlvUnsigned field = some number ∧ parseTlvFields bytes = .ok [field] := by
  obtain ⟨hparse, -, hnumber⟩ := tlv_codec (show ({} : TlvParseOptions).requireFullBuffer = true
    from rfl)
  refine ⟨hparse, fun type number => ?_⟩
  obtain ⟨bytes, field, hmake, htype, hvalue, hfield⟩ := hnumber type number
  exact ⟨bytes, field, hmake, htype, hvalue, hfield {} (by decide) (by decide)⟩

end Aethon.Protocol
