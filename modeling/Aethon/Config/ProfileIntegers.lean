import Aethon.Config.Profile

/-!
# Integers of a profile

Five fields of the collector profile are integers, each with its own type and default. All of them
are read by `get_int`, so between `2^31` and `2^64` a written number is out of the range of the
reader and in the range of the field, and a number written for the region is cut to 16 bits.
`load_exact_iff` says for each field which numbers are taken over as they should be.
-/

namespace Aethon.Config

open Text

/-! ## The readers on a number -/

section Readers

variable {config : ParsedConfig} {key : Text} {n : ℤ}

theorem toNat_of_int_u64 (hlow : 0 ≤ n) (hhigh : n < 2 ^ 64) :
    ((UInt64.ofInt n).toNat : ℤ) = n := by
  rw [UInt64.ofInt, UInt64.toNat_ofNat']
  omega

theorem toNat_of_int_u16 (n : ℤ) : ((UInt16.ofInt n).toNat : ℤ) = n % 65536 := by
  rw [UInt16.ofInt, UInt16.toNat_ofNat']
  omega

theorem toNat_of_int_u8 (hlow : 0 ≤ n) (hhigh : n < 2 ^ 8) :
    ((UInt8.ofInt n).toNat : ℤ) = n := by
  rw [UInt8.ofInt, UInt8.toNat_ofNat']
  omega

/-- A default that `get_u64_or` returns after the cast to an `int`: one that the cast keeps, or one
that it makes negative. -/
def Kept (fallback : UInt64) : Prop :=
  fallback.toNat < 2 ^ 31 ∨ (Int32.ofNat fallback.toNat).toInt < 0

/-- `get_u64_or` takes a number over from 0 up to the largest `int`. -/
theorem get_u64_of_decimal {fallback : UInt64} (hkept : Kept fallback)
    (h : config.get key = some (signedDecimal n)) :
    getU64Or config key fallback =
      if 0 ≤ n ∧ n < 2 ^ 31 then UInt64.ofInt n else fallback := by
  unfold getU64Or
  dsimp only
  simp only [ParsedConfig.get_int_of_decimal h, Int32.lt_iff_toInt_lt, Int32.toInt_zero]
  by_cases hint : -2 ^ 31 ≤ n ∧ n < 2 ^ 31
  · rw [if_pos hint, Int32.toInt_ofInt_of_le hint.1 hint.2]
    by_cases hnegative : n < 0
    · rw [if_pos hnegative, if_neg (by omega)]
    · rw [if_neg hnegative, if_pos ⟨by omega, hint.2⟩]
  · rw [if_neg hint, if_neg (show ¬ (0 ≤ n ∧ n < 2 ^ 31) by omega)]
    rcases hkept with hsmall | hnegative
    · have hcast : (Int32.ofNat fallback.toNat).toInt = fallback.toNat :=
        Int32.toInt_ofNat_of_lt hsmall
      rw [hcast, if_neg (by omega)]
      refine UInt64.toNat_inj.mp ?_
      have hback := toNat_of_int_u64 (n := fallback.toNat) (by omega) (by omega)
      omega
    · rw [if_pos hnegative]

/-- `get_u8_or` checks the range of its field. -/
theorem get_u8_of_decimal (fallback : UInt8) (h : config.get key = some (signedDecimal n)) :
    getU8Or config key fallback =
      if 0 ≤ n ∧ n < 2 ^ 8 then UInt8.ofInt n else fallback := by
  have hfallback := fallback.toNat_lt
  have hcast : (Int32.ofNat fallback.toNat).toInt = fallback.toNat :=
    Int32.toInt_ofNat_of_lt (by omega)
  unfold getU8Or
  dsimp only
  simp only [ParsedConfig.get_int_of_decimal h, Int32.lt_iff_toInt_lt, Int32.toInt_zero,
    show (255 : Int32).toInt = 255 from rfl]
  by_cases hint : -2 ^ 31 ≤ n ∧ n < 2 ^ 31
  · rw [if_pos hint, Int32.toInt_ofInt_of_le hint.1 hint.2]
    by_cases hbyte : 0 ≤ n ∧ n < 2 ^ 8
    · rw [if_pos hbyte, if_neg (by omega)]
    · rw [if_neg hbyte, if_pos (by omega)]
  · rw [if_neg hint, if_neg (show ¬ (0 ≤ n ∧ n < 2 ^ 8) by omega), hcast, if_neg (by omega)]
    refine UInt8.toNat_inj.mp ?_
    have hback := toNat_of_int_u8 (n := fallback.toNat) (by omega) (by omega)
    omega

end Readers

/-! ## The fields -/

/-- The integer fields of a profile. -/
inductive IntegerField where
  | rotateBytes
  | maxPacketSize
  | idleTimeoutNs
  | region
  | defaultPriority
  deriving DecidableEq, Repr

namespace IntegerField

/-- The key that a field is read from. -/
def key : IntegerField → Text
  | rotateBytes => "archive.rotate_bytes".toList
  | maxPacketSize => "stream.max_packet_size".toList
  | idleTimeoutNs => "stream.idle_timeout_ns".toList
  | region => "collector.region".toList
  | defaultPriority => "routing.default_priority".toList

/-- The width of the type of the field. -/
def bits : IntegerField → Nat
  | rotateBytes | maxPacketSize | idleTimeoutNs => 64
  | region => 16
  | defaultPriority => 8

/-- The field of a profile as a number. -/
def read (profile : CollectorProfile) : IntegerField → Nat
  | rotateBytes => profile.archive.rotateBytes.toNat
  | maxPacketSize => profile.stream.maxPacketSize.toNat
  | idleTimeoutNs => profile.stream.idleTimeoutNs.toNat
  | region => profile.routing.region.toNat
  | defaultPriority => profile.routing.defaultPriority.toNat

/-- The value of the field in a profile that nothing was read into. -/
def default (field : IntegerField) : Nat :=
  field.read {}

/-- A number that the type of the field can hold. -/
def Representable (field : IntegerField) (n : ℤ) : Prop :=
  0 ≤ n ∧ n < 2 ^ field.bits

instance (field : IntegerField) (n : ℤ) : Decidable (field.Representable n) :=
  inferInstanceAs (Decidable (0 ≤ n ∧ n < 2 ^ field.bits))

/-- What the field should hold when `n` is written. -/
def expected (field : IntegerField) (n : ℤ) : ℤ :=
  if field.Representable n then n else field.default

/-- The numbers that are taken over as they should be. A field of 64 bits ignores what no `int`
holds, which is right for the default itself. The region keeps the low bits of an `int`, which is
right when they are those of the default 0. -/
def Exact : IntegerField → ℤ → Prop
  | region, n => region.Representable n ∨ ¬ (-2 ^ 31 ≤ n ∧ n < 2 ^ 31) ∨ 65536 ∣ n
  | defaultPriority, _ => True
  | field, n => ¬ (2 ^ 31 ≤ n ∧ n < 2 ^ 64) ∨ n = field.default

variable {config : ParsedConfig} {text : Text} {n : ℤ}

/-- A field of 64 bits that is read with a kept default. -/
theorem exact_of_u64 {fallback : UInt64} (hkept : Kept fallback)
    (h : config.get text = some (signedDecimal n)) :
    ((getU64Or config text fallback).toNat : ℤ) =
        (if 0 ≤ n ∧ n < 2 ^ 64 then n else fallback.toNat) ↔
      ¬ (2 ^ 31 ≤ n ∧ n < 2 ^ 64) ∨ n = fallback.toNat := by
  rw [get_u64_of_decimal hkept h]
  by_cases hint : 0 ≤ n ∧ n < 2 ^ 31
  · rw [if_pos hint, if_pos (by omega), toNat_of_int_u64 hint.1 (by omega)]
    exact iff_of_true rfl (Or.inl (by omega))
  · rw [if_neg hint]
    by_cases hword : 0 ≤ n ∧ n < 2 ^ 64
    · rw [if_pos hword]
      omega
    · rw [if_neg hword]
      exact iff_of_true rfl (Or.inl (by omega))

/-- A region is read as it should be when it fits into 16 bits, is no `int` or is a multiple of
65536. -/
theorem exact_of_region (h : config.get text = some (signedDecimal n)) :
    ((UInt16.ofInt (config.getInt text 0).toInt).toNat : ℤ) =
        (if 0 ≤ n ∧ n < 2 ^ 16 then n else 0) ↔
      (0 ≤ n ∧ n < 2 ^ 16) ∨ ¬ (-2 ^ 31 ≤ n ∧ n < 2 ^ 31) ∨ 65536 ∣ n := by
  rw [toNat_of_int_u16, ParsedConfig.get_int_of_decimal h]
  by_cases hint : -2 ^ 31 ≤ n ∧ n < 2 ^ 31
  · rw [if_pos hint, Int32.toInt_ofInt_of_le hint.1 hint.2]
    split <;> omega
  · rw [if_neg hint, Int32.toInt_zero, if_neg (by omega)]
    exact iff_of_true rfl (Or.inr (Or.inl hint))

/-- A priority that does not fit is read as zero. -/
theorem read_priority (h : config.get text = some (signedDecimal n)) :
    ((getU8Or config text 0).toNat : ℤ) = if 0 ≤ n ∧ n < 2 ^ 8 then n else 0 := by
  rw [get_u8_of_decimal 0 h]
  by_cases hbyte : 0 ≤ n ∧ n < 2 ^ 8
  · rw [if_pos hbyte, if_pos hbyte, toNat_of_int_u8 hbyte.1 hbyte.2]
  · rw [if_neg hbyte, if_neg hbyte]
    rfl

theorem kept_rotate_bytes : Kept ({} : ArchiveProfile).rotateBytes :=
  Or.inl (by decide)

theorem kept_max_packet_size : Kept ({} : StreamProfile).maxPacketSize :=
  Or.inl (by decide)

/-- The cast makes 30 seconds in nanoseconds negative. -/
theorem kept_idle_timeout : Kept ({} : StreamProfile).idleTimeoutNs :=
  Or.inr (by decide)

end IntegerField

open IntegerField

/-- The integers of a loaded profile: a written number is taken over when it is representable, and
replaced by the default otherwise, exactly for the numbers of `Exact`. -/
theorem load_exact_iff (config : ParsedConfig) (field : IntegerField) (n : ℤ)
    (h : config.get field.key = some (signedDecimal n)) :
    (field.read (loadCollectorProfile config) : ℤ) = field.expected n ↔ field.Exact n := by
  cases field with
  | rotateBytes => exact exact_of_u64 kept_rotate_bytes h
  | maxPacketSize => exact exact_of_u64 kept_max_packet_size h
  | idleTimeoutNs => exact exact_of_u64 kept_idle_timeout h
  | region => exact exact_of_region h
  | defaultPriority => exact iff_of_true (read_priority h) trivial

/-- A configuration with region 7. -/
def regionSeven : ParsedConfig where
  values := (∅ : Std.ExtTreeMap Text Text).insert region.key (signedDecimal 7)

/-- Region 7 is taken over. -/
theorem load_region_seven :
    (region.read (loadCollectorProfile regionSeven) : ℤ) = region.expected 7 ↔ region.Exact 7 :=
  load_exact_iff regionSeven region 7 (by decide)

/-- A collector with a region that 16 bits do not hold. -/
def wideRegion : Text :=
  "collector.name = east\ncollector.region = 70000\narchive.enabled = true".toList

/-- The characters of the text, which evaluate faster than the string. -/
theorem wide_region_chars :
    wideRegion =
      ['c', 'o', 'l', 'l', 'e', 'c', 't', 'o', 'r', '.', 'n', 'a', 'm', 'e', ' ', '=', ' ', 'e',
        'a', 's', 't', '\n', 'c', 'o', 'l', 'l', 'e', 'c', 't', 'o', 'r', '.', 'r', 'e', 'g', 'i',
        'o', 'n', ' ', '=', ' ', '7', '0', '0', '0', '0', '\n', 'a', 'r', 'c', 'h', 'i', 'v', 'e',
        '.', 'e', 'n', 'a', 'b', 'l', 'e', 'd', ' ', '=', ' ', 't', 'r', 'u', 'e'] :=
  String.toList_ofList

/-- Region 70000 is cut to region 4464. -/
theorem wide_region_cut :
    ∃ config, ConfigParser.parse {} wideRegion = .ok config ∧
      config.get region.key = some (signedDecimal 70000) ∧
      region.read (loadCollectorProfile config) = 4464 ∧ region.expected 70000 = 0 ∧
      (region.read (loadCollectorProfile config) : ℤ) ≠ region.expected 70000 := by
  have hparsed : (ConfigParser.parse {} wideRegion).toOption.bind
      (fun config => config.get region.key) = some (signedDecimal 70000) := by
    rw [wide_region_chars]
    decide +kernel
  cases hparse : ConfigParser.parse {} wideRegion with
  | error error =>
      rw [hparse] at hparsed
      cases hparsed
  | ok config =>
      rw [hparse] at hparsed
      have hget : config.get region.key = some (signedDecimal 70000) := hparsed
      have hread : region.read (loadCollectorProfile config) = 4464 := by
        show (UInt16.ofInt (config.getInt region.key 0).toInt).toNat = 4464
        rw [ParsedConfig.get_int_of_decimal hget]
        decide
      have hexpected : region.expected 70000 = 0 := by decide
      refine ⟨config, rfl, hget, hread, hexpected, ?_⟩
      rw [hread, hexpected]
      decide

/-- A written number is in the range that the rule of its key names, when there are no issues. -/
theorem bounds_of_validated {config : ParsedConfig} {text : Text} {n : ℤ} {required : Bool}
    {low high : Int32} (hok : (collectorConfigSchema.validate config).ok = true)
    (hmem : ⟨text, .integer, required, some low, some high⟩ ∈ collectorConfigSchema.rules)
    (h : config.get text = some (signedDecimal n)) : low.toInt ≤ n ∧ n ≤ high.toInt := by
  obtain ⟨-, hmin, hmax⟩ :=
    ConfigSchema.in_range_of_messages rfl h (ConfigSchema.ok_iff.mp hok _ hmem)
  exact ⟨hmin low rfl, hmax high rfl⟩

/-- In a configuration without issues the numbers that the schema knows are taken over. -/
theorem read_of_validated {config : ParsedConfig} {field : IntegerField} {n : ℤ}
    (hfield : field = region ∨ field = maxPacketSize ∨ field = defaultPriority)
    (hok : (collectorConfigSchema.validate config).ok = true)
    (h : config.get field.key = some (signedDecimal n)) :
    (field.read (loadCollectorProfile config) : ℤ) = n := by
  rcases hfield with rfl | rfl | rfl
  · have hrule : (⟨region.key, .integer, true, some 0, some 65535⟩ : ConfigRule) ∈
        collectorConfigSchema.rules := by decide
    obtain ⟨hlow, hhigh⟩ : 0 ≤ n ∧ n ≤ 65535 := bounds_of_validated hok hrule h
    have hin : 0 ≤ n ∧ n < 2 ^ 16 := ⟨hlow, by omega⟩
    have hread := (exact_of_region h).mpr (Or.inl hin)
    rwa [if_pos hin] at hread
  · have hrule : (⟨maxPacketSize.key, .integer, false, some 64, some 16777216⟩ : ConfigRule) ∈
        collectorConfigSchema.rules := by decide
    obtain ⟨hlow, hhigh⟩ : 64 ≤ n ∧ n ≤ 16777216 := bounds_of_validated hok hrule h
    have hin : 0 ≤ n ∧ n < 2 ^ 64 := ⟨by omega, by omega⟩
    have hread := (exact_of_u64 kept_max_packet_size h).mpr (Or.inl (by omega))
    rwa [if_pos hin] at hread
  · have hrule : (⟨defaultPriority.key, .integer, false, some 0, some 255⟩ : ConfigRule) ∈
        collectorConfigSchema.rules := by decide
    obtain ⟨hlow, hhigh⟩ : 0 ≤ n ∧ n ≤ 255 := bounds_of_validated hok hrule h
    have hin : 0 ≤ n ∧ n < 2 ^ 8 := ⟨hlow, by omega⟩
    have hread := read_priority h
    rwa [if_pos hin] at hread

end Aethon.Config
