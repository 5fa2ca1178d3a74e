import Aethon.Foundation.Rounding
import Aethon.Foundation.Words

/-!
# Channel rasters

A raster numbers channels of equal spacing, after `rf/band_plan.cpp`. Both functions guard against
sums and products that do not fit their words. `channel_raster_inverse` is the round trip of a
channel, and says that a frequency is given the number of a nearest channel.
-/

namespace Aethon.Rf

open Rounding

/-- The first centre, the spacing and the numbers of a raster. -/
structure ChannelRaster where
  firstCenterHz : UInt64 := 0
  spacingHz : UInt64 := 0
  bandwidthHz : UInt64 := 0
  firstChannel : UInt32 := 0
  lastChannel : UInt32 := 0
  deriving DecidableEq, Repr

/-- The number of a channel nearest to a frequency, if the raster has it. -/
def channelNumberForFrequency (raster : ChannelRaster) (frequencyHz : UInt64) : Option UInt32 :=
  if raster.spacingHz = 0 ∨ frequencyHz < raster.firstCenterHz then none
  else
    let offset := frequencyHz - raster.firstCenterHz
    let nearest := (offset + raster.spacingHz / 2) / raster.spacingHz
    if nearest > ((0xffffffff : UInt32) - raster.firstChannel).toUInt64 then none
    else
      let channel := raster.firstChannel + nearest.toUInt32
      if channel < raster.firstChannel ∨ channel > raster.lastChannel then none else some channel

/-- The centre of a channel, if the raster has the channel and 64 bits hold the centre. -/
def centerFrequencyForChannel (raster : ChannelRaster) (channel : UInt32) : Option UInt64 :=
  if raster.spacingHz = 0 ∨ channel < raster.firstChannel ∨ channel > raster.lastChannel then none
  else
    let offset := (channel - raster.firstChannel).toUInt64
    if offset > (0xffffffffffffffff - raster.firstCenterHz) / raster.spacingHz then none
    else some (raster.firstCenterHz + offset * raster.spacingHz)

namespace ChannelRaster

/-- The channels of a raster. -/
def Holds (raster : ChannelRaster) (channel : UInt32) : Prop :=
  raster.firstChannel ≤ channel ∧ channel ≤ raster.lastChannel

/-- A loop over the channels that skips those without a centre ends: it is not asked for one, does
not go up to the largest word, or finds a centre there. -/
def Ends (raster : ChannelRaster) : Prop :=
  raster.spacingHz = 0 ∨ raster.lastChannel ≠ 0xffffffff ∨
    (centerFrequencyForChannel raster 0xffffffff).isSome = true

instance (raster : ChannelRaster) : Decidable raster.Ends :=
  inferInstanceAs (Decidable (_ ∨ _ ∨ _))

/-- The centre of a channel, as a number of any size. -/
def center (raster : ChannelRaster) (channel : UInt32) : Nat :=
  raster.firstCenterHz.toNat +
    (channel.toNat - raster.firstChannel.toNat) * raster.spacingHz.toNat

variable {raster : ChannelRaster} {channel : UInt32} {frequencyHz : UInt64}

theorem spacing_pos (hspacing : raster.spacingHz ≠ 0) : 0 < raster.spacingHz.toNat :=
  Nat.pos_of_ne_zero fun hzero => hspacing (UInt64.toNat_inj.mp hzero)

/-- The guard of `center_frequency_for_channel` lets pass the centres of 64 bits. -/
theorem center_guard_iff (hspacing : raster.spacingHz ≠ 0) (hholds : raster.Holds channel) :
    ¬ (channel - raster.firstChannel).toUInt64 >
        (0xffffffffffffffff - raster.firstCenterHz) / raster.spacingHz ↔
      raster.center channel < 2 ^ 64 := by
  have hpos := spacing_pos hspacing
  have hfirst := raster.firstCenterHz.toNat_lt
  have hroom : ((0xffffffffffffffff : UInt64) - raster.firstCenterHz).toNat =
      2 ^ 64 - 1 - raster.firstCenterHz.toNat :=
    UInt64.toNat_sub_of_le _ _ (UInt64.le_iff_toNat_le.mpr (Nat.le_sub_one_of_lt hfirst))
  rw [gt_iff_lt, UInt64.not_lt, UInt64.le_iff_toNat_le, UInt64.toNat_div, hroom,
    UInt32.toNat_toUInt64, UInt32.toNat_sub_of_le _ _ hholds.1, Nat.le_div_iff_mul_le hpos, center]
  omega

/-- A channel of the raster has its centre as frequency, if that is one of 64 bits. -/
theorem center_frequency_eq_some_iff (hspacing : raster.spacingHz ≠ 0) :
    centerFrequencyForChannel raster channel = some frequencyHz ↔
      raster.Holds channel ∧ frequencyHz.toNat = raster.center channel := by
  simp only [centerFrequencyForChannel, Option.ite_none_left_eq_some, Option.some.injEq, hspacing,
    false_or, not_or, gt_iff_lt, UInt32.not_lt]
  refine and_congr_right fun hholds => ?_
  have hguard := center_guard_iff hspacing hholds
  have hoffset : (channel - raster.firstChannel).toUInt64.toNat =
      channel.toNat - raster.firstChannel.toNat := by
    rw [UInt32.toNat_toUInt64, UInt32.toNat_sub_of_le _ _ hholds.1]
  have hsum : raster.center channel < 2 ^ 64 →
      (raster.firstCenterHz + (channel - raster.firstChannel).toUInt64 * raster.spacingHz).toNat =
        raster.center channel := by
    intro hcenter
    rw [UInt64.toNat_add, UInt64.toNat_mul, Nat.add_mod_mod, hoffset]
    exact Nat.mod_eq_of_lt hcenter
  constructor
  · rintro ⟨hpass, rfl⟩
    exact hsum (hguard.mp hpass)
  · intro hfrequency
    have hcenter : raster.center channel < 2 ^ 64 := hfrequency ▸ frequencyHz.toNat_lt
    exact ⟨hguard.mpr hcenter, UInt64.toNat_inj.mp ((hsum hcenter).trans hfrequency.symm)⟩

/-- A frequency has the number of its rounded offset, if that is one of the raster. -/
theorem channel_number_eq_some_iff (hspacing : raster.spacingHz ≠ 0)
    (hfits : frequencyHz.toNat - raster.firstCenterHz.toNat + raster.spacingHz.toNat / 2 < 2 ^ 64) :
    channelNumberForFrequency raster frequencyHz = some channel ↔
      raster.firstCenterHz ≤ frequencyHz ∧ raster.Holds channel ∧
        channel.toNat - raster.firstChannel.toNat =
          nearest (frequencyHz.toNat - raster.firstCenterHz.toNat) raster.spacingHz.toNat := by
  simp only [channelNumberForFrequency, Option.ite_none_left_eq_some, Option.some.injEq, hspacing,
    false_or, not_or, gt_iff_lt, UInt64.not_lt]
  refine and_congr_right fun hfrequency => ?_
  have hnearest : ((frequencyHz - raster.firstCenterHz + raster.spacingHz / 2) /
      raster.spacingHz).toNat =
      nearest (frequencyHz.toNat - raster.firstCenterHz.toNat) raster.spacingHz.toNat := by
    have hoffset := UInt64.toNat_sub_of_le _ _ hfrequency
    rw [UInt64.toNat_div, Words.toNat_add_of_lt ?_, UInt64.toNat_div, hoffset]
    · rfl
    · rw [UInt64.toNat_div, hoffset]
      exact hfits
  have hfirst := raster.firstChannel.toNat_lt
  have hroom : ((0xffffffff : UInt32) - raster.firstChannel).toUInt64.toNat =
      2 ^ 32 - 1 - raster.firstChannel.toNat := by
    rw [UInt32.toNat_toUInt64]
    exact UInt32.toNat_sub_of_le _ _ (UInt32.le_iff_toNat_le.mpr (Nat.le_sub_one_of_lt hfirst))
  generalize (frequencyHz - raster.firstCenterHz + raster.spacingHz / 2) / raster.spacingHz =
    quotient at hnearest ⊢
  rw [UInt64.le_iff_toNat_le, hroom, ← hnearest]
  have hsum : quotient.toNat ≤ 2 ^ 32 - 1 - raster.firstChannel.toNat →
      (raster.firstChannel + quotient.toUInt32).toNat =
        raster.firstChannel.toNat + quotient.toNat := by
    intro hsmall
    rw [UInt32.toNat_add, UInt64.toNat_toUInt32, Nat.add_mod_mod]
    exact Nat.mod_eq_of_lt (by omega)
  constructor
  · rintro ⟨hsmall, ⟨hlow, hhigh⟩, rfl⟩
    refine ⟨⟨UInt32.not_lt.mp hlow, UInt32.not_lt.mp hhigh⟩, ?_⟩
    rw [hsum hsmall, Nat.add_sub_cancel_left]
  · rintro ⟨hholds, hnumber⟩
    have hwidth := channel.toNat_lt
    have hlow := UInt32.le_iff_toNat_le.mp hholds.1
    have hsmall : quotient.toNat ≤ 2 ^ 32 - 1 - raster.firstChannel.toNat := by omega
    have hchannel : raster.firstChannel + quotient.toUInt32 = channel := by
      rw [← UInt32.toNat_inj, hsum hsmall]
      omega
    rw [hchannel]
    exact ⟨hsmall, ⟨UInt32.not_lt.mpr hholds.1, UInt32.not_lt.mpr hholds.2⟩, rfl⟩

/-- The offset of a channel is as many spacings as there are channels in front of it. -/
theorem offset_of_center (h : frequencyHz.toNat = raster.center channel) :
    frequencyHz.toNat - raster.firstCenterHz.toNat =
      (channel.toNat - raster.firstChannel.toNat) * raster.spacingHz.toNat := by
  rw [h, center, Nat.add_sub_cancel_left]

end ChannelRaster

open ChannelRaster

/-- For every raster with a spacing and every frequency whose rounding does not overflow: a channel
that has the frequency is the channel of the frequency, and the channel of a frequency is as near to
it as any channel of the raster. -/
theorem channel_raster_inverse (raster : ChannelRaster) (frequencyHz : UInt64)
    (hspacing : raster.spacingHz ≠ 0)
    (hfits : frequencyHz.toNat - raster.firstCenterHz.toNat + raster.spacingHz.toNat / 2 < 2 ^ 64) :
    (∀ channel, centerFrequencyForChannel raster channel = some frequencyHz →
      channelNumberForFrequency raster frequencyHz = some channel) ∧
    ∀ channel, channelNumberForFrequency raster frequencyHz = some channel →
      ∀ other, raster.Holds other →
        distance (raster.center channel) frequencyHz.toNat ≤
          distance (raster.center other) frequencyHz.toNat := by
  have hpos := spacing_pos hspacing
  constructor
  · intro channel hcenter
    obtain ⟨hholds, hfrequency⟩ := (center_frequency_eq_some_iff hspacing).mp hcenter
    refine (channel_number_eq_some_iff hspacing hfits).mpr ⟨?_, hholds, ?_⟩
    · rw [UInt64.le_iff_toNat_le, hfrequency]
      exact Nat.le_add_right _ _
    · rw [offset_of_center hfrequency, nearest_mul hpos]
  · intro channel hnumber other _
    obtain ⟨hfirst, -, hnearest⟩ := (channel_number_eq_some_iff hspacing hfits).mp hnumber
    have hfirst := UInt64.le_iff_toNat_le.mp hfirst
    have hbest : distance (nearest (frequencyHz.toNat - raster.firstCenterHz.toNat)
        raster.spacingHz.toNat * raster.spacingHz.toNat) _ ≤ _ :=
      distance_nearest_le hpos (other.toNat - raster.firstChannel.toNat)
    rw [← hnearest] at hbest
    unfold distance center at *
    omega

/-- The FM channels, at 98.1 MHz. -/
theorem channel_raster_inverse_fm :
    let raster : ChannelRaster := ⟨87600000, 200000, 180000, 1, 102⟩
    (∀ channel, centerFrequencyForChannel raster channel = some 98100000 →
      channelNumberForFrequency raster 98100000 = some channel) ∧
    ∀ channel, channelNumberForFrequency raster 98100000 = some channel →
      ∀ other, raster.Holds other →
        distance (raster.center channel) 98100000 ≤ distance (raster.center other) 98100000 :=
  channel_raster_inverse ⟨87600000, 200000, 180000, 1, 102⟩ 98100000 (by decide) (by decide)

end Aethon.Rf
