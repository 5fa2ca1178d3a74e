import Aethon.Control.LimiterTokens

/-!
# What a refill gains

The product of the elapsed time and the rate is taken in 64 bits and the sum with the tokens in 32
bits, before the burst caps it. `refill_exact_iff` says for which buckets and times the refill is
nevertheless that over the integers.
-/

namespace Aethon.Control

open Words

namespace DeviceBucket

/-- The time since the last refill. -/
def elapsedNs (bucket : DeviceBucket) (nowNs : UInt64) : Nat :=
  nowNs.toNat - bucket.lastRefillNs.toNat

/-- What the elapsed time earns at the rate of the bucket, in tokens of a thousand-millionth. -/
def earned (bucket : DeviceBucket) (nowNs : UInt64) : Nat :=
  bucket.elapsedNs nowNs * bucket.limit.refillPerSecond.toNat

/-- The tokens after a refill over the integers. -/
def exactTokens (bucket : DeviceBucket) (nowNs : UInt64) : Nat :=
  min bucket.limit.burst.toNat (bucket.tokens.toNat + bucket.earned nowNs / 1000000000)

/-- The sum with the tokens fits into 32 bits; what is earned fits into 64 bits, or what is left of
it fills the bucket all the same; and the bucket is not above its burst, or is capped. -/
def RefillFits (bucket : DeviceBucket) (nowNs : UInt64) : Prop :=
  let kept := bucket.earned nowNs % 2 ^ 64 / 1000000000
  bucket.tokens.toNat + min kept bucket.limit.burst.toNat < 2 ^ 32 ∧
    (bucket.earned nowNs < 2 ^ 64 ∨ bucket.limit.burst.toNat ≤ bucket.tokens.toNat + kept) ∧
    (bucket.tokens ≤ bucket.limit.burst ∨ kept ≠ 0)

/-- The tokens after a refill, with the sums and products of the code. -/
theorem tokens_refill {bucket : DeviceBucket} (hstarted : bucket.lastRefillNs ≠ 0)
    {nowNs : UInt64} (hlate : bucket.lastRefillNs < nowNs) :
    (bucket.refill nowNs).tokens.toNat =
      if bucket.earned nowNs % 2 ^ 64 / 1000000000 = 0 then bucket.tokens.toNat
      else min bucket.limit.burst.toNat ((bucket.tokens.toNat +
        min (bucket.earned nowNs % 2 ^ 64 / 1000000000) bucket.limit.burst.toNat) % 2 ^ 32) := by
  have hgained : ((nowNs - bucket.lastRefillNs) *
      bucket.limit.refillPerSecond.toUInt64 / oneSecondNs).toNat =
        bucket.earned nowNs % 2 ^ 64 / 1000000000 := by
    rw [UInt64.toNat_div, UInt64.toNat_mul, UInt64.toNat_sub_of_le _ _ (UInt64.le_of_lt hlate),
      UInt32.toNat_toUInt64]
    rfl
  have hnot : ¬nowNs ≤ bucket.lastRefillNs := UInt64.not_le.mpr hlate
  unfold refill
  simp only [if_neg hstarted, if_neg hnot]
  rw [← hgained]
  generalize (nowNs - bucket.lastRefillNs) * bucket.limit.refillPerSecond.toUInt64 / oneSecondNs =
    gained
  by_cases hzero : gained = 0
  · rw [if_pos hzero, hzero]
    rfl
  · have hpositive : gained.toNat ≠ 0 := fun h => hzero (UInt64.toNat_inj.mp h)
    have hcapped : (min gained bucket.limit.burst.toUInt64).toUInt32.toNat =
        min gained.toNat bucket.limit.burst.toNat := by
      rw [UInt64.toNat_toUInt32, UInt64.toNat_min, UInt32.toNat_toUInt64]
      have hburst := bucket.limit.burst.toNat_lt
      omega
    rw [if_neg hzero, if_neg hpositive]
    show (min bucket.limit.burst _).toNat = _
    rw [UInt32.toNat_min, UInt32.toNat_add, hcapped]

/-- A capped sum of 32 bits comes to a value that is no less than the capped sum over the integers
if and only if it does not wrap and the value is that sum. -/
theorem capped_sum_iff {tokens gained burst whole : Nat} (hburst : burst < 2 ^ 32)
    (htokens : tokens < 2 ^ 32) (hwhole : min burst (tokens + gained) ≤ whole) :
    min burst ((tokens + min gained burst) % 2 ^ 32) = whole ↔
      tokens + min gained burst < 2 ^ 32 ∧ min burst (tokens + gained) = whole := by
  by_cases hfits : tokens + min gained burst < 2 ^ 32
  · rw [Nat.mod_eq_of_lt hfits, and_iff_right hfits]
    have hcap : min burst (tokens + min gained burst) = min burst (tokens + gained) := by omega
    rw [hcap]
  · -- the sum that wraps is below what was gained
    have hwrapped : (tokens + min gained burst) % 2 ^ 32 = tokens + min gained burst - 2 ^ 32 := by
      omega
    omega

/-- **Exact refill.** A refill of a bucket whose clock runs leaves the tokens that it has over the
integers if and only if nothing that counts is lost to the widths of the words. -/
theorem refill_exact_iff (bucket : DeviceBucket) (nowNs : UInt64)
    (hstarted : bucket.lastRefillNs ≠ 0) (hlate : bucket.lastRefillNs < nowNs) :
    (bucket.refill nowNs).tokens.toNat = bucket.exactTokens nowNs ↔ bucket.RefillFits nowNs := by
  have htokens := bucket.tokens.toNat_lt
  have hburst := bucket.limit.burst.toNat_lt
  rw [tokens_refill hstarted hlate]
  unfold exactTokens RefillFits
  rw [UInt32.le_iff_toNat_le]
  generalize bucket.earned nowNs = earned
  generalize bucket.tokens.toNat = tokens at *
  generalize bucket.limit.burst.toNat = burst at *
  by_cases hfits : earned < 2 ^ 64
  · rw [Nat.mod_eq_of_lt hfits]
    generalize earned / 1000000000 = worth
    split_ifs with hzero
    · omega
    · rw [capped_sum_iff hburst htokens (Nat.le_refl _)]
      omega
  · -- what is earned would fill every bucket
    have hfull : 2 ^ 32 ≤ earned / 1000000000 := by omega
    have hexact : min burst (tokens + earned / 1000000000) = burst := by omega
    rw [hexact]
    generalize earned % 2 ^ 64 / 1000000000 = kept
    split_ifs with hzero
    · omega
    · rw [capped_sum_iff hburst htokens (Nat.min_le_left _ _)]
      omega

/-- A bucket of the default limit that earns two tokens and a half. -/
theorem refill_exact_of_default :
    ({ tokens := 3, lastRefillNs := 1000 } : DeviceBucket).RefillFits 156251000 ∧
      (({ tokens := 3, lastRefillNs := 1000 } : DeviceBucket).refill 156251000).tokens = 5 := by
  refine ⟨(refill_exact_iff _ _ (by decide) (by decide)).mp (by decide), by decide⟩

/-- A bucket of the largest burst that is full and earns one token more is left empty. -/
theorem full_bucket_emptied :
    let bucket : DeviceBucket := {
      limit := { burst := 0xffffffff, refillPerSecond := 1 }
      tokens := 0xffffffff
      lastRefillNs := 1 }
    let l := Runs.run DeviceLimiter.step (.create {})
      [.registerDevice 7 { burst := 0xffffffff, refillPerSecond := 1 }, .check 7 1 1]
    l.devices.lookup 7 = some bucket ∧ (bucket.refill 1000000001).tokens = 0 ∧
      bucket.exactTokens 1000000001 = 0xffffffff := by
  decide +kernel

end DeviceBucket

end Aethon.Control
