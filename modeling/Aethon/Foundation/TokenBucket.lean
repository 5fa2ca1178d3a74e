import Mathlib.Tactic.Common
import Mathlib.Algebra.GroupWithZero.Nat

/-!
# Token buckets

A bucket holds at most a burst of tokens and gains `rate` tokens in `scale` units of time.
Whatever rounding and capping a refill does, what was spent is covered by the burst and by what the
time since the start is worth (`Covered`), as long as a refill gains no more than its own time is
worth and restarts the clock.
-/

namespace TokenBucket

/-- The tokens spent and the tokens left are covered by the burst and the time from the start to
the last refill. -/
structure Covered (burst rate scale start spent tokens last : Nat) : Prop where
  capacity : tokens ≤ burst
  budget : spent + tokens ≤ burst + (last - start) * rate / scale

variable {burst rate scale start spent tokens last : Nat}

/-- A full bucket with nothing spent. -/
theorem covered_start (h : tokens ≤ burst) : Covered burst rate scale start 0 tokens last :=
  ⟨h, by rw [Nat.zero_add]; exact Nat.le_trans h (Nat.le_add_right _ _)⟩

/-- What two spans of time are worth is at most what both together are. -/
theorem worth_add_le {now : Nat} (hlast : start ≤ last) (hnow : last ≤ now) :
    (last - start) * rate / scale + (now - last) * rate / scale ≤
      (now - start) * rate / scale := by
  have hsum : (now - start) * rate = (last - start) * rate + (now - last) * rate := by
    rw [← Nat.add_mul]
    congr 1
    omega
  rw [hsum]
  exact Nat.div_add_div_le_add_div

/-- A refill that gains no more than its time is worth, and restarts the clock. -/
theorem Covered.refill (h : Covered burst rate scale start spent tokens last) {now tokens' : Nat}
    (hlast : start ≤ last) (hnow : last ≤ now) (hburst : tokens' ≤ burst)
    (hgain : tokens' ≤ tokens + (now - last) * rate / scale) :
    Covered burst rate scale start spent tokens' now := by
  have hworth := @worth_add_le rate scale start last now hlast hnow
  have hbudget := h.budget
  exact ⟨hburst, by omega⟩

/-- Tokens that are there are spent. -/
theorem Covered.spend (h : Covered burst rate scale start spent tokens last) {cost : Nat}
    (hcost : cost ≤ tokens) :
    Covered burst rate scale start (spent + cost) (tokens - cost) last := by
  have hcapacity := h.capacity
  have hbudget := h.budget
  exact ⟨by omega, by omega⟩

/-- The bound on what was spent until a time after the last refill. -/
theorem Covered.spent_le (h : Covered burst rate scale start spent tokens last) {latest : Nat}
    (hlatest : last - start ≤ latest - start) :
    spent ≤ burst + (latest - start) * rate / scale := by
  have hworth : (last - start) * rate / scale ≤ (latest - start) * rate / scale :=
    Nat.div_le_div_right (Nat.mul_le_mul_right rate hlatest)
  have hbudget := h.budget
  omega

/-- What is missing is earned by a wait that is rounded up. -/
theorem missing_le_worth {missing wait : Nat} (hrate : 0 < rate) (hscale : 0 < scale)
    (hwait : (missing * scale + rate - 1) / rate ≤ wait) : missing ≤ wait * rate / scale := by
  rw [Nat.le_div_iff_mul_le hscale]
  have hround := Nat.div_add_mod (missing * scale + rate - 1) rate
  have hrest := Nat.mod_lt (missing * scale + rate - 1) hrate
  have hcovered := Nat.mul_le_mul_right rate hwait
  rw [Nat.mul_comm rate] at hround
  omega

end TokenBucket
