import Aethon.Control.LimiterRefill

/-!
# Waiting as told

A check that is refused for want of tokens tells how long to wait. The wait is rounded up and the
refill rounds down, from a clock that only moves when something was gained, so the time that counts
is at least the wait. `retry_after_sufficient` says that after the wait the check is allowed.
-/

namespace Aethon.Control

open Protocol Runs TokenBucket

namespace DeviceBucket

/-- The numerator of the wait does not wrap. -/
theorem numerator_fits {missing rate : Nat} (hmissing : missing < 2 ^ 32) (hrate : rate < 2 ^ 32) :
    missing * 1000000000 + rate < 2 ^ 64 := by
  omega

/-- The wait over the integers. -/
theorem toNat_retry_after {bucket : DeviceBucket} {cost : UInt32}
    (hrate : bucket.limit.refillPerSecond ≠ 0) (hmissing : bucket.tokens < cost) :
    (bucket.retryAfter cost).toNat =
      ((cost.toNat - bucket.tokens.toNat) * 1000000000 + bucket.limit.refillPerSecond.toNat - 1) /
        bucket.limit.refillPerSecond.toNat := by
  have hless := UInt32.lt_iff_toNat_lt.mp hmissing
  have hrange := cost.toNat_lt
  have hrateRange := bucket.limit.refillPerSecond.toNat_lt
  have hratePositive : bucket.limit.refillPerSecond.toNat ≠ 0 :=
    fun h => hrate (UInt32.toNat_inj.mp h)
  have hmissingNat : (cost - bucket.tokens).toNat = cost.toNat - bucket.tokens.toNat :=
    UInt32.toNat_sub_of_le _ _ (UInt32.le_of_lt hmissing)
  have hnonzero : cost - bucket.tokens ≠ 0 := by
    intro h
    rw [h] at hmissingNat
    have hzero : (0 : UInt32).toNat = 0 := rfl
    omega
  have hmissingRange : cost.toNat - bucket.tokens.toNat < 2 ^ 32 := by omega
  have hnumerator : ((cost - bucket.tokens).toUInt64 * oneSecondNs +
      bucket.limit.refillPerSecond.toUInt64).toNat =
        (cost.toNat - bucket.tokens.toNat) * 1000000000 + bucket.limit.refillPerSecond.toNat := by
    have hsecond : oneSecondNs.toNat = 1000000000 := rfl
    rw [UInt64.toNat_add, UInt64.toNat_mul, UInt32.toNat_toUInt64, UInt32.toNat_toUInt64,
      hmissingNat, hsecond]
    have hsum := numerator_fits hmissingRange hrateRange
    rw [Nat.mod_eq_of_lt (Nat.lt_of_le_of_lt (Nat.le_add_right _ _) hsum)]
    exact Nat.mod_eq_of_lt hsum
  have hone : (1 : UInt64).toNat = 1 := rfl
  unfold retryAfter
  rw [if_neg hrate, if_pos (show cost > bucket.tokens from hmissing), if_neg hnonzero]
  rw [UInt64.toNat_div, UInt32.toNat_toUInt64, UInt64.toNat_sub_of_le, hnumerator, hone]
  rw [UInt64.le_iff_toNat_le, hnumerator, hone]
  omega

/-- A refill without a loss leaves a bucket that was short of a cost with enough for it, when its
clock runs for the wait. -/
theorem enough_after_wait {bucket : DeviceBucket} {cost : UInt32} {nowNs : UInt64}
    (hrate : bucket.limit.refillPerSecond ≠ 0) (hstarted : bucket.lastRefillNs ≠ 0)
    (hmissing : bucket.tokens < cost) (hcost : cost ≤ bucket.limit.burst)
    (hburst : bucket.limit.burst ≤ 0x80000000) (hclock : bucket.lastRefillNs ≤ nowNs)
    (htime : nowNs.toNat + (bucket.retryAfter cost).toNat < 2 ^ 64)
    (hearned : bucket.earned (nowNs + bucket.retryAfter cost) < 2 ^ 64) :
    cost ≤ (bucket.refill (nowNs + bucket.retryAfter cost)).tokens := by
  have hwait := toNat_retry_after hrate hmissing
  have hratePositive : bucket.limit.refillPerSecond.toNat ≠ 0 :=
    fun h => hrate (UInt32.toNat_inj.mp h)
  have hless := UInt32.lt_iff_toNat_lt.mp hmissing
  have hcostNat := UInt32.le_iff_toNat_le.mp hcost
  have hburstNat : bucket.limit.burst.toNat ≤ 0x80000000 := UInt32.le_iff_toNat_le.mp hburst
  have hclockNat := UInt64.le_iff_toNat_le.mp hclock
  have hretry : (nowNs + bucket.retryAfter cost).toNat =
      nowNs.toNat + (bucket.retryAfter cost).toNat := by
    rw [UInt64.toNat_add, Nat.mod_eq_of_lt htime]
  -- the clock has run for the wait at least, and what is missing was earned
  have hworth : cost.toNat - bucket.tokens.toNat ≤
      bucket.earned (nowNs + bucket.retryAfter cost) / 1000000000 := by
    refine missing_le_worth (Nat.pos_of_ne_zero hratePositive) (by decide) ?_
    rw [← hwait, elapsedNs, hretry]
    omega
  have hlate : bucket.lastRefillNs < nowNs + bucket.retryAfter cost := by
    rw [UInt64.lt_iff_toNat_lt, hretry]
    have hpositive : 0 < (bucket.retryAfter cost).toNat := by
      rw [hwait]
      refine Nat.div_pos ?_ (Nat.pos_of_ne_zero hratePositive)
      omega
    omega
  rw [UInt32.le_iff_toNat_le, tokens_refill hstarted hlate, Nat.mod_eq_of_lt hearned]
  generalize bucket.earned (nowNs + bucket.retryAfter cost) / 1000000000 = worth at hworth
  rw [if_neg (by omega), Nat.mod_eq_of_lt (by omega)]
  omega

end DeviceBucket

namespace DeviceLimiter

/-! ## Clocks -/

/-- The rate is one of a normalised limit, and the clock is not ahead of the latest time. -/
structure Paced (latest : UInt64) (bucket : DeviceBucket) : Prop where
  rate : bucket.limit.refillPerSecond ≠ 0
  clock : bucket.lastRefillNs ≤ latest

/-- Every bucket of the limiter is paced. -/
def AllPaced (latest : UInt64) (l : DeviceLimiter) : Prop :=
  ∀ device bucket, l.devices.lookup device = some bucket → Paced latest bucket

variable {latest : UInt64} {l : DeviceLimiter} {device : DeviceId} {bucket : DeviceBucket}

theorem rate_normalized (limit : DeviceRateLimit) : limit.normalized.refillPerSecond ≠ 0 := by
  show (if limit.refillPerSecond = 0 then 1 else limit.refillPerSecond) ≠ 0
  split_ifs with hzero
  · decide
  · exact hzero

/-- A refill by the latest time keeps a bucket paced. -/
theorem Paced.refill (h : Paced latest bucket) {nowNs : UInt64}
    (hnow : nowNs ≤ latest) : Paced latest (bucket.refill nowNs) := by
  obtain ⟨hrate, hclock⟩ := h
  unfold DeviceBucket.refill
  simp only
  split_ifs <;> first | exact ⟨hrate, hnow⟩ | exact ⟨hrate, hclock⟩

/-- Behind a refill the clock runs. -/
theorem started_refill {nowNs : UInt64} (hnow : nowNs ≠ 0) :
    (bucket.refill nowNs).lastRefillNs ≠ 0 := by
  unfold DeviceBucket.refill
  simp only
  split_ifs with hstopped <;> first | exact hnow | exact hstopped

/-- A paced bucket keeps the limiter paced. -/
theorem AllPaced.insert (h : AllPaced latest l) (hbucket : Paced latest bucket) :
    AllPaced latest { l with devices := l.devices.insert device bucket } := by
  intro other held hlookup
  rcases SortedTable.lookup_insert_cases hlookup with ⟨-, rfl⟩ | hheld
  · exact hbucket
  · exact h other held hheld

/-- The clock of a device that is registered or gets another limit goes on. -/
theorem AllPaced.clock (h : AllPaced latest l) (device : DeviceId) :
    ((l.devices.lookup device).getD {}).lastRefillNs ≤ latest := by
  cases hlookup : l.devices.lookup device with
  | none => exact UInt64.zero_le
  | some bucket => exact (h device bucket hlookup).clock

/-- Expiry keeps the limiter paced. -/
theorem AllPaced.expire (h : AllPaced latest l) (nowNs : UInt64) :
    AllPaced latest (l.expire nowNs).2 := by
  intro device bucket hlookup
  rw [lookup_expire] at hlookup
  obtain ⟨held, hheld, rfl⟩ := Option.map_eq_some_iff.mp hlookup
  exact ⟨(h device held hheld).rate, (h device held hheld).clock⟩

/-- The buckets that a call puts are paced up to its own time. -/
theorem AllPaced.put (h : AllPaced latest l) {op : LimiterOp}
    (htime : ∀ time, op.nowNs = some time → time ≤ latest) (hput : Puts l op device bucket) :
    Paced latest bucket := by
  cases hput with
  | registered limit => exact ⟨rate_normalized _, h.clock device⟩
  | limited _ limit => exact ⟨rate_normalized _, h.clock device⟩
  | leased lease hbucket => exact ⟨(h _ _ hbucket).rate, (h _ _ hbucket).clock⟩
  | released hbucket => exact ⟨(h _ _ hbucket).rate, (h _ _ hbucket).clock⟩
  | refilled hop hbucket =>
      refine (h _ _ hbucket).refill (htime _ ?_)
      rcases hop with rfl | rfl <;> rfl
  | spent hbucket => exact ⟨(h _ _ hbucket).rate, (h _ _ hbucket).clock⟩

/-- No call takes a clock past its own time. -/
theorem AllPaced.step (h : AllPaced latest l) {op : LimiterOp}
    (htime : ∀ time, op.nowNs = some time → time ≤ latest) : AllPaced latest (l.step op) := by
  refine put_rule (AllPaced latest) h (fun l l' hl hdevices => ?_) (fun l nowNs _ hl => hl.expire _)
    (fun l device bucket hput hl => hl.insert (hl.put htime hput)) (fun device _ => ?_)
    fun _ _ _ hlookup => by cases hlookup
  · unfold AllPaced
    rw [hdevices]
    exact hl
  · intro other bucket hlookup
    have herased : (l.devices.erase device).lookup other = some bucket := hlookup
    rw [SortedTable.lookup_erase] at herased
    split_ifs at herased
    exact h other bucket herased

/-- After any run up to the latest time every bucket is paced. -/
theorem all_paced_run (config : DeviceLimiterConfig) {ops : List LimiterOp}
    (htimes : ∀ op ∈ ops, ∀ time, op.nowNs = some time → time ≤ latest) :
    AllPaced latest (run DeviceLimiter.step (create config) ops) := by
  have hnew : AllPaced latest (create config) := fun _ _ hlookup => by cases hlookup
  exact run_invariant_along (fun l op (h : AllPaced latest l) hop => h.step hop) hnew
    (along_of_forall (fun op hop _ => htimes op hop) _)

/-! ## A device that is left alone -/

/-- The call is one of the device, or removes every device. -/
def touches (device : DeviceId) : LimiterOp → Bool
  | .registerDevice other _ | .unregisterDevice other | .setLimit other _ => other = device
  | .acquire request => request.device = device
  | .check other _ _ | .consume other _ _ => other = device
  | .release _ | .expire _ => false
  | .reset => true

/-- The device has the bucket, on which there is no lease. -/
def Rests (device : DeviceId) (bucket : DeviceBucket) (l : DeviceLimiter) : Prop :=
  l.devices.lookup device = some bucket ∧ bucket.leases = []

theorem drop_expired_of_nil (h : bucket.leases = []) (nowNs : UInt64) :
    bucket.dropExpired nowNs = bucket := by
  obtain ⟨limit, tokens, lastRefillNs, leases⟩ := bucket
  obtain rfl : leases = [] := h
  rfl

theorem Rests.insert (h : Rests device bucket l) {other : DeviceId} (hother : other ≠ device)
    (held : DeviceBucket) :
    Rests device bucket { l with devices := l.devices.insert other held } :=
  ⟨(SortedTable.lookup_insert ..).trans ((if_neg hother.symm).trans h.1), h.2⟩

theorem Rests.expire (h : Rests device bucket l) (nowNs : UInt64) :
    Rests device bucket (l.expire nowNs).2 := by
  refine ⟨?_, h.2⟩
  rw [lookup_expire, h.1, Option.map_some, drop_expired_of_nil h.2]

/-- A call that puts the bucket of the device touches it. -/
theorem Rests.ne_of_put (h : Rests device bucket l) {op : LimiterOp}
    (hop : touches device op = false) {other : DeviceId} {held : DeviceBucket}
    (hput : Puts l op other held) : other ≠ device := by
  rintro rfl
  rcases hput.target_or_held with htarget | ⟨held, hheld, hleases⟩
  · cases op <;> simp_all [touches, target]
  · rw [h.1] at hheld
    exact hleases (Option.some.inj hheld ▸ h.2)

/-- A call that does not touch the device leaves its bucket as it is. -/
theorem Rests.step (h : Rests device bucket l) {op : LimiterOp}
    (hop : touches device op = false) : Rests device bucket (l.step op) := by
  refine put_rule (Rests device bucket) h (fun l l' hl hdevices => ?_)
    (fun l nowNs _ hl => hl.expire _)
    (fun l other held hput hl => hl.insert (hl.ne_of_put hop hput) held) (fun other heq => ?_)
    fun heq => ?_
  · unfold Rests
    rw [hdevices]
    exact hl
  · have hother : device ≠ other := by
      rw [heq] at hop
      exact Ne.symm (of_decide_eq_false hop)
    exact ⟨(SortedTable.lookup_erase ..).trans ((if_neg hother).trans h.1), h.2⟩
  · rw [heq] at hop
    cases hop

/-! ## Checks -/

/-- A check of a device without live leases refills its bucket, and allows what the bucket then
holds. -/
theorem check_without_leases (hlookup : l.devices.lookup device = some bucket) (nowNs : UInt64)
    (hleases : ∀ lease ∈ bucket.leases, lease.expiresTimeNs ≤ nowNs) (cost : UInt32) :
    let refilled := (bucket.dropExpired nowNs).refill nowNs
    Rests device refilled (l.check device cost nowNs).2 ∧
      (l.check device cost nowNs).1 =
        if refilled.tokens < refilled.effectiveCost cost then
          ⟨.rateLimited, refilled.retryAfter (refilled.effectiveCost cost),
            "device token bucket is empty"⟩
        else ⟨.allowed, 0, "device allowed"⟩ := by
  intro refilled
  have hknown : l.admitDevice device = some l := by
    rw [admitDevice, if_pos (by rw [hlookup]; rfl)]
  have hnone : refilled.leases = [] := by
    rw [DeviceBucket.leases_refill]
    refine List.filter_eq_nil_iff.mpr fun lease hlease => ?_
    simp [hleases lease hlease]
  have hconflict : refilled.leaseConflict .shared = false := by
    simp [DeviceBucket.leaseConflict, hnone]
  have hbucket : (l.expire nowNs).2.devices.lookup device = some (bucket.dropExpired nowNs) := by
    rw [lookup_expire, hlookup, Option.map_some]
  unfold DeviceLimiter.check
  simp only [hknown, hbucket]
  rw [if_neg (by rw [hconflict]; simp)]
  split_ifs
  · exact ⟨⟨(SortedTable.lookup_insert ..).trans (if_pos rfl), hnone⟩, rfl⟩
  · exact ⟨⟨(SortedTable.lookup_insert ..).trans (if_pos rfl), hnone⟩, rfl⟩

/-- **Sufficient waits.** Whatever was called before, a check that is refused for want of tokens is
allowed after the wait that it tells, whatever else is called meanwhile: for a device without live
leases, a cost within a burst of at most half the range, and a time and earnings that do not
wrap. -/
theorem retry_after_sufficient (config : DeviceLimiterConfig) (before meanwhile : List LimiterOp)
    (device : DeviceId) (cost : UInt32) (nowNs : UInt64) (bucket : DeviceBucket)
    (htimes : ∀ op ∈ before, ∀ time, op.nowNs = some time → time ≤ nowNs) (hnow : 1 ≤ nowNs)
    (hmeanwhile : ∀ op ∈ meanwhile, touches device op = false) :
    let l := run step (create config) before
    let refused := l.check device cost nowNs
    let later := nowNs + refused.1.retryAfterNs
    l.devices.lookup device = some bucket →
    (∀ lease ∈ bucket.leases, lease.expiresTimeNs ≤ nowNs) →
    bucket.limit.burst ≤ 0x80000000 → bucket.effectiveCost cost ≤ bucket.limit.burst →
    refused.1.decision = .rateLimited →
    nowNs.toNat + refused.1.retryAfterNs.toNat < 2 ^ 64 →
    (bucket.refill nowNs).earned later < 2 ^ 64 →
    ((run step refused.2 meanwhile).check device cost later).1.decision = .allowed := by
  intro l refused later hlookup hleases hburst hcost hrefused htime hearned
  have hpaced : Paced nowNs bucket := all_paced_run config htimes device bucket hlookup
  obtain ⟨hrests, hresult⟩ := check_without_leases hlookup nowNs hleases cost
  have hsame : bucket.SameTokens (bucket.dropExpired nowNs) := ⟨rfl, rfl, rfl⟩
  have hrefill := hsame.refill nowNs
  have hstarted : ((bucket.dropExpired nowNs).refill nowNs).lastRefillNs ≠ 0 :=
    started_refill fun hzero => absurd hnow (by rw [hzero]; decide)
  have hdropped : Paced nowNs (bucket.dropExpired nowNs) := ⟨hpaced.rate, hpaced.clock⟩
  have hrefilled := hdropped.refill (UInt64.le_refl nowNs)
  have hlimit : ((bucket.dropExpired nowNs).refill nowNs).limit = bucket.limit :=
    hrefill.limit.trans (bucket.limit_refill nowNs)
  have hearned' : ((bucket.dropExpired nowNs).refill nowNs).earned later < 2 ^ 64 := by
    rw [DeviceBucket.earned, DeviceBucket.elapsedNs, hrefill.limit, hrefill.lastRefillNs]
    exact hearned
  generalize (bucket.dropExpired nowNs).refill nowNs = refilled at *
  have heffective : refilled.effectiveCost cost = bucket.effectiveCost cost := by
    rw [DeviceBucket.effectiveCost, hlimit, DeviceBucket.effectiveCost]
  rw [heffective] at hresult
  -- the first check is refused, and tells the wait of the refilled bucket
  have hmissing : refilled.tokens < bucket.effectiveCost cost := by
    by_contra hholds
    rw [if_neg hholds] at hresult
    rw [hresult] at hrefused
    cases hrefused
  rw [if_pos hmissing] at hresult
  have hretry : refused.1.retryAfterNs = refilled.retryAfter (bucket.effectiveCost cost) :=
    congrArg DeviceLimitResult.retryAfterNs hresult
  have hlater : later = nowNs + refilled.retryAfter (bucket.effectiveCost cost) := by
    rw [← hretry]
  rw [hretry] at htime
  rw [hlater] at hearned'
  have henough := DeviceBucket.enough_after_wait hrefilled.rate hstarted hmissing
    (hlimit.symm ▸ hcost) (hlimit.symm ▸ hburst) hrefilled.clock htime hearned'
  -- the second check finds the bucket as the first has left it
  have hkept : Rests device refilled (run step refused.2 meanwhile) :=
    run_invariant_along (fun l op (h : Rests device refilled l) hop => h.step hop) hrests
      (along_of_forall (fun op hop _ => hmeanwhile op hop) _)
  obtain ⟨-, hallowed⟩ := check_without_leases hkept.1 later
    (fun lease hlease => by rw [hkept.2] at hlease; cases hlease) cost
  rw [drop_expired_of_nil hkept.2, hlater] at hallowed
  rw [hlater, hallowed, if_neg]
  rw [UInt32.not_lt, DeviceBucket.effectiveCost, DeviceBucket.limit_refill, hlimit]
  exact henough

/-- A device with a burst of one token a second, which is consumed at once. -/
def emptied : List LimiterOp :=
  [.registerDevice 7 { burst := 1, refillPerSecond := 1 }, .consume 7 1 5]

/-- It waits for the second of its token, while another device is checked. -/
theorem retry_after_sufficient_emptied :
    ((run step ((run step (create {}) emptied).check 7 1 10).2 [.check 8 1 20]).check 7 1
      (10 + ((run step (create {}) emptied).check 7 1 10).1.retryAfterNs)).1.decision =
        .allowed :=
  retry_after_sufficient {} emptied [.check 8 1 20] 7 1 10
    { limit := { burst := 1, refillPerSecond := 1 }, tokens := 0, lastRefillNs := 5 }
    (by simp [emptied, LimiterOp.nowNs]) (by decide) (by simp [touches])
    (by decide +kernel) (by simp) (by decide) (by decide) (by decide +kernel) (by decide +kernel)
    (by decide +kernel)

end DeviceLimiter

end Aethon.Control
