import Aethon.Control.LimiterSteps
import Aethon.Foundation.Runs
import Aethon.Foundation.TokenBucket
import Aethon.Foundation.Words

/-!
# The token bound

What a device is allowed to consume is covered by its burst and by the time since the first call
(`tokens_bounded`), whatever the order of the times and whatever wraps in a refill: a sum or product
that wraps only gains less. A device that is registered again gets a full bucket but keeps the time
of its last refill. If the first call then gains no token, the time in front of it is not lost: it
counts towards the next token, which is one token more than the time since the first call is worth.
-/

namespace Aethon.Control

open Protocol Runs TokenBucket Words

/-! ## Refills -/

namespace DeviceBucket

/-- The limit, the tokens and the time of the last refill are the same. -/
structure SameTokens (bucket bucket' : DeviceBucket) : Prop where
  limit : bucket'.limit = bucket.limit
  tokens : bucket'.tokens = bucket.tokens
  lastRefillNs : bucket'.lastRefillNs = bucket.lastRefillNs

theorem SameTokens.refl (bucket : DeviceBucket) : SameTokens bucket bucket :=
  ⟨rfl, rfl, rfl⟩

theorem SameTokens.trans {first second third : DeviceBucket} (h : SameTokens first second)
    (h' : SameTokens second third) : SameTokens first third :=
  ⟨h'.limit.trans h.limit, h'.tokens.trans h.tokens, h'.lastRefillNs.trans h.lastRefillNs⟩

/-- A refill looks at no lease. -/
theorem SameTokens.refill {bucket bucket' : DeviceBucket} (h : SameTokens bucket bucket')
    (nowNs : UInt64) : SameTokens (bucket.refill nowNs) (bucket'.refill nowNs) := by
  obtain ⟨hlimit, htokens, hlast⟩ := h
  unfold DeviceBucket.refill
  simp only [hlimit, htokens, hlast]
  split_ifs <;> exact ⟨by first | rfl | assumption, by first | rfl | assumption,
    by first | rfl | assumption⟩

theorem limit_refill (bucket : DeviceBucket) (nowNs : UInt64) :
    (bucket.refill nowNs).limit = bucket.limit := by
  unfold DeviceBucket.refill
  simp only
  split_ifs <;> rfl

/-- What the code counts as gained is at most what the time is worth. -/
theorem gained_le_worth {last nowNs : UInt64} (refillPerSecond : UInt32) (h : last < nowNs) :
    ((nowNs - last) * refillPerSecond.toUInt64 / oneSecondNs).toNat ≤
      (nowNs.toNat - last.toNat) * refillPerSecond.toNat / 1000000000 := by
  rw [UInt64.toNat_div]
  refine Nat.div_le_div_right ?_
  rw [← UInt64.toNat_sub_of_le _ _ (UInt64.le_of_lt h)]
  exact toNat_mul_le _ _

/-- Where nothing was gained until the first time, at most one token more is gained until a later
one than the time between the two is worth, also where the products wrap. -/
theorem gained_after_nothing {stored first nowNs : UInt64} (refillPerSecond : UInt32)
    (hnothing : (first - stored) * refillPerSecond.toUInt64 / oneSecondNs = 0)
    (hlate : first ≤ nowNs) :
    ((nowNs - stored) * refillPerSecond.toUInt64 / oneSecondNs).toNat ≤
      (nowNs.toNat - first.toNat) * refillPerSecond.toNat / 1000000000 + 1 := by
  have hsplit : (nowNs - stored) * refillPerSecond.toUInt64 =
      (nowNs - first) * refillPerSecond.toUInt64 + (first - stored) * refillPerSecond.toUInt64 := by
    rw [← add_mul, sub_add_sub_cancel]
  have hsum : ((nowNs - first) * refillPerSecond.toUInt64 +
      (first - stored) * refillPerSecond.toUInt64).toNat ≤
      ((nowNs - first) * refillPerSecond.toUInt64).toNat +
        ((first - stored) * refillPerSecond.toUInt64).toNat := by
    rw [UInt64.toNat_add]
    exact Nat.mod_le _ _
  have hworth := toNat_mul_le (nowNs - first) refillPerSecond.toUInt64
  have hzero := congrArg UInt64.toNat hnothing
  rw [UInt64.toNat_sub_of_le _ _ hlate, UInt32.toNat_toUInt64] at hworth
  rw [UInt64.toNat_div] at hzero
  rw [UInt64.toNat_div, hsplit]
  have hsecond : oneSecondNs.toNat = 1000000000 := rfl
  rw [hsecond] at hzero ⊢
  have hsmall := (Nat.div_eq_zero_iff_lt (by decide)).mp hzero
  omega

theorem toNat_spend (bucket : DeviceBucket) {cost : UInt32} (hcost : cost ≤ bucket.tokens) :
    (bucket.spend cost).tokens.toNat = bucket.tokens.toNat - cost.toNat := by
  show (if bucket.tokens ≥ cost then bucket.tokens - cost else 0).toNat = _
  rw [if_pos hcost, UInt32.toNat_sub_of_le _ _ hcost]

/-- A refill after the first leaves the bucket, where it comes too early or gains nothing, or it
adds no more than was gained since the last refill and restarts the clock. -/
theorem refill_cases {bucket : DeviceBucket} (h : bucket.lastRefillNs ≠ 0) (nowNs : UInt64) :
    (bucket.refill nowNs = bucket ∧ (bucket.lastRefillNs < nowNs →
        (nowNs - bucket.lastRefillNs) * bucket.limit.refillPerSecond.toUInt64 / oneSecondNs = 0)) ∨
      bucket.lastRefillNs < nowNs ∧ (bucket.refill nowNs).lastRefillNs = nowNs ∧
        (bucket.refill nowNs).tokens.toNat ≤ bucket.limit.burst.toNat ∧
        (bucket.refill nowNs).tokens.toNat ≤ bucket.tokens.toNat +
          ((nowNs - bucket.lastRefillNs) * bucket.limit.refillPerSecond.toUInt64
            / oneSecondNs).toNat := by
  unfold DeviceBucket.refill
  simp only [if_neg h]
  split_ifs with hearly hnothing
  · exact .inl ⟨rfl, fun hlate => absurd hearly (UInt64.not_le.mpr hlate)⟩
  · exact .inl ⟨rfl, fun _ => hnothing⟩
  · have hlate := UInt64.not_le.mp hearly
    refine .inr ⟨hlate, rfl, ?_, ?_⟩
    · show (min bucket.limit.burst _).toNat ≤ _
      rw [UInt32.toNat_min]
      exact Nat.min_le_left _ _
    · generalize hgained : (nowNs - bucket.lastRefillNs) *
        bucket.limit.refillPerSecond.toUInt64 / oneSecondNs = gained
      have hkept : (min gained bucket.limit.burst.toUInt64).toUInt32.toNat ≤ gained.toNat := by
        rw [UInt64.toNat_toUInt32, UInt64.toNat_min]
        exact Nat.le_trans (Nat.mod_le _ _) (Nat.min_le_left _ _)
      have hsum := toNat_add_le bucket.tokens
        (min gained bucket.limit.burst.toUInt64).toUInt32
      show (min bucket.limit.burst _).toNat ≤ _
      rw [UInt32.toNat_min]
      exact Nat.le_trans (Nat.min_le_right _ _) (by omega)

end DeviceBucket

namespace DeviceLimiter

/-! ## Calls that take no tokens -/

/-- A device that is known keeps its tokens. -/
def KeepsTokens (device : DeviceId) (l l' : DeviceLimiter) : Prop :=
  ∀ bucket, l.devices.lookup device = some bucket →
    ∃ bucket', l'.devices.lookup device = some bucket' ∧ bucket.SameTokens bucket'

variable {device : DeviceId}

/-- What keeps the tokens twice keeps them. -/
theorem KeepsTokens.trans {first second third : DeviceLimiter}
    (h : KeepsTokens device first second) (h' : KeepsTokens device second third) :
    KeepsTokens device first third := by
  intro bucket hlookup
  obtain ⟨bucket', hlookup', hsame⟩ := h bucket hlookup
  obtain ⟨bucket'', hlookup'', hsame'⟩ := h' bucket' hlookup'
  exact ⟨bucket'', hlookup'', hsame.trans hsame'⟩

theorem keeps_of_devices {l l' : DeviceLimiter} (h : l'.devices = l.devices) :
    KeepsTokens device l l' :=
  fun bucket hlookup => ⟨bucket, h ▸ hlookup, .refl bucket⟩

/-- A bucket is put in its place that is of another device or has the same tokens. -/
theorem keeps_insert {l l' : DeviceLimiter} {other : DeviceId} {bucket' : DeviceBucket}
    (hdevices : l'.devices = l.devices.insert other bucket')
    (h : device = other → ∀ bucket, l.devices.lookup device = some bucket →
      bucket.SameTokens bucket') : KeepsTokens device l l' := by
  intro bucket hlookup
  rw [hdevices, SortedTable.lookup_insert]
  split_ifs with hdevice
  · exact ⟨bucket', rfl, h hdevice bucket hlookup⟩
  · exact ⟨bucket, hlookup, .refl bucket⟩

theorem keeps_expire (l : DeviceLimiter) (nowNs : UInt64) :
    KeepsTokens device l (l.expire nowNs).2 := by
  intro bucket hlookup
  exact ⟨bucket.dropExpired nowNs, by rw [lookup_expire, hlookup, Option.map_some],
    ⟨rfl, rfl, rfl⟩⟩

/-! ## Checks -/

/-- A check of a device that is known refills its bucket. -/
theorem check_known {l : DeviceLimiter} {bucket : DeviceBucket}
    (hlookup : l.devices.lookup device = some bucket) (cost : UInt32) (nowNs : UInt64) :
    ∃ bucket', (l.check device cost nowNs).2.devices.lookup device = some bucket' ∧
      (bucket.refill nowNs).SameTokens bucket' ∧
      ((l.check device cost nowNs).1.decision = .allowed →
        max cost bucket.limit.minimumTokens ≤ (bucket.refill nowNs).tokens) := by
  rcases l.check_eq_cases device cost nowNs with ⟨hnone, -⟩ |
    ⟨admitted, held, stats, hadmit, hheld, hchecked, -, hallowed⟩
  · rw [hlookup] at hnone
    cases hnone
  · obtain ⟨-, _, -, hknown⟩ := admit_device_cases hadmit
    obtain rfl := hknown bucket hlookup
    obtain rfl := Option.some.inj (hlookup.symm.trans hheld)
    have hsame : bucket.SameTokens (bucket.dropExpired nowNs) := ⟨rfl, rfl, rfl⟩
    have hrefill := hsame.refill nowNs
    refine ⟨_, ?_, hrefill, fun h => ?_⟩
    · rw [hchecked]
      exact (SortedTable.lookup_insert _ _ _ _).trans (if_pos rfl)
    · have henough := (hallowed h).2
      rwa [DeviceBucket.effectiveCost, hrefill.tokens, hrefill.limit,
        DeviceBucket.limit_refill] at henough

/-- A call of `consume` of a device that is known refills its bucket and takes the effective cost
where it is allowed. -/
theorem consume_known {l : DeviceLimiter} {bucket : DeviceBucket}
    (hlookup : l.devices.lookup device = some bucket) (cost : UInt32) (nowNs : UInt64) :
    ∃ bucket', (l.consume device cost nowNs).2.devices.lookup device = some bucket' ∧
      (((l.consume device cost nowNs).1.decision = .allowed ∧
          max cost bucket.limit.minimumTokens ≤ (bucket.refill nowNs).tokens ∧
          ((bucket.refill nowNs).spend (max cost bucket.limit.minimumTokens)).SameTokens bucket') ∨
        ((l.consume device cost nowNs).1.decision ≠ .allowed ∧
          (bucket.refill nowNs).SameTokens bucket')) := by
  obtain ⟨held, hheld, hsame, hallowed⟩ := check_known hlookup cost nowNs
  unfold consume
  generalize l.check device cost nowNs = checked at hheld hallowed
  obtain ⟨result, current⟩ := checked
  simp only at hheld hallowed ⊢
  split_ifs with hrefused
  · exact ⟨held, hheld, .inr ⟨hrefused, hsame⟩⟩
  · have hresult : result.decision = .allowed := by simpa using hrefused
    simp only [hheld]
    refine ⟨_, (SortedTable.lookup_insert _ _ _ _).trans (if_pos rfl),
      .inl ⟨hresult, hallowed hresult, ?_⟩⟩
    have hcost : held.effectiveCost cost = max cost bucket.limit.minimumTokens := by
      rw [DeviceBucket.effectiveCost, hsame.limit, DeviceBucket.limit_refill]
    rw [hcost]
    refine ⟨hsame.limit, ?_, hsame.lastRefillNs⟩
    simp only [DeviceBucket.spend, hsame.tokens]

/-! ## Runs -/

/-- The calls that leave the limits as they are. -/
def KeepsLimits : LimiterOp → Bool
  | .acquire _ | .release _ | .expire _ | .check _ _ _ | .consume _ _ _ => true
  | _ => false

/-- The times at which a call checks a device; `consume` checks it too. -/
def checkTimes (device : DeviceId) : LimiterOp → List UInt64
  | .check other _ nowNs | .consume other _ nowNs => if other = device then [nowNs] else []
  | _ => []

/-- The effective cost of a call of `consume` on a device that is allowed. -/
def charge (device : DeviceId) (limit : DeviceRateLimit) (l : DeviceLimiter) : LimiterOp → Nat
  | .consume other cost nowNs =>
      if other = device ∧ (l.consume other cost nowNs).1.decision = .allowed then
        (max cost limit.minimumTokens).toNat
      else 0
  | _ => 0

/-- A call that keeps the limits and does not check the device puts no bucket with other tokens. -/
theorem keeps_put {l : DeviceLimiter} {op : LimiterOp} (hlimits : KeepsLimits op = true)
    (hunchecked : checkTimes device op = []) {other : DeviceId} {bucket' : DeviceBucket}
    (hput : Puts l op other bucket') :
    KeepsTokens device l { l with devices := l.devices.insert other bucket' } := by
  refine keeps_insert rfl fun hdevice bucket hlookup => ?_
  subst hdevice
  cases hput with
  | registered limit _ hnew =>
      rcases hnew with hnone | ⟨given, rfl⟩
      · rw [hlookup] at hnone
        cases hnone
      · cases hlimits
  | limited => cases hlimits
  | leased lease hbucket =>
      obtain rfl := Option.some.inj (hlookup.symm.trans hbucket)
      exact ⟨rfl, rfl, rfl⟩
  | released hbucket =>
      obtain rfl := Option.some.inj (hlookup.symm.trans hbucket)
      exact ⟨rfl, rfl, rfl⟩
  | refilled hop => rcases hop with rfl | rfl <;> simp [checkTimes] at hunchecked
  | spent => simp [checkTimes] at hunchecked

/-- An operation that does not look at the device keeps its tokens. -/
theorem keeps_step {l : DeviceLimiter} {op : LimiterOp} (hlimits : KeepsLimits op = true)
    (hunchecked : checkTimes device op = []) : KeepsTokens device l (l.step op) := by
  refine put_rule (KeepsTokens device l) (keeps_of_devices rfl)
    (fun _ _ h hdevices => h.trans (keeps_of_devices hdevices))
    (fun l nowNs _ h => h.trans (keeps_expire l nowNs))
    (fun _ _ _ hput h => h.trans (keeps_put hlimits hunchecked hput)) (fun _ heq => ?_)
    fun heq => ?_
  · rw [heq] at hlimits
    cases hlimits
  · rw [heq] at hlimits
    cases hlimits

/-- A limiter, with what a device has consumed and the times at which it was checked. -/
structure Usage where
  limiter : DeviceLimiter
  spent : Nat := 0
  times : List UInt64 := []

/-- A call, with what it spends and the times at which it checks the device. -/
def useStep (device : DeviceId) (limit : DeviceRateLimit) (usage : Usage) (op : LimiterOp) :
    Usage where
  limiter := usage.limiter.step op
  spent := usage.spent + charge device limit usage.limiter op
  times := usage.times ++ checkTimes device op

/-- The time from which tokens are gained: the first check, or the stored time of the last refill
where that lies in front of the first check and the time between them gains no token yet. -/
def startOf (stored : UInt64) (refillPerSecond : UInt32) (times : List UInt64) : Nat :=
  let first := times.headD 0
  if stored ≠ 0 ∧ stored < first ∧
      (first - stored) * refillPerSecond.toUInt64 / oneSecondNs = 0 then stored.toNat
  else first.toNat

/-- The largest of the times. -/
def latestOf (times : List UInt64) : Nat :=
  (times.map (·.toNat)).foldr max 0

theorem latestOf_append (times : List UInt64) (nowNs : UInt64) :
    latestOf (times ++ [nowNs]) = max (latestOf times) nowNs.toNat := by
  unfold latestOf
  induction times with
  | nil => simp
  | cons time times ih => simp only [List.cons_append, List.map_cons, List.foldr_cons, ih]; omega

/-- What was spent until a bucket was last refilled is covered by the time since a start. -/
def CoveredSince (limit : DeviceRateLimit) (bucket : DeviceBucket) (spent : Nat)
    (times : List UInt64) (start : Nat) : Prop :=
  Covered limit.burst.toNat limit.refillPerSecond.toNat 1000000000 start spent
      bucket.tokens.toNat bucket.lastRefillNs.toNat ∧
    start ≤ bucket.lastRefillNs.toNat ∧
    bucket.lastRefillNs.toNat - start ≤ latestOf times - start

/-- What was spent where no time lies in front of the first: the burst as long as nothing is gained
since the stored time of the last refill, then at most one token more than the time since the first
check is worth. -/
def CoveredLate (limit : DeviceRateLimit) (stored first : UInt64) (latest : Nat)
    (bucket : DeviceBucket) (spent : Nat) : Prop :=
  (bucket.lastRefillNs = stored ∧ spent + bucket.tokens.toNat ≤ limit.burst.toNat ∧
      (stored < first →
        (first - stored) * limit.refillPerSecond.toUInt64 / oneSecondNs = 0)) ∨
    (first ≤ bucket.lastRefillNs ∧ bucket.lastRefillNs.toNat ≤ latest ∧
      Covered (limit.burst.toNat + 1) limit.refillPerSecond.toNat 1000000000 first.toNat spent
        bucket.tokens.toNat bucket.lastRefillNs.toNat)

/-- What holds of the bucket of a device with a limit after it was registered. -/
structure Sound (limit : DeviceRateLimit) (stored : UInt64) (bucket : DeviceBucket) (spent : Nat)
    (times : List UInt64) : Prop where
  fixed : bucket.limit = limit
  capacity : bucket.tokens.toNat ≤ limit.burst.toNat
  untouched : times = [] → bucket.lastRefillNs = stored ∧ spent = 0
  started : times ≠ [] → bucket.lastRefillNs ≠ 0
  covered : times ≠ [] → ∃ start, startOf stored limit.refillPerSecond times ≤ start ∧
    CoveredSince limit bucket spent times start
  late : times ≠ [] → (∀ time ∈ times, times.headD 0 ≤ time) →
    CoveredLate limit stored (times.headD 0) (latestOf times) bucket spent

variable {limit : DeviceRateLimit} {stored : UInt64} {bucket : DeviceBucket} {spent : Nat}
  {times : List UInt64}

namespace CoveredLate

variable {first : UInt64} {latest : Nat}

/-- A refill at a time that is not in front of the first. -/
theorem refill (h : CoveredLate limit stored first latest bucket spent)
    (hfixed : bucket.limit = limit) (hstarted : bucket.lastRefillNs ≠ 0) {nowNs : UInt64}
    (hlate : first ≤ nowNs) :
    CoveredLate limit stored first (max latest nowNs.toNat) (bucket.refill nowNs) spent := by
  rcases DeviceBucket.refill_cases hstarted nowNs with ⟨hsame, -⟩ | ⟨hearlier, hlast, hburst, hgain⟩
  · rw [hsame]
    exact h.imp id fun ⟨hfirst, hspan, hcovered⟩ =>
      ⟨hfirst, hspan.trans (Nat.le_max_left _ _), hcovered⟩
  · rw [hfixed] at hburst hgain
    rw [CoveredLate, hlast]
    refine .inr ⟨hlate, Nat.le_max_right _ _, ?_⟩
    rcases h with ⟨hstored, hspent, hnothing⟩ | ⟨hfirst, -, hcovered⟩
    · have hgained : ((nowNs - bucket.lastRefillNs) * limit.refillPerSecond.toUInt64
          / oneSecondNs).toNat ≤
          (nowNs.toNat - first.toNat) * limit.refillPerSecond.toNat / 1000000000 + 1 := by
        rw [hstored] at hearlier ⊢
        by_cases hbefore : stored < first
        · exact DeviceBucket.gained_after_nothing _ (hnothing hbefore) hlate
        · have hafter := UInt64.le_iff_toNat_le.mp (UInt64.not_lt.mp hbefore)
          refine (DeviceBucket.gained_le_worth _ hearlier).trans (Nat.le_succ_of_le ?_)
          exact Nat.div_le_div_right (Nat.mul_le_mul_right _ (Nat.sub_le_sub_left hafter _))
      exact ⟨hburst.trans (Nat.le_succ _), by omega⟩
    · exact hcovered.refill (UInt64.le_iff_toNat_le.mp hfirst)
        (UInt64.le_iff_toNat_le.mp (UInt64.le_of_lt hearlier)) (hburst.trans (Nat.le_succ _))
        (hgain.trans (Nat.add_le_add_left (DeviceBucket.gained_le_worth _ hearlier) _))

/-- Tokens that the bucket holds are spent. -/
theorem spend (h : CoveredLate limit stored first latest bucket spent) {cost : UInt32}
    (hcost : cost ≤ bucket.tokens) :
    CoveredLate limit stored first latest (bucket.spend cost) (spent + cost.toNat) := by
  have htokens := bucket.toNat_spend hcost
  have hcost := UInt32.le_iff_toNat_le.mp hcost
  rcases h with ⟨hstored, hspent, hnothing⟩ | ⟨hfirst, hspan, hcovered⟩
  · exact .inl ⟨hstored, by omega, hnothing⟩
  · exact .inr ⟨hfirst, hspan, htokens ▸ hcovered.spend hcost⟩

/-- What was spent is bounded when the first check came late. -/
theorem spent_le (h : CoveredLate limit stored first latest bucket spent) :
    spent ≤ limit.burst.toNat +
      (latest - first.toNat) * limit.refillPerSecond.toNat / 1000000000 + 1 := by
  rcases h with ⟨-, hspent, -⟩ | ⟨-, hspan, hcovered⟩
  · omega
  · have hbound := hcovered.spent_le (Nat.sub_le_sub_right hspan first.toNat)
    omega

end CoveredLate

/-- The tokens decide whether a bucket is sound. -/
theorem Sound.same {bucket' : DeviceBucket} (h : Sound limit stored bucket spent times)
    (hsame : bucket.SameTokens bucket') : Sound limit stored bucket' spent times := by
  obtain ⟨hlimit, htokens, hlast⟩ := hsame
  obtain ⟨fixed, capacity, untouched, started, covered, late⟩ := h
  unfold CoveredSince at covered
  unfold CoveredLate at late
  rw [← htokens] at capacity
  rw [← hlast] at untouched started
  rw [← htokens, ← hlast] at covered late
  exact ⟨hlimit.trans fixed, capacity, untouched, started, covered, late⟩

/-- The start is not behind the first check. -/
theorem startOf_singleton_le (stored : UInt64) (refillPerSecond : UInt32) (nowNs : UInt64) :
    startOf stored refillPerSecond [nowNs] ≤ nowNs.toNat := by
  rw [startOf, List.headD_cons]
  split_ifs with hearlier
  · exact (UInt64.lt_iff_toNat_lt.mp hearlier.2.1).le
  · exact Nat.le_refl _

/-- A bucket whose clock starts at the first check is sound. -/
theorem Sound.starting (hfixed : bucket.limit = limit) {nowNs : UInt64} (hnow : nowNs ≠ 0)
    (hlast : bucket.lastRefillNs = nowNs) (hcapacity : bucket.tokens.toNat ≤ limit.burst.toNat) :
    Sound limit stored bucket 0 [nowNs] := by
  have hlatest : latestOf [nowNs] = nowNs.toNat := Nat.max_zero _
  refine ⟨hfixed, hcapacity, fun hnil => absurd hnil (List.cons_ne_nil _ _), fun _ => hlast ▸ hnow,
    fun _ => ⟨nowNs.toNat, startOf_singleton_le _ _ _, ?_⟩, fun _ _ => .inr ⟨?_, ?_, ?_⟩⟩
  · rw [CoveredSince, hlast, hlatest]
    exact ⟨covered_start hcapacity, Nat.le_refl _, Nat.le_refl _⟩
  · rw [hlast]
    exact UInt64.le_refl _
  · rw [hlast, hlatest]
  · exact covered_start (hcapacity.trans (Nat.le_succ _))

/-- A bucket that gains nothing at the first check is sound from its stored time on. -/
theorem Sound.standing (hfixed : bucket.limit = limit) (hstored : bucket.lastRefillNs = stored)
    (hold : bucket.lastRefillNs ≠ 0) (hcapacity : bucket.tokens.toNat ≤ limit.burst.toNat)
    {nowNs : UInt64} (hnothing : stored < nowNs →
      (nowNs - stored) * limit.refillPerSecond.toUInt64 / oneSecondNs = 0) :
    Sound limit stored bucket 0 [nowNs] := by
  refine ⟨hfixed, hcapacity, fun hnil => absurd hnil (List.cons_ne_nil _ _), fun _ => hold,
    fun _ => ⟨bucket.lastRefillNs.toNat, ?_, covered_start hcapacity, Nat.le_refl _, ?_⟩,
    fun _ _ => .inl ⟨hstored, by rw [Nat.zero_add]; exact hcapacity, hnothing⟩⟩
  · rw [hstored, startOf, List.headD_cons]
    split_ifs with hearlier
    · exact Nat.le_refl _
    · -- a check that is not later than the last refill
      have hnot : ¬stored < nowNs := fun hlate =>
        hearlier ⟨hstored ▸ hold, hlate, hnothing hlate⟩
      exact UInt64.le_iff_toNat_le.mp (UInt64.not_lt.mp hnot)
  · rw [Nat.sub_self]
    exact Nat.zero_le _

/-- The first check starts the clock of a new device, and restarts that of an old one where it gains
a token. -/
theorem Sound.refill_first (h : Sound limit stored bucket spent []) {nowNs : UInt64}
    (hnow : nowNs ≠ 0) : Sound limit stored (bucket.refill nowNs) spent [nowNs] := by
  obtain ⟨hstored, rfl⟩ := h.untouched rfl
  have hlimit := (bucket.limit_refill nowNs).trans h.fixed
  by_cases hnew : bucket.lastRefillNs = 0
  · have hrefill : bucket.refill nowNs = { bucket with
        lastRefillNs := nowNs
        tokens := if bucket.tokens = 0 then bucket.limit.burst else bucket.tokens } := by
      rw [DeviceBucket.refill, if_pos hnew]
    refine Sound.starting hlimit hnow (by rw [hrefill]) ?_
    rw [hrefill]
    simp only
    split_ifs
    · exact Nat.le_of_eq (congrArg (·.burst.toNat) h.fixed)
    · exact h.capacity
  · rcases DeviceBucket.refill_cases hnew nowNs with ⟨hsame, hnothing⟩ | ⟨-, hlast, hburst, -⟩
    · rw [hstored, h.fixed] at hnothing
      rw [hsame]
      exact Sound.standing h.fixed hstored hnew h.capacity hnothing
    · exact Sound.starting hlimit hnow hlast (h.fixed ▸ hburst)

/-- A refill keeps a bucket sound. -/
theorem Sound.refill (h : Sound limit stored bucket spent times) {nowNs : UInt64}
    (hnow : nowNs ≠ 0) : Sound limit stored (bucket.refill nowNs) spent (times ++ [nowNs]) := by
  rcases htimes : times with _ | ⟨time, rest⟩
  · rw [htimes] at h
    exact h.refill_first hnow
  have hstarted : times ≠ [] := by simp [htimes]
  rw [← htimes]
  have hmore : times ++ [nowNs] ≠ [] := List.append_ne_nil_of_left_ne_nil hstarted _
  have hstart : startOf stored limit.refillPerSecond (times ++ [nowNs]) =
      startOf stored limit.refillPerSecond times := by
    rw [htimes]
    rfl
  have hlatest := latestOf_append times nowNs
  have hlater : (∀ time ∈ times ++ [nowNs], (times ++ [nowNs]).headD 0 ≤ time) →
      CoveredLate limit stored ((times ++ [nowNs]).headD 0) (latestOf (times ++ [nowNs]))
        (bucket.refill nowNs) spent := by
    have hhead : (times ++ [nowNs]).headD 0 = times.headD 0 := by
      rw [htimes]
      rfl
    rw [hhead, hlatest]
    intro hfirst
    exact (h.late hstarted fun time hmem =>
      hfirst time (List.mem_append_left _ hmem)).refill h.fixed (h.started hstarted)
        (hfirst nowNs (List.mem_append_right _ (List.mem_singleton_self _)))
  obtain ⟨start, hsince, hcovered, hle, hspan⟩ := h.covered hstarted
  rcases DeviceBucket.refill_cases (h.started hstarted) nowNs with
    ⟨hsame, -⟩ | ⟨hlate, hlast, hburst, hgain⟩
  · rw [hsame] at hlater ⊢
    refine ⟨h.fixed, h.capacity, fun hnil => absurd hnil hmore, fun _ => h.started hstarted,
      fun _ => ⟨start, hstart ▸ hsince, hcovered, hle, ?_⟩, fun _ => hlater⟩
    rw [hlatest]
    omega
  · rw [h.fixed] at hburst hgain
    have hgain := hgain.trans (Nat.add_le_add_left (DeviceBucket.gained_le_worth _ hlate) _)
    have hlate := UInt64.lt_iff_toNat_lt.mp hlate
    refine ⟨(bucket.limit_refill nowNs).trans h.fixed, hburst, fun hnil => absurd hnil hmore,
      fun _ => ?_, fun _ => ⟨start, hstart ▸ hsince, ?_⟩, fun _ => hlater⟩
    · rw [hlast]
      exact hnow
    · rw [CoveredSince, hlatest, hlast]
      exact ⟨hcovered.refill hle (Nat.le_of_lt hlate) hburst hgain, by omega, by omega⟩

/-- Tokens that the bucket holds are spent. -/
theorem Sound.spend (h : Sound limit stored bucket spent times) (hstarted : times ≠ [])
    {cost : UInt32} (hcost : cost ≤ bucket.tokens) :
    Sound limit stored (bucket.spend cost) (spent + cost.toNat) times := by
  have htokens := bucket.toNat_spend hcost
  obtain ⟨start, hsince, hcovered, hle, hspan⟩ := h.covered hstarted
  have hspent := hcovered.spend (UInt32.le_iff_toNat_le.mp hcost)
  rw [← htokens] at hspent
  exact ⟨h.fixed, hspent.capacity, fun hnil => absurd hnil hstarted, fun _ => h.started hstarted,
    fun _ => ⟨start, hsince, hspent, hle, hspan⟩,
    fun _ hfirst => (h.late hstarted hfirst).spend hcost⟩

/-- The bucket of the device in a usage is sound. -/
def SoundUsage (device : DeviceId) (limit : DeviceRateLimit) (stored : UInt64) (usage : Usage) :
    Prop :=
  ∃ bucket, usage.limiter.devices.lookup device = some bucket ∧
    Sound limit stored bucket usage.spent usage.times

/-- An operation that does not look at the device keeps its usage sound. -/
theorem SoundUsage.keeps {usage : Usage} (h : SoundUsage device limit stored usage)
    {op : LimiterOp} (hlimits : KeepsLimits op = true)
    (hcharge : charge device limit usage.limiter op = 0) (htimes : checkTimes device op = []) :
    SoundUsage device limit stored (useStep device limit usage op) := by
  obtain ⟨bucket, hlookup, hsound⟩ := h
  obtain ⟨bucket', hlookup', hsame⟩ := keeps_step hlimits htimes bucket hlookup
  refine ⟨bucket', hlookup', ?_⟩
  rw [useStep, hcharge, htimes, Nat.add_zero, List.append_nil]
  exact hsound.same hsame

/-- An operation keeps the usage sound. -/
theorem SoundUsage.step {usage : Usage} (h : SoundUsage device limit stored usage)
    {op : LimiterOp} (hlimits : KeepsLimits op = true) (htime : op.nowNs ≠ some 0) :
    SoundUsage device limit stored (useStep device limit usage op) := by
  cases op with
  | acquire | release | expire => exact h.keeps hlimits rfl rfl
  | check other cost nowNs =>
      by_cases hdevice : other = device
      · subst hdevice
        obtain ⟨bucket, hlookup, hsound⟩ := h
        obtain ⟨bucket', hlookup', hsame, -⟩ := check_known hlookup cost nowNs
        have hnow : nowNs ≠ 0 := fun hzero => htime (congrArg some hzero)
        refine ⟨bucket', hlookup', ?_⟩
        simpa [useStep, charge, checkTimes] using (hsound.refill hnow).same hsame
      · exact h.keeps hlimits rfl (if_neg hdevice)
  | consume other cost nowNs =>
      by_cases hdevice : other = device
      · subst hdevice
        obtain ⟨bucket, hlookup, hsound⟩ := h
        obtain ⟨bucket', hlookup', hcases⟩ := consume_known hlookup cost nowNs
        have hnow : nowNs ≠ 0 := fun hzero => htime (congrArg some hzero)
        have hrefilled := hsound.refill hnow
        refine ⟨bucket', hlookup', ?_⟩
        rcases hcases with ⟨hallowed, hcost, hsame⟩ | ⟨hrefused, hsame⟩
        · rw [hsound.fixed] at hcost hsame
          have hspent := hrefilled.spend
            (List.append_ne_nil_of_right_ne_nil _ (List.cons_ne_nil _ _)) hcost
          simpa [useStep, charge, checkTimes, hallowed] using hspent.same hsame
        · simpa [useStep, charge, checkTimes, hrefused] using hrefilled.same hsame
      · exact h.keeps hlimits (if_neg fun hboth => hdevice hboth.1) (if_neg hdevice)
  | registerDevice | unregisterDevice | setLimit | reset => cases hlimits

/-- The limit that a device is registered with. -/
def registeredLimit (l : DeviceLimiter) (limit : DeviceRateLimit) : DeviceRateLimit :=
  (if limit.burst = 0 ∧ limit.refillPerSecond = 0 then l.config.defaultLimit else limit).normalized

/-- The time of the last refill that a device has when it is registered, zero for a new one. -/
def storedRefillNs (l : DeviceLimiter) (device : DeviceId) : UInt64 :=
  ((l.devices.lookup device).getD {}).lastRefillNs

/-- The usage begins sound with the registration. -/
theorem sound_registered (l : DeviceLimiter) (device : DeviceId) (limit : DeviceRateLimit) :
    SoundUsage device (l.registeredLimit limit) (l.storedRefillNs device)
      { limiter := l.registerDevice device limit } := by
  exact ⟨_, (SortedTable.lookup_insert _ _ _ _).trans (if_pos rfl), rfl, Nat.le_refl _,
    fun _ => ⟨rfl, rfl⟩, fun hnone => absurd rfl hnone, fun hnone => absurd rfl hnone,
    fun hnone => absurd rfl hnone⟩

/-- The time of the first check is not after the latest one. -/
theorem first_le_latest (times : List UInt64) : (times.headD 0).toNat ≤ latestOf times := by
  cases times with
  | nil => exact Nat.zero_le _
  | cons time times => exact Nat.le_max_left _ _

/-- Where the product does not wrap, the time from the start on is worth at most one token more than
the time from the first check on. -/
theorem worth_since_start (stored : UInt64) (refillPerSecond : UInt32) (times : List UInt64)
    (hfits : ((times.headD 0).toNat - stored.toNat) * refillPerSecond.toNat < 2 ^ 64) :
    (latestOf times - startOf stored refillPerSecond times) * refillPerSecond.toNat / 1000000000 ≤
      (latestOf times - (times.headD 0).toNat) * refillPerSecond.toNat / 1000000000 + 1 := by
  have hfirst := first_le_latest times
  unfold startOf
  simp only
  split_ifs with hearlier
  · obtain ⟨-, hlate, hnothing⟩ := hearlier
    have hless := UInt64.lt_iff_toNat_lt.mp hlate
    have hzero := congrArg UInt64.toNat hnothing
    rw [UInt64.toNat_div, UInt64.toNat_mul, UInt64.toNat_sub_of_le _ _ (UInt64.le_of_lt hlate),
      UInt32.toNat_toUInt64, Nat.mod_eq_of_lt hfits] at hzero
    have hsmall : ((times.headD 0).toNat - stored.toNat) * refillPerSecond.toNat < 1000000000 :=
      (Nat.div_eq_zero_iff_lt (by decide)).mp hzero
    have hsplit : (latestOf times - stored.toNat) * refillPerSecond.toNat =
        (latestOf times - (times.headD 0).toNat) * refillPerSecond.toNat +
          ((times.headD 0).toNat - stored.toNat) * refillPerSecond.toNat := by
      rw [← Nat.add_mul]
      congr 1
      omega
    rw [hsplit]
    omega
  · exact Nat.le_succ _

/-- In every run of calls that leave the limits as they are, with times of at least one in any
order, a device that was registered has at most its burst of tokens, and what it was allowed to
consume is at most its burst and what the time since its start is worth. That is at most one token
more than the time since the first check is worth, unless a product wraps and a time lies in front
of the first. -/
theorem tokens_bounded (l : DeviceLimiter) (device : DeviceId) (limit : DeviceRateLimit)
    (ops : List LimiterOp) (hops : ∀ op ∈ ops, KeepsLimits op = true ∧ op.nowNs ≠ some 0) :
    let registered := l.registeredLimit limit
    let usage := run (useStep device registered) { limiter := l.registerDevice device limit } ops
    let stored := l.storedRefillNs device
    let rate := registered.refillPerSecond
    let first := usage.times.headD 0
    (∃ bucket, usage.limiter.devices.lookup device = some bucket ∧ bucket.limit = registered ∧
      bucket.tokens ≤ registered.burst) ∧
    usage.spent ≤ registered.burst.toNat +
      (latestOf usage.times - startOf stored rate usage.times) * rate.toNat / 1000000000 ∧
    ((first.toNat - stored.toNat) * rate.toNat < 2 ^ 64 ∨ (∀ time ∈ usage.times, first ≤ time) →
      usage.spent ≤ registered.burst.toNat +
        (latestOf usage.times - first.toNat) * rate.toNat / 1000000000 + 1) := by
  intro registered usage stored rate first
  have husage : SoundUsage device registered stored usage :=
    run_invariant_along (fun (usage : Usage) op
      (h : SoundUsage device registered stored usage)
      (hop : KeepsLimits op = true ∧ op.nowNs ≠ some 0) => h.step hop.1 hop.2)
      (l.sound_registered device limit) (along_of_forall (fun op hop _ => hops op hop) _)
  obtain ⟨bucket, hlookup, hsound⟩ := husage
  have hspent : usage.spent ≤ registered.burst.toNat +
      (latestOf usage.times - startOf stored rate usage.times) * rate.toNat / 1000000000 := by
    by_cases hchecked : usage.times = []
    · rw [(hsound.untouched hchecked).2]
      exact Nat.zero_le _
    · obtain ⟨start, hsince, hcovered, -, hspan⟩ := hsound.covered hchecked
      refine (hcovered.spent_le hspan).trans (Nat.add_le_add_left ?_ _)
      exact Nat.div_le_div_right (Nat.mul_le_mul_right _ (Nat.sub_le_sub_left hsince _))
  refine ⟨⟨bucket, hlookup, hsound.fixed, UInt32.le_iff_toNat_le.mpr hsound.capacity⟩, hspent,
    fun hcase => ?_⟩
  rcases hcase with hfits | hfirst
  · refine hspent.trans ?_
    rw [Nat.add_assoc]
    exact Nat.add_le_add_left (worth_since_start stored rate usage.times hfits) _
  · by_cases hchecked : usage.times = []
    · rw [(hsound.untouched hchecked).2]
      exact Nat.zero_le _
    · exact (hsound.late hchecked hfirst).spent_le

/-- A new device with a burst of two and a thousand tokens a second, checked by a clock that goes
back. -/
theorem tokens_bounded_new :
    let ops : List LimiterOp := [.consume 7 1 5000000, .consume 7 1 1000000, .consume 7 1 6000000]
    let usage := run (useStep 7 { burst := 2, refillPerSecond := 1000 })
      { limiter := (create {}).registerDevice 7 { burst := 2, refillPerSecond := 1000 } } ops
    usage.spent ≤ 2 + (6000000 - 5000000) * 1000 / 1000000000 := by
  intro ops usage
  obtain ⟨-, hspent, -⟩ := tokens_bounded (create {}) 7
    { burst := 2, refillPerSecond := 1000 } ops (by decide)
  exact hspent

/-- A device that is registered again just before its second is over, with a full bucket. -/
theorem registered_again_gains_a_token :
    let limit : DeviceRateLimit := { burst := 1, refillPerSecond := 1 }
    let l := Runs.run DeviceLimiter.step (create {}) [.registerDevice 7 limit, .check 7 1 1]
    let ops : List LimiterOp := [.consume 7 1 1000000000, .consume 7 1 1000000001]
    let usage := run (useStep 7 limit) { limiter := l.registerDevice 7 limit } ops
    usage.spent = 2 ∧ ¬ usage.spent ≤ 1 + (1000000001 - 1000000000) * 1 / 1000000000 := by
  decide +kernel

/-- Where the product of the first refill wraps, a call in front of the first one can fill the
bucket again: both bursts are spent, and no time lies behind the first call. -/
example :
    let limit : DeviceRateLimit := { burst := 2, refillPerSecond := 2 ^ 31 }
    let l := Runs.run DeviceLimiter.step (create {}) [.registerDevice 7 limit, .check 7 1 1]
    let ops : List LimiterOp := [.consume 7 2 (2 ^ 33 + 1), .consume 7 2 (2 ^ 32 + 1)]
    let usage := run (useStep 7 limit) { limiter := l.registerDevice 7 limit } ops
    usage.spent = 4 ∧ usage.times.headD 0 = 2 ^ 33 + 1 ∧ latestOf usage.times = 2 ^ 33 + 1 := by
  decide +kernel

end DeviceLimiter

end Aethon.Control
