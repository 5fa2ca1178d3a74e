import Aethon.Foundation.SortedTable
import Aethon.Protocol.Types

/-!
# The device limiter

`control::DeviceLimiter`: a token bucket for each device, and leases that lock a device for one
owner or share it among several. Identifiers, times and tokens are words of the source's widths, so
that the sums and products of a refill and the expiry of a lease wrap as they do in the code;
the statistics are naturals.
-/

namespace Aethon.Control

open Protocol

/-- Leases are known by a word. -/
abbrev DeviceLeaseId := UInt64

/-- A lease that others may share, or one that stands alone. -/
inductive DeviceLeaseMode where
  | shared
  | exclusive
  deriving DecidableEq, Repr

/-- What a check comes to. -/
inductive DeviceLimitDecision where
  | allowed
  | delayed
  | locked
  | rateLimited
  | unknownDevice
  deriving DecidableEq, Repr

/-- How many tokens a device may hold and gain, and the least that a call costs. -/
structure DeviceRateLimit where
  burst : UInt32 := 16
  refillPerSecond : UInt32 := 16
  minimumTokens : UInt32 := 1
  deriving DecidableEq, Repr

/-- The limit of devices that were not given one, and the time of leases. -/
structure DeviceLimiterConfig where
  defaultLimit : DeviceRateLimit := {}
  defaultLeaseTtlNs : UInt64 := 5000000000
  allowUnknownDevices : Bool := true
  deriving DecidableEq, Repr

/-- Who asks for a device, for how long and in which mode. -/
structure DeviceLeaseRequest where
  device : DeviceId := 0
  mode : DeviceLeaseMode := .exclusive
  nowNs : UInt64 := 0
  ttlNs : UInt64 := 0
  owner : String := ""
  deriving DecidableEq, Repr

/-- A device that was granted until some time. -/
structure DeviceLease where
  id : DeviceLeaseId := 0
  device : DeviceId := 0
  mode : DeviceLeaseMode := .exclusive
  acquiredTimeNs : UInt64 := 0
  expiresTimeNs : UInt64 := 0
  owner : String := ""
  deriving DecidableEq, Repr

/-- What a check comes to, and when to come back. -/
structure DeviceLimitResult where
  decision : DeviceLimitDecision := .allowed
  retryAfterNs : UInt64 := 0
  reason : String
  deriving DecidableEq, Repr

/-- What a limiter counts. -/
structure DeviceLimiterStats where
  allowed : Nat := 0
  delayed : Nat := 0
  locked : Nat := 0
  rateLimited : Nat := 0
  leasesGranted : Nat := 0
  leasesReleased : Nat := 0
  leasesExpired : Nat := 0
  deriving DecidableEq, Repr

/-- The tokens and the leases of a device. -/
structure DeviceBucket where
  limit : DeviceRateLimit := {}
  tokens : UInt32 := 0
  lastRefillNs : UInt64 := 0
  leases : List DeviceLease := []
  deriving DecidableEq, Repr

/-- The buckets of the devices, and the next identifier of a lease. -/
structure DeviceLimiter where
  config : DeviceLimiterConfig := {}
  devices : SortedTable DeviceId DeviceBucket := ∅
  stats : DeviceLimiterStats := {}
  nextLeaseId : DeviceLeaseId := 1

/-! ## Limits and buckets -/

/-- The nanoseconds of a second. -/
def oneSecondNs : UInt64 := 1000000000

/-- Every field at least one, and the minimum at most the burst. -/
def DeviceRateLimit.normalized (limit : DeviceRateLimit) : DeviceRateLimit :=
  let burst := if limit.burst = 0 then 1 else limit.burst
  let minimumTokens := if limit.minimumTokens = 0 then 1 else limit.minimumTokens
  { burst := burst
    refillPerSecond := if limit.refillPerSecond = 0 then 1 else limit.refillPerSecond
    minimumTokens := if minimumTokens > burst then burst else minimumTokens }

/-- The time to live of a lease; zero asks for the default. -/
def DeviceLeaseRequest.effectiveTtlNs (request : DeviceLeaseRequest)
    (defaultLeaseTtlNs : UInt64) : UInt64 :=
  if request.ttlNs = 0 then defaultLeaseTtlNs else request.ttlNs

namespace DeviceBucket

/-- A lease of the mode cannot be granted beside those that stand. -/
def leaseConflict (bucket : DeviceBucket) (mode : DeviceLeaseMode) : Bool :=
  if bucket.leases.isEmpty then false
  else if mode = .exclusive then true
  else bucket.leases.any (·.mode = .exclusive)

/-- A call costs at least the minimum. -/
def effectiveCost (bucket : DeviceBucket) (cost : UInt32) : UInt32 :=
  max cost bucket.limit.minimumTokens

/-- The time after which the missing tokens are there, rounded up. -/
def retryAfter (bucket : DeviceBucket) (cost : UInt32) : UInt64 :=
  if bucket.limit.refillPerSecond = 0 then oneSecondNs
  else
    let missing := if cost > bucket.tokens then cost - bucket.tokens else 0
    if missing = 0 then 0
    else
      let numerator := missing.toUInt64 * oneSecondNs
      (numerator + bucket.limit.refillPerSecond.toUInt64 - 1)
        / bucket.limit.refillPerSecond.toUInt64

/-- The first refill only starts the clock; later ones move it when something was gained. -/
def refill (bucket : DeviceBucket) (nowNs : UInt64) : DeviceBucket :=
  if bucket.lastRefillNs = 0 then
    { bucket with
      lastRefillNs := nowNs
      tokens := if bucket.tokens = 0 then bucket.limit.burst else bucket.tokens }
  else if nowNs ≤ bucket.lastRefillNs then bucket
  else
    let elapsed := nowNs - bucket.lastRefillNs
    let gained := elapsed * bucket.limit.refillPerSecond.toUInt64 / oneSecondNs
    if gained = 0 then bucket
    else { bucket with
      tokens := min bucket.limit.burst
        (bucket.tokens + (min gained bucket.limit.burst.toUInt64).toUInt32)
      lastRefillNs := nowNs }

/-- The bucket without the tokens of a call that is allowed. -/
def spend (bucket : DeviceBucket) (cost : UInt32) : DeviceBucket :=
  { bucket with tokens := if bucket.tokens ≥ cost then bucket.tokens - cost else 0 }

/-- The leases but for one. -/
def eraseLease (bucket : DeviceBucket) (leaseId : DeviceLeaseId) : DeviceBucket :=
  { bucket with leases := bucket.leases.filter (·.id ≠ leaseId) }

/-- The loop body of `expire`. -/
def dropExpired (bucket : DeviceBucket) (nowNs : UInt64) : DeviceBucket :=
  { bucket with leases := bucket.leases.filter fun lease => ¬ lease.expiresTimeNs ≤ nowNs }

end DeviceBucket

namespace DeviceLimiter

/-- The constructor. -/
def create (config : DeviceLimiterConfig) : DeviceLimiter :=
  { config := { config with defaultLimit := config.defaultLimit.normalized } }

/-! ## Devices -/

/-- A device that is known keeps its leases and the time of its last refill. -/
def registerDevice (l : DeviceLimiter) (device : DeviceId) (limit : DeviceRateLimit) :
    DeviceLimiter :=
  let limit := if limit.burst = 0 ∧ limit.refillPerSecond = 0 then l.config.defaultLimit else limit
  let bucket := (l.devices.lookup device).getD {}
  { l with devices := l.devices.insert device { bucket with
      limit := limit.normalized
      tokens := limit.normalized.burst } }

/-- Forget a device with its leases. -/
def unregisterDevice (l : DeviceLimiter) (device : DeviceId) : DeviceLimiter :=
  { l with devices := l.devices.erase device }

/-- Change the limit of a device, which is made if it is not there. -/
def setLimit (l : DeviceLimiter) (device : DeviceId) (limit : DeviceRateLimit) : DeviceLimiter :=
  let bucket := (l.devices.lookup device).getD {}
  { l with devices := l.devices.insert device { bucket with
      limit := limit.normalized
      tokens := min bucket.tokens limit.normalized.burst } }

/-- The limiter with the device known, if it may be. -/
def admitDevice (l : DeviceLimiter) (device : DeviceId) : Option DeviceLimiter :=
  if (l.devices.lookup device).isSome then some l
  else if l.config.allowUnknownDevices then some (l.registerDevice device l.config.defaultLimit)
  else none

/-! ## Leases -/

/-- Drop the leases of all devices that are past their time, and count them. -/
def expire (l : DeviceLimiter) (nowNs : UInt64) : Nat × DeviceLimiter :=
  let expired := l.devices.total fun bucket =>
    bucket.leases.length - (bucket.dropExpired nowNs).leases.length
  (expired, { l with
    devices := l.devices.map (·.dropExpired nowNs)
    stats.leasesExpired := l.stats.leasesExpired + expired })

/-- The bucket is found before the expiry, which leaves it in its place. -/
def acquire (l : DeviceLimiter) (request : DeviceLeaseRequest) :
    Option DeviceLease × DeviceLimiter :=
  match l.admitDevice request.device with
  | none => (none, l)
  | some admitted =>
      let l := (admitted.expire request.nowNs).2
      match l.devices.lookup request.device with
      | none => (none, l)
      | some bucket =>
          if bucket.leaseConflict request.mode then
            (none, { l with stats.locked := l.stats.locked + 1 })
          else
            let lease : DeviceLease := {
              id := l.nextLeaseId
              device := request.device
              mode := request.mode
              acquiredTimeNs := request.nowNs
              expiresTimeNs := request.nowNs + request.effectiveTtlNs l.config.defaultLeaseTtlNs
              owner := request.owner }
            (some lease, { l with
              devices := l.devices.insert request.device
                { bucket with leases := bucket.leases ++ [lease] }
              stats.leasesGranted := l.stats.leasesGranted + 1
              nextLeaseId := l.nextLeaseId + 1 })

/-- The loop over the devices stops at the first that loses a lease; the ones before it have none
with the identifier. -/
def release (l : DeviceLimiter) (leaseId : DeviceLeaseId) : Bool × DeviceLimiter :=
  let holder := l.devices.entries.find? fun entry =>
    (entry.2.eraseLease leaseId).leases.length ≠ entry.2.leases.length
  match holder with
  | none => (false, l)
  | some (device, bucket) => (true, { l with
      devices := l.devices.insert device (bucket.eraseLease leaseId)
      stats.leasesReleased := l.stats.leasesReleased + 1 })

/-! ## Tokens -/

/-- Refill the bucket of a device and see if it has the tokens. -/
def check (l : DeviceLimiter) (device : DeviceId) (cost : UInt32) (nowNs : UInt64) :
    DeviceLimitResult × DeviceLimiter :=
  match l.admitDevice device with
  | none => (⟨.unknownDevice, 0, "device is not registered"⟩,
      { l with stats.locked := l.stats.locked + 1 })
  | some admitted =>
      let l := (admitted.expire nowNs).2
      match l.devices.lookup device with
      | none => (⟨.unknownDevice, 0, "device bucket unavailable"⟩, l)
      | some bucket =>
          let bucket := bucket.refill nowNs
          let l := { l with devices := l.devices.insert device bucket }
          if bucket.leaseConflict .shared then
            (⟨.locked, l.config.defaultLeaseTtlNs, "device is exclusively locked"⟩,
              { l with stats.locked := l.stats.locked + 1 })
          else if bucket.tokens < bucket.effectiveCost cost then
            (⟨.rateLimited, bucket.retryAfter (bucket.effectiveCost cost),
                "device token bucket is empty"⟩,
              { l with stats.rateLimited := l.stats.rateLimited + 1 })
          else
            (⟨.allowed, 0, "device allowed"⟩, { l with stats.allowed := l.stats.allowed + 1 })

/-- Take the tokens if a check allows it. -/
def consume (l : DeviceLimiter) (device : DeviceId) (cost : UInt32) (nowNs : UInt64) :
    DeviceLimitResult × DeviceLimiter :=
  let (result, l) := l.check device cost nowNs
  if result.decision ≠ .allowed then (result, l)
  else match l.devices.lookup device with
    | none => (⟨.unknownDevice, 0, "device bucket unavailable"⟩, l)
    | some bucket => (result, { l with
        devices := l.devices.insert device (bucket.spend (bucket.effectiveCost cost)) })

/-- Forget all devices, and start the identifiers again. -/
def reset (l : DeviceLimiter) : DeviceLimiter :=
  { l with
    devices := ∅
    stats := {}
    nextLeaseId := 1 }

end DeviceLimiter

/-! ## Runs -/

/-- A call of one of the operations. -/
inductive LimiterOp where
  | registerDevice (device : DeviceId) (limit : DeviceRateLimit)
  | unregisterDevice (device : DeviceId)
  | setLimit (device : DeviceId) (limit : DeviceRateLimit)
  | acquire (request : DeviceLeaseRequest)
  | release (leaseId : DeviceLeaseId)
  | expire (nowNs : UInt64)
  | check (device : DeviceId) (cost : UInt32) (nowNs : UInt64)
  | consume (device : DeviceId) (cost : UInt32) (nowNs : UInt64)
  | reset
  deriving DecidableEq, Repr

/-- The limiter after a call. -/
def DeviceLimiter.step (l : DeviceLimiter) : LimiterOp → DeviceLimiter
  | .registerDevice device limit => l.registerDevice device limit
  | .unregisterDevice device => l.unregisterDevice device
  | .setLimit device limit => l.setLimit device limit
  | .acquire request => (l.acquire request).2
  | .release leaseId => (l.release leaseId).2
  | .expire nowNs => (l.expire nowNs).2
  | .check device cost nowNs => (l.check device cost nowNs).2
  | .consume device cost nowNs => (l.consume device cost nowNs).2
  | .reset => l.reset

end Aethon.Control
