import Aethon.Control.DeviceLimiter

/-!
# What the limiter calls can do to leases and buckets

Most calls change the leases only in that they drop the expired ones; the rest of what they do, to
tokens, limits and the counters of checks, leaves every lease in its place (`SameLeases`).
`acquire_cases` and `check_cases` say what the calls with a time do, and `step_rule` is the rule
that follows for a property of the leases: it is enough that it is kept by such changes, by an
expiry, and by a grant, besides what `release` and the removal of devices do.

To the buckets, a call does nothing but drop the expired leases and put buckets in their place, each
of one of the kinds of `Puts`; `put_rule` is the rule for a property of the buckets.
-/

namespace Aethon.Control

open Protocol

/-- A refill touches no lease. -/
theorem DeviceBucket.leases_refill (bucket : DeviceBucket) (nowNs : UInt64) :
    (bucket.refill nowNs).leases = bucket.leases := by
  unfold DeviceBucket.refill
  simp only
  split_ifs <;> rfl

/-- The time of a call. -/
def LimiterOp.nowNs : LimiterOp → Option UInt64
  | .acquire request => some request.nowNs
  | .expire nowNs | .check _ _ nowNs | .consume _ _ nowNs => some nowNs
  | _ => none

namespace DeviceLimiter

/-! ## The leases of a limiter -/

/-- The leases of a device, none for one that is not known. -/
def leasesOf (l : DeviceLimiter) (device : DeviceId) : List DeviceLease :=
  (l.devices.lookup device).elim [] (·.leases)

/-- The number of leases of a kind. -/
def leaseCount (l : DeviceLimiter) (kind : DeviceLease → Bool) : Nat :=
  l.devices.total fun bucket => bucket.leases.countP kind

/-- The number of live leases. -/
def live (l : DeviceLimiter) : Nat :=
  l.devices.total fun bucket => bucket.leases.length

/-- Nothing about the leases differs. -/
structure SameLeases (l l' : DeviceLimiter) : Prop where
  leases : ∀ device, l'.leasesOf device = l.leasesOf device
  count : ∀ kind, l'.leaseCount kind = l.leaseCount kind
  live : l'.live = l.live
  granted : l'.stats.leasesGranted = l.stats.leasesGranted
  released : l'.stats.leasesReleased = l.stats.leasesReleased
  expired : l'.stats.leasesExpired = l.stats.leasesExpired
  nextLeaseId : l'.nextLeaseId = l.nextLeaseId
  config : l'.config = l.config

theorem SameLeases.refl (l : DeviceLimiter) : SameLeases l l :=
  ⟨fun _ => rfl, fun _ => rfl, rfl, rfl, rfl, rfl, rfl, rfl⟩

/-- Limiters with the same leases as one in the middle have the same leases. -/
theorem SameLeases.trans {first second third : DeviceLimiter} (h : SameLeases first second)
    (h' : SameLeases second third) : SameLeases first third :=
  ⟨fun device => (h'.leases device).trans (h.leases device),
    fun kind => (h'.count kind).trans (h.count kind), h'.live.trans h.live,
    h'.granted.trans h.granted, h'.released.trans h.released, h'.expired.trans h.expired,
    h'.nextLeaseId.trans h.nextLeaseId, h'.config.trans h.config⟩

/-- The count after a bucket is put in its place. -/
theorem total_insert_leases {devices : SortedTable DeviceId DeviceBucket} {device : DeviceId}
    {bucket : DeviceBucket} (weight : List DeviceLease → Nat) (hnone : weight [] = 0)
    (h : weight bucket.leases = weight ((devices.lookup device).elim [] (·.leases))) :
    (devices.insert device bucket).total (fun bucket => weight bucket.leases) =
      devices.total fun bucket => weight bucket.leases := by
  have htotal := devices.total_insert device bucket fun bucket => weight bucket.leases
  cases hlookup : devices.lookup device with
  | none =>
      rw [hlookup, Option.elim_none] at h htotal
      omega
  | some held =>
      rw [hlookup, Option.elim_some] at h htotal
      omega

/-- A bucket with the same leases is put in its place. -/
theorem same_leases_insert (l : DeviceLimiter) {device : DeviceId} {bucket : DeviceBucket}
    (h : bucket.leases = l.leasesOf device) :
    SameLeases l { l with devices := l.devices.insert device bucket } where
  leases := fun other => by
    show ((l.devices.insert device bucket).lookup other).elim [] (·.leases) = l.leasesOf other
    rw [SortedTable.lookup_insert]
    split_ifs with hkey
    · rw [hkey]
      exact h
    · rfl
  count := fun kind => total_insert_leases (·.countP kind) rfl (congrArg _ h)
  live := total_insert_leases (·.length) rfl (congrArg _ h)
  granted := rfl
  released := rfl
  expired := rfl
  nextLeaseId := rfl
  config := rfl

/-- The counters of checks are none of the leases. -/
theorem same_leases_stats (l : DeviceLimiter) {stats : DeviceLimiterStats}
    (hgranted : stats.leasesGranted = l.stats.leasesGranted)
    (hreleased : stats.leasesReleased = l.stats.leasesReleased)
    (hexpired : stats.leasesExpired = l.stats.leasesExpired) :
    SameLeases l { l with stats := stats } :=
  ⟨fun _ => rfl, fun _ => rfl, rfl, hgranted, hreleased, hexpired, rfl, rfl⟩

theorem same_leases_register (l : DeviceLimiter) (device : DeviceId) (limit : DeviceRateLimit) :
    SameLeases l (l.registerDevice device limit) := by
  refine l.same_leases_insert ?_
  unfold leasesOf
  cases l.devices.lookup device <;> rfl

theorem same_leases_set_limit (l : DeviceLimiter) (device : DeviceId) (limit : DeviceRateLimit) :
    SameLeases l (l.setLimit device limit) := by
  refine l.same_leases_insert ?_
  unfold leasesOf
  cases l.devices.lookup device <;> rfl

/-- A device that is admitted keeps its leases and is known. -/
theorem admit_device_cases {l admitted : DeviceLimiter} {device : DeviceId}
    (h : l.admitDevice device = some admitted) :
    SameLeases l admitted ∧ ∃ bucket, admitted.devices.lookup device = some bucket ∧
      (∀ known, l.devices.lookup device = some known → admitted = l) := by
  unfold admitDevice at h
  split_ifs at h with hknown hallowed
  · obtain rfl := Option.some.inj h
    obtain ⟨bucket, hbucket⟩ := Option.isSome_iff_exists.mp hknown
    exact ⟨.refl l, bucket, hbucket, fun _ _ => rfl⟩
  · obtain rfl := Option.some.inj h
    refine ⟨l.same_leases_register device _, _,
      (SortedTable.lookup_insert _ _ _ _).trans (if_pos rfl), fun known hlookup => ?_⟩
    rw [hlookup] at hknown
    exact absurd rfl hknown

/-! ## Expiry -/

theorem lookup_expire (l : DeviceLimiter) (nowNs : UInt64) (device : DeviceId) :
    (l.expire nowNs).2.devices.lookup device =
      (l.devices.lookup device).map (·.dropExpired nowNs) :=
  l.devices.lookup_map _ device

/-- The leases of a device that are left after an expiry. -/
theorem leasesOf_expire (l : DeviceLimiter) (nowNs : UInt64) (device : DeviceId) :
    (l.expire nowNs).2.leasesOf device =
      (l.leasesOf device).filter fun lease => ¬ lease.expiresTimeNs ≤ nowNs := by
  rw [leasesOf, lookup_expire]
  unfold leasesOf
  cases l.devices.lookup device <;> rfl

/-- What does not expire is as much as before, without what does. -/
theorem live_expire (l : DeviceLimiter) (nowNs : UInt64) :
    (l.expire nowNs).2.live + (l.expire nowNs).1 = l.live := by
  have hsplit := l.devices.total_add (fun bucket => (bucket.dropExpired nowNs).leases.length)
    fun bucket => bucket.leases.length - (bucket.dropExpired nowNs).leases.length
  have hwhole : ∀ bucket : DeviceBucket, (bucket.dropExpired nowNs).leases.length +
      (bucket.leases.length - (bucket.dropExpired nowNs).leases.length) =
        bucket.leases.length := by
    intro bucket
    have hle : (bucket.dropExpired nowNs).leases.length ≤ bucket.leases.length :=
      List.length_filter_le _ _
    omega
  simp only [hwhole] at hsplit
  rw [live, show (l.expire nowNs).2.devices = l.devices.map (·.dropExpired nowNs) from rfl,
    SortedTable.total_map]
  exact hsplit.symm

/-- Expiry makes no count larger. -/
theorem leaseCount_expire_le (l : DeviceLimiter) (nowNs : UInt64) (kind : DeviceLease → Bool) :
    (l.expire nowNs).2.leaseCount kind ≤ l.leaseCount kind := by
  rw [leaseCount, show (l.expire nowNs).2.devices = l.devices.map (·.dropExpired nowNs) from rfl,
    SortedTable.total_map]
  refine l.devices.total_le fun bucket => ?_
  exact (List.filter_sublist).countP_le

/-! ## Grants -/

/-- A lease is granted: it is the next one, it conflicts with none on its device, and it comes
behind those. -/
structure Granted (l l' : DeviceLimiter) (request : DeviceLeaseRequest) (lease : DeviceLease) :
    Prop where
  fields : lease = ⟨l.nextLeaseId, request.device, request.mode, request.nowNs,
    request.nowNs + request.effectiveTtlNs l.config.defaultLeaseTtlNs, request.owner⟩
  shared : ∀ held ∈ l.leasesOf request.device, held.mode = .shared
  alone : request.mode = .exclusive → l.leasesOf request.device = []
  leases : ∀ device, l'.leasesOf device =
    if device = request.device then l.leasesOf device ++ [lease] else l.leasesOf device
  count : ∀ kind, l'.leaseCount kind = l.leaseCount kind + if kind lease then 1 else 0
  live : l'.live = l.live + 1
  granted : l'.stats.leasesGranted = l.stats.leasesGranted + 1
  released : l'.stats.leasesReleased = l.stats.leasesReleased
  expired : l'.stats.leasesExpired = l.stats.leasesExpired
  nextLeaseId : l'.nextLeaseId = l.nextLeaseId + 1
  config : l'.config = l.config

/-- Without a conflict there is no exclusive lease, and none at all where one is asked for. -/
theorem of_no_conflict {bucket : DeviceBucket} {mode : DeviceLeaseMode}
    (h : bucket.leaseConflict mode = false) :
    (∀ held ∈ bucket.leases, held.mode = .shared) ∧ (mode = .exclusive → bucket.leases = []) := by
  unfold DeviceBucket.leaseConflict at h
  split_ifs at h with hempty hmode
  · have hnone : bucket.leases = [] := List.isEmpty_iff.mp hempty
    exact ⟨by simp [hnone], fun _ => hnone⟩
  · refine ⟨fun held hmem => ?_, fun hexclusive => absurd hexclusive hmode⟩
    have hshared := List.any_eq_false.mp h held hmem
    cases hheld : held.mode with
    | shared => rfl
    | exclusive => simp [hheld] at hshared

theorem leasesOf_of_lookup {l : DeviceLimiter} {device : DeviceId} {bucket : DeviceBucket}
    (h : l.devices.lookup device = some bucket) : l.leasesOf device = bucket.leases := by
  rw [leasesOf, h, Option.elim_some]

/-- The sum over the leases after one is appended to those of its device. -/
theorem total_insert_append {devices : SortedTable DeviceId DeviceBucket} {device : DeviceId}
    {bucket : DeviceBucket} {lease : DeviceLease} {n : Nat}
    (hlookup : devices.lookup device = some bucket) (weight : List DeviceLease → Nat)
    (h : weight (bucket.leases ++ [lease]) = weight bucket.leases + n) :
    (devices.insert device { bucket with leases := bucket.leases ++ [lease] }).total
        (fun bucket => weight bucket.leases) =
      devices.total (fun bucket => weight bucket.leases) + n := by
  have htotal := devices.total_insert device { bucket with leases := bucket.leases ++ [lease] }
    fun bucket => weight bucket.leases
  simp only [hlookup, Option.elim_some, h] at htotal
  omega

/-- A call of `acquire` finds no device, or after an expiry refuses the lease because of others, or
grants it. -/
theorem acquire_cases (l : DeviceLimiter) (request : DeviceLeaseRequest) :
    (l.devices.lookup request.device = none ∧ l.acquire request = (none, l)) ∨
      ∃ admitted, SameLeases l admitted ∧
        (((l.acquire request).1 = none ∧
            SameLeases (admitted.expire request.nowNs).2 (l.acquire request).2 ∧
            (admitted.expire request.nowNs).2.leasesOf request.device ≠ []) ∨
          ∃ lease, (l.acquire request).1 = some lease ∧
            Granted (admitted.expire request.nowNs).2 (l.acquire request).2 request lease) := by
  unfold acquire
  cases hadmit : l.admitDevice request.device with
  | none =>
      refine .inl ⟨?_, rfl⟩
      unfold admitDevice at hadmit
      split_ifs at hadmit with hknown
      simpa using hknown
  | some admitted =>
      obtain ⟨hsame, known, hlookup, -⟩ := admit_device_cases hadmit
      refine .inr ⟨admitted, hsame, ?_⟩
      have hbucket : (admitted.expire request.nowNs).2.devices.lookup request.device =
          some (known.dropExpired request.nowNs) := by
        rw [lookup_expire, hlookup, Option.map_some]
      have hleases := leasesOf_of_lookup hbucket
      simp only [hbucket]
      generalize (admitted.expire request.nowNs).2 = current at hbucket hleases
      generalize known.dropExpired request.nowNs = bucket at hbucket hleases
      split_ifs with hconflict
      · refine .inl ⟨rfl, current.same_leases_stats rfl rfl rfl, fun hnone => ?_⟩
        rw [hleases] at hnone
        simp [DeviceBucket.leaseConflict, hnone] at hconflict
      · obtain ⟨hshared, halone⟩ := of_no_conflict (by simpa using hconflict)
        refine .inr ⟨_, rfl, rfl, hleases ▸ hshared, hleases ▸ halone, fun device => ?_,
          fun kind => ?_, ?_, rfl, rfl, rfl, rfl, rfl⟩
        · show ((current.devices.insert _ _).lookup device).elim [] (·.leases) = _
          rw [SortedTable.lookup_insert]
          split_ifs with hdevice
          · rw [hdevice, hleases]
            rfl
          · rfl
        · refine total_insert_append hbucket (·.countP kind) ?_
          rw [List.countP_append, List.countP_singleton]
        · refine total_insert_append hbucket (·.length) ?_
          rw [List.length_append, List.length_singleton]

/-! ## Checks -/

/-- A call of `check` finds no device, or after an expiry it refills the bucket of the device, and
allows no more than the bucket then holds and nothing beside an exclusive lease. -/
theorem check_eq_cases (l : DeviceLimiter) (device : DeviceId) (cost : UInt32)
    (nowNs : UInt64) :
    (l.devices.lookup device = none ∧ (l.check device cost nowNs).1.decision = .unknownDevice ∧
        (l.check device cost nowNs).2 =
          { l with stats := { l.stats with locked := l.stats.locked + 1 } }) ∨
      ∃ admitted bucket stats, l.admitDevice device = some admitted ∧
        admitted.devices.lookup device = some bucket ∧
        let current := (admitted.expire nowNs).2
        let refilled := (bucket.dropExpired nowNs).refill nowNs
        (l.check device cost nowNs).2 =
            { current with devices := current.devices.insert device refilled, stats := stats } ∧
          SameLeases current { current with stats := stats } ∧
          ((l.check device cost nowNs).1.decision = .allowed →
            refilled.leaseConflict .shared = false ∧
              refilled.effectiveCost cost ≤ refilled.tokens) := by
  unfold check
  cases hadmit : l.admitDevice device with
  | none =>
      refine .inl ⟨?_, rfl, rfl⟩
      unfold admitDevice at hadmit
      split_ifs at hadmit with hknown
      simpa using hknown
  | some admitted =>
      obtain ⟨-, bucket, hlookup, -⟩ := admit_device_cases hadmit
      simp only [lookup_expire, hlookup, Option.map_some]
      split_ifs with hconflict hempty
      · exact .inr ⟨admitted, bucket, _, rfl, hlookup, rfl, same_leases_stats _ rfl rfl rfl,
          fun hallowed => by cases hallowed⟩
      · exact .inr ⟨admitted, bucket, _, rfl, hlookup, rfl, same_leases_stats _ rfl rfl rfl,
          fun hallowed => by cases hallowed⟩
      · exact .inr ⟨admitted, bucket, _, rfl, hlookup, rfl, same_leases_stats _ rfl rfl rfl,
          fun _ => ⟨by simpa using hconflict, UInt32.not_lt.mp hempty⟩⟩

/-- A check touches no lease but those that expire, and allows nothing while there is an exclusive
one. -/
theorem check_cases (l : DeviceLimiter) (device : DeviceId) (cost : UInt32) (nowNs : UInt64) :
    ((l.check device cost nowNs).1.decision = .unknownDevice ∧
        SameLeases l (l.check device cost nowNs).2) ∨
      ∃ admitted, SameLeases l admitted ∧
        SameLeases (admitted.expire nowNs).2 (l.check device cost nowNs).2 ∧
        ((l.check device cost nowNs).1.decision = .allowed →
          ∀ held ∈ (admitted.expire nowNs).2.leasesOf device, held.mode = .shared) := by
  rcases l.check_eq_cases device cost nowNs with ⟨-, hunknown, hchecked⟩ |
    ⟨admitted, bucket, stats, hadmit, hlookup, hchecked, hstats, hallowed⟩
  · rw [hchecked]
    exact .inl ⟨hunknown, l.same_leases_stats rfl rfl rfl⟩
  · obtain ⟨hsame, -⟩ := admit_device_cases hadmit
    have hbucket : (admitted.expire nowNs).2.devices.lookup device =
        some (bucket.dropExpired nowNs) := by
      rw [lookup_expire, hlookup, Option.map_some]
    have hrefill : ((bucket.dropExpired nowNs).refill nowNs).leases =
        (admitted.expire nowNs).2.leasesOf device := by
      rw [leasesOf_of_lookup hbucket, DeviceBucket.leases_refill]
    refine .inr ⟨admitted, hsame, ?_, fun h => ?_⟩
    · rw [hchecked]
      exact hstats.trans (same_leases_insert _ hrefill)
    · rw [← hrefill]
      exact (of_no_conflict (hallowed h).1).1

/-- A call of `consume` checks first, and takes tokens only where the check allows it. -/
theorem consume_cases (l : DeviceLimiter) (device : DeviceId) (cost : UInt32) (nowNs : UInt64) :
    ((l.consume device cost nowNs).1.decision = .allowed →
        (l.check device cost nowNs).1.decision = .allowed) ∧
      SameLeases (l.check device cost nowNs).2 (l.consume device cost nowNs).2 := by
  unfold consume
  generalize l.check device cost nowNs = checked
  obtain ⟨result, current⟩ := checked
  simp only
  split_ifs with hrefused
  · exact ⟨id, .refl current⟩
  split
  · exact ⟨fun hallowed => (by cases hallowed), .refl current⟩
  · rename_i bucket hlookup
    exact ⟨id, current.same_leases_insert (leasesOf_of_lookup hlookup).symm⟩

/-! ## Releases -/

/-- A release takes the lease out of the first bucket that holds it, or there is none. -/
theorem release_cases (l : DeviceLimiter) (leaseId : DeviceLeaseId) :
    (l.release leaseId = (false, l) ∧
        ∀ device, ∀ lease ∈ l.leasesOf device, lease.id ≠ leaseId) ∨
      ∃ device bucket, l.devices.lookup device = some bucket ∧
        (∃ lease ∈ bucket.leases, lease.id = leaseId) ∧
        l.release leaseId = (true, { l with
          devices := l.devices.insert device (bucket.eraseLease leaseId)
          stats.leasesReleased := l.stats.leasesReleased + 1 }) := by
  unfold release
  have hholds : ∀ bucket : DeviceBucket,
      (bucket.eraseLease leaseId).leases.length ≠ bucket.leases.length ↔
        ∃ lease ∈ bucket.leases, lease.id = leaseId := by
    intro bucket
    show (bucket.leases.filter _).length ≠ _ ↔ _
    rw [Ne, List.length_filter_eq_length_iff]
    simp
  simp only
  split
  · rename_i hfind
    refine .inl ⟨rfl, fun device lease hmem hid => ?_⟩
    cases hlookup : l.devices.lookup device with
    | none =>
        rw [leasesOf, hlookup] at hmem
        cases hmem
    | some bucket =>
        rw [leasesOf_of_lookup hlookup] at hmem
        have hmissed := List.find?_eq_none.mp hfind (device, bucket)
          (SortedTable.mem_entries_iff.mpr hlookup)
        exact hmissed (decide_eq_true ((hholds bucket).mpr ⟨lease, hmem, hid⟩))
  · rename_i device bucket hfind
    have hlookup : l.devices.lookup device = some bucket :=
      SortedTable.mem_entries_iff.mp (List.mem_of_find?_eq_some hfind)
    have hfound := List.find?_some hfind
    exact .inr ⟨device, bucket, hlookup, (hholds bucket).mp (of_decide_eq_true hfound), rfl⟩

/-! ## Calls -/

/-- What is kept by the changes that leave the leases in their place, by the expiry of a call and
by a grant, is kept by a call, besides a release and the removal of devices. -/
theorem step_rule (inv : DeviceLimiter → Prop) {l : DeviceLimiter} {op : LimiterOp} (h : inv l)
    (hsame : ∀ l l', inv l → SameLeases l l' → inv l')
    (hexpire : ∀ l nowNs, op.nowNs = some nowNs → inv l → inv (l.expire nowNs).2)
    (hgranted : ∀ current request lease, op = .acquire request → inv current →
      Granted current (l.step op) request lease → inv (l.step op))
    (hrelease : ∀ leaseId, op = .release leaseId → inv (l.release leaseId).2)
    (hunregister : ∀ device, op = .unregisterDevice device → inv (l.unregisterDevice device))
    (hreset : op = .reset → inv l.reset) : inv (l.step op) := by
  have hcheck : ∀ device cost nowNs, op.nowNs = some nowNs →
      inv (l.check device cost nowNs).2 := by
    intro device cost nowNs hnow
    rcases l.check_cases device cost nowNs with ⟨-, hunknown⟩ | ⟨admitted, hadmit, hchecked, -⟩
    · exact hsame l _ h hunknown
    · exact hsame _ _ (hexpire admitted nowNs hnow (hsame l admitted h hadmit)) hchecked
  cases op with
  | registerDevice device limit => exact hsame l _ h (l.same_leases_register device limit)
  | unregisterDevice device => exact hunregister device rfl
  | setLimit device limit => exact hsame l _ h (l.same_leases_set_limit device limit)
  | acquire request =>
      show inv (l.acquire request).2
      rcases l.acquire_cases request with ⟨-, hnone⟩ | ⟨admitted, hadmit, hcases⟩
      · rwa [hnone]
      · have hcurrent := hexpire admitted request.nowNs rfl (hsame l admitted h hadmit)
        rcases hcases with ⟨-, hrefused, -⟩ | ⟨lease, -, hgrant⟩
        · exact hsame _ _ hcurrent hrefused
        · exact hgranted _ request lease rfl hcurrent hgrant
  | release leaseId => exact hrelease leaseId rfl
  | expire nowNs => exact hexpire l nowNs rfl h
  | check device cost nowNs => exact hcheck device cost nowNs rfl
  | consume device cost nowNs =>
      obtain ⟨-, hconsumed⟩ := l.consume_cases device cost nowNs
      exact hsame _ _ (hcheck device cost nowNs rfl) hconsumed
  | reset => exact hreset rfl

/-! ## Buckets -/

/-- The device that a call names. -/
def target : LimiterOp → Option DeviceId
  | .registerDevice device _ | .unregisterDevice device | .setLimit device _ => some device
  | .acquire request => some request.device
  | .check device _ _ | .consume device _ _ => some device
  | .release _ | .expire _ | .reset => none

/-- The bucket that a call puts in its place for a device, besides an expiry. -/
inductive Puts (l : DeviceLimiter) : LimiterOp → DeviceId → DeviceBucket → Prop where
  | registered {op : LimiterOp} {device : DeviceId} (limit : DeviceRateLimit)
      (htarget : target op = some device)
      (hnew : l.devices.lookup device = none ∨ ∃ given, op = .registerDevice device given) :
      Puts l op device { (l.devices.lookup device).getD {} with
        limit := limit.normalized
        tokens := limit.normalized.burst }
  | limited (device : DeviceId) (limit : DeviceRateLimit) :
      Puts l (.setLimit device limit) device { (l.devices.lookup device).getD {} with
        limit := limit.normalized
        tokens := min ((l.devices.lookup device).getD {}).tokens limit.normalized.burst }
  | leased {request : DeviceLeaseRequest} {bucket : DeviceBucket} (lease : DeviceLease)
      (hbucket : l.devices.lookup request.device = some bucket) :
      Puts l (.acquire request) request.device
        { bucket with leases := bucket.leases ++ [lease] }
  | released {leaseId : DeviceLeaseId} {device : DeviceId} {bucket : DeviceBucket}
      (hbucket : l.devices.lookup device = some bucket) (hleases : bucket.leases ≠ []) :
      Puts l (.release leaseId) device (bucket.eraseLease leaseId)
  | refilled {op : LimiterOp} {device : DeviceId} {cost : UInt32} {nowNs : UInt64}
      {bucket : DeviceBucket}
      (hop : op = .check device cost nowNs ∨ op = .consume device cost nowNs)
      (hbucket : l.devices.lookup device = some bucket) :
      Puts l op device (bucket.refill nowNs)
  | spent {device : DeviceId} {cost : UInt32} {nowNs : UInt64} {bucket : DeviceBucket}
      (hbucket : l.devices.lookup device = some bucket) :
      Puts l (.consume device cost nowNs) device (bucket.spend (bucket.effectiveCost cost))

/-- The device of a bucket that a call puts is the one it names, or one that held a lease. -/
theorem Puts.target_or_held {l : DeviceLimiter} {op : LimiterOp} {device : DeviceId}
    {bucket : DeviceBucket} (h : Puts l op device bucket) :
    target op = some device ∨
      ∃ held, l.devices.lookup device = some held ∧ held.leases ≠ [] := by
  cases h with
  | registered limit htarget => exact .inl htarget
  | limited | leased | spent => exact .inl rfl
  | released hbucket hleases => exact .inr ⟨_, hbucket, hleases⟩
  | refilled hop => rcases hop with rfl | rfl <;> exact .inl rfl

/-- What is kept by the buckets that a call puts, by its expiry and by changes elsewhere, is kept by
the call, besides the removal of devices. -/
theorem put_rule (inv : DeviceLimiter → Prop) {l : DeviceLimiter} {op : LimiterOp} (h : inv l)
    (hsame : ∀ l l' : DeviceLimiter, inv l → l'.devices = l.devices → inv l')
    (hexpire : ∀ l nowNs, op.nowNs = some nowNs → inv l → inv (l.expire nowNs).2)
    (hput : ∀ l device bucket, Puts l op device bucket → inv l →
      inv { l with devices := l.devices.insert device bucket })
    (hunregister : ∀ device, op = .unregisterDevice device → inv (l.unregisterDevice device))
    (hreset : op = .reset → inv l.reset) : inv (l.step op) := by
  have hadmitted : ∀ device admitted, target op = some device →
      l.admitDevice device = some admitted → inv admitted := by
    intro device admitted htarget hadmits
    unfold admitDevice at hadmits
    split_ifs at hadmits with hknown
    · exact Option.some.inj hadmits ▸ h
    · exact Option.some.inj hadmits ▸
        hput l device _ (.registered _ htarget (.inl (by simpa using hknown))) h
  have hcheck : ∀ device cost nowNs,
      (op = .check device cost nowNs ∨ op = .consume device cost nowNs) →
        inv (l.check device cost nowNs).2 := by
    intro device cost nowNs hop
    have htarget : target op = some device ∧ op.nowNs = some nowNs := by
      rcases hop with rfl | rfl <;> exact ⟨rfl, rfl⟩
    rcases l.check_eq_cases device cost nowNs with ⟨-, -, hchecked⟩ |
      ⟨admitted, bucket, stats, hadmits, hlookup, hchecked, -⟩
    · exact hsame l _ h (by rw [hchecked])
    · have hcurrent :=
        hexpire admitted nowNs htarget.2 (hadmitted device admitted htarget.1 hadmits)
      have hbucket : (admitted.expire nowNs).2.devices.lookup device =
          some (bucket.dropExpired nowNs) := by
        rw [lookup_expire, hlookup, Option.map_some]
      exact hsame _ _ (hput _ device _ (.refilled hop hbucket) hcurrent) (by rw [hchecked])
  cases op with
  | registerDevice device limit => exact hput l device _ (.registered _ rfl (.inr ⟨limit, rfl⟩)) h
  | unregisterDevice device => exact hunregister device rfl
  | setLimit device limit => exact hput l device _ (.limited device limit) h
  | acquire request =>
      show inv (l.acquire request).2
      unfold acquire
      split
      · exact h
      rename_i admitted hadmits
      have hcurrent := hexpire admitted request.nowNs rfl (hadmitted _ admitted rfl hadmits)
      simp only
      split
      · exact hcurrent
      rename_i bucket hbucket
      split_ifs
      · exact hsame _ _ hcurrent rfl
      · exact hsame _ _ (hput _ request.device _ (.leased _ hbucket) hcurrent) rfl
  | release leaseId =>
      show inv (l.release leaseId).2
      rcases l.release_cases leaseId with ⟨hnone, -⟩ | ⟨device, bucket, hbucket, hlease, hfound⟩
      · rwa [hnone]
      · obtain ⟨lease, hmem, -⟩ := hlease
        rw [hfound]
        exact hsame _ _ (hput l device _ (.released hbucket (List.ne_nil_of_mem hmem)) h) rfl
  | expire nowNs => exact hexpire l nowNs rfl h
  | check device cost nowNs => exact hcheck device cost nowNs (.inl rfl)
  | consume device cost nowNs =>
      have hchecked := hcheck device cost nowNs (.inr rfl)
      show inv (l.consume device cost nowNs).2
      unfold consume
      generalize l.check device cost nowNs = checked at hchecked
      obtain ⟨result, current⟩ := checked
      simp only
      split_ifs
      · exact hchecked
      split
      · exact hchecked
      · rename_i bucket hbucket
        exact hput current device _ (.spent hbucket) hchecked
  | reset => exact hreset rfl

end DeviceLimiter

end Aethon.Control
