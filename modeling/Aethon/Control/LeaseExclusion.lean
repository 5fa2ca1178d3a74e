import Aethon.Control.LimiterSteps
import Aethon.Foundation.Runs

/-!
# Exclusive leases

An exclusive lease should keep everyone else from its device until it ends, that is for its time to
live from the time it was granted. The limiter stores the end as a word, which wraps.
`exclusive_lease_iff`: a lease excludes in every continuation with times that do not go back,
exactly when its end does not wrap.
-/

namespace Aethon.Control

open Protocol Runs

namespace DeviceLimiter

/-- Before a time no call is granted a lease on the device or allowed to use it. -/
def Excludes (device : DeviceId) (endNs : Nat) (l : DeviceLimiter) : LimiterOp → Prop
  | .acquire request =>
      request.device = device → request.nowNs.toNat < endNs → (l.acquire request).1 = none
  | .check other cost nowNs =>
      other = device → nowNs.toNat < endNs → (l.check other cost nowNs).1.decision ≠ .allowed
  | .consume other cost nowNs =>
      other = device → nowNs.toNat < endNs → (l.consume other cost nowNs).1.decision ≠ .allowed
  | _ => True

/-- The calls that end a lease before its time. -/
def EndsLease (device : DeviceId) (leaseId : DeviceLeaseId) (op : LimiterOp) : Prop :=
  op = .release leaseId ∨ op = .unregisterDevice device ∨ op = .reset

/-- The times of the calls do not go back, from a time on. -/
def InOrder (nowNs : UInt64) (ops : List LimiterOp) : Prop :=
  (nowNs :: ops.filterMap LimiterOp.nowNs).Pairwise (· ≤ ·)

/-! ## A lease that is held -/

variable {device : DeviceId} {lease : DeviceLease}

/-- A live lease stays live in a call before its expiry that does not end it. -/
theorem mem_leasesOf_step {l : DeviceLimiter} (h : lease ∈ l.leasesOf device) {op : LimiterOp}
    (hearly : ∀ nowNs, op.nowNs = some nowNs → nowNs < lease.expiresTimeNs)
    (hends : ¬ EndsLease device lease.id op) : lease ∈ (l.step op).leasesOf device := by
  refine step_rule (fun l => lease ∈ l.leasesOf device) h ?_ ?_ ?_ ?_ ?_ ?_
  · intro current current' hmem hsame
    rwa [hsame.leases]
  · intro current nowNs hnow hmem
    rw [leasesOf_expire]
    exact List.mem_filter.mpr ⟨hmem, decide_eq_true (UInt64.not_le.mpr (hearly nowNs hnow))⟩
  · intro current request granted _ hmem hgranted
    rw [hgranted.leases]
    split_ifs
    · exact List.mem_append_left _ hmem
    · exact hmem
  · intro leaseId hop
    have hne : lease.id ≠ leaseId := fun hid => hends (.inl (hid ▸ hop))
    rcases l.release_cases leaseId with ⟨hnone, -⟩ | ⟨holder, bucket, hbucket, -, hfound⟩
    · rwa [hnone]
    · rw [hfound, leasesOf]
      simp only [SortedTable.lookup_insert]
      split_ifs with hdevice
      · rw [hdevice, leasesOf_of_lookup hbucket] at h
        exact List.mem_filter.mpr ⟨h, decide_eq_true hne⟩
      · exact h
  · intro other hop
    have hne : device ≠ other := fun hsame => hends (.inr (.inl (hsame ▸ hop)))
    show lease ∈ ((l.devices.erase other).lookup device).elim [] (·.leases)
    rw [SortedTable.lookup_erase, if_neg hne]
    exact h
  · intro hop
    exact absurd (.inr (.inr hop)) hends

/-- While an exclusive lease is live at the time of a call, the call is refused. -/
theorem excludes_of_mem {l : DeviceLimiter} (h : lease ∈ l.leasesOf device)
    (hmode : lease.mode = .exclusive) {endNs : Nat} (hend : lease.expiresTimeNs.toNat = endNs)
    (op : LimiterOp) : l.Excludes device endNs op := by
  have hlive : ∀ {admitted : DeviceLimiter} {nowNs : UInt64}, SameLeases l admitted →
      nowNs.toNat < endNs → lease ∈ (admitted.expire nowNs).2.leasesOf device := by
    intro admitted nowNs hsame hnow
    rw [leasesOf_expire, hsame.leases]
    refine List.mem_filter.mpr ⟨h, decide_eq_true (UInt64.not_le.mpr ?_)⟩
    rw [UInt64.lt_iff_toNat_lt, hend]
    exact hnow
  have hcheck : ∀ cost nowNs, nowNs.toNat < endNs →
      (l.check device cost nowNs).1.decision ≠ .allowed := by
    intro cost nowNs hnow hallowed
    rcases l.check_cases device cost nowNs with ⟨hunknown, -⟩ | ⟨admitted, hsame, -, hshared⟩
    · rw [hallowed] at hunknown
      cases hunknown
    · have := hshared hallowed lease (hlive hsame hnow)
      rw [hmode] at this
      cases this
  cases op with
  | acquire request =>
      intro hdevice hnow
      rcases l.acquire_cases request with ⟨-, hnone⟩ | ⟨admitted, hsame, hrefused | hgranted⟩
      · rw [hnone]
      · exact hrefused.1
      · obtain ⟨granted, -, hgranted⟩ := hgranted
        have := hgranted.shared lease (hdevice ▸ hlive hsame hnow)
        rw [hmode] at this
        cases this
  | check other cost nowNs =>
      intro hdevice
      subst hdevice
      exact hcheck cost nowNs
  | consume other cost nowNs =>
      intro hdevice hnow hallowed
      subst hdevice
      exact hcheck cost nowNs hnow ((l.consume_cases other cost nowNs).1 hallowed)
  | registerDevice | unregisterDevice | setLimit | release | expire | reset => trivial

/-- A call at or after the end is not concerned. -/
theorem excludes_of_late {l : DeviceLimiter} {endNs : Nat} {op : LimiterOp}
    (h : ∀ nowNs, op.nowNs = some nowNs → endNs ≤ nowNs.toNat) : l.Excludes device endNs op := by
  cases op with
  | acquire request => exact fun _ hnow => absurd (h _ rfl) (Nat.not_le.mpr hnow)
  | check other cost nowNs => exact fun _ hnow => absurd (h _ rfl) (Nat.not_le.mpr hnow)
  | consume other cost nowNs => exact fun _ hnow => absurd (h _ rfl) (Nat.not_le.mpr hnow)
  | registerDevice | unregisterDevice | setLimit | release | expire | reset => trivial

/-- What is in order from a time on is not before it, and in order behind its first call. -/
theorem InOrder.cons {nowNs : UInt64} {op : LimiterOp} {later : List LimiterOp}
    (h : InOrder nowNs (op :: later)) :
    (∀ time, op.nowNs = some time → nowNs ≤ time) ∧ InOrder (op.nowNs.getD nowNs) later := by
  unfold InOrder at h
  rw [List.filterMap_cons] at h
  cases htime : op.nowNs with
  | none =>
      rw [htime] at h
      exact ⟨nofun, h⟩
  | some time =>
      rw [htime] at h
      obtain ⟨hfirst, hrest⟩ := List.pairwise_cons.mp h
      refine ⟨fun other hother => ?_, hrest⟩
      obtain rfl := Option.some.inj hother
      exact hfirst _ List.mem_cons_self

/-- Nothing is refused for a lease after its end. -/
theorem excludes_late {endNs : Nat} {nowNs : UInt64} (hlate : endNs ≤ nowNs.toNat)
    {later : List LimiterOp} (horder : InOrder nowNs later) (l : DeviceLimiter) :
    Along DeviceLimiter.step (Excludes device endNs) l later := by
  induction later generalizing l nowNs with
  | nil => trivial
  | cons op later ih =>
      obtain ⟨hfirst, hrest⟩ := horder.cons
      have htimes : ∀ time, op.nowNs = some time → endNs ≤ time.toNat := fun time htime =>
        Nat.le_trans hlate (UInt64.le_iff_toNat_le.mp (hfirst time htime))
      refine ⟨excludes_of_late htimes, ih ?_ hrest _⟩
      cases htime : op.nowNs with
      | none => exact hlate
      | some time => exact htimes time htime

/-- A live exclusive lease excludes in every run that does not end it. -/
theorem excludes_run (hmode : lease.mode = .exclusive) {l : DeviceLimiter}
    (h : lease ∈ l.leasesOf device) {nowNs : UInt64} {later : List LimiterOp}
    (horder : InOrder nowNs later) (hends : ∀ op ∈ later, ¬ EndsLease device lease.id op) :
    Along DeviceLimiter.step (Excludes device lease.expiresTimeNs.toNat) l later := by
  induction later generalizing l nowNs with
  | nil => trivial
  | cons op later ih =>
      obtain ⟨-, hrest⟩ := horder.cons
      have hop := hends op List.mem_cons_self
      have htail := fun other hmem => hends other (List.mem_cons_of_mem op hmem)
      by_cases hearly : ∀ time, op.nowNs = some time → time < lease.expiresTimeNs
      · exact ⟨excludes_of_mem h hmode rfl op, ih (mem_leasesOf_step h hearly hop) hrest htail⟩
      · -- from this call on the lease may be gone, but it is over
        obtain ⟨time, htime, hlate⟩ : ∃ time, op.nowNs = some time ∧
            lease.expiresTimeNs ≤ time := by
          simpa [UInt64.not_lt] using hearly
        have hend := UInt64.le_iff_toNat_le.mp hlate
        rw [htime] at hrest
        exact ⟨excludes_of_mem h hmode rfl op, excludes_late hend hrest _⟩

/-! ## A lease that is granted -/

/-- An exclusive lease excludes everyone from its device until its time to live is over, in every
continuation with times that do not go back and without a call that ends it, exactly when the time
it ends at does not wrap. -/
theorem exclusive_lease_iff (l : DeviceLimiter) (request : DeviceLeaseRequest)
    (lease : DeviceLease) (hgrant : (l.acquire request).1 = some lease)
    (hmode : request.mode = .exclusive) :
    let endNs := request.nowNs.toNat +
      (request.effectiveTtlNs l.config.defaultLeaseTtlNs).toNat
    (∀ later, InOrder request.nowNs later →
        (∀ op ∈ later, ¬ EndsLease request.device lease.id op) →
        Along DeviceLimiter.step (Excludes request.device endNs) (l.acquire request).2 later) ↔
      endNs < 2 ^ 64 := by
  intro endNs
  rcases l.acquire_cases request with ⟨-, hnone⟩ | ⟨admitted, hsame, hrefused | hgranted⟩
  · rw [hnone] at hgrant
    cases hgrant
  · rw [hrefused.1] at hgrant
    cases hgrant
  obtain ⟨granted, hresult, hgranted⟩ := hgranted
  obtain rfl : granted = lease := Option.some.inj (hresult.symm.trans hgrant)
  have hleases : (l.acquire request).2.leasesOf request.device = [granted] := by
    rw [hgranted.leases, if_pos rfl, hgranted.alone hmode, List.nil_append]
  have hexclusive : granted.mode = .exclusive := by rw [hgranted.fields, ← hmode]
  have hexpires : granted.expiresTimeNs.toNat = endNs % 2 ^ 64 := by
    have hconfig : (admitted.expire request.nowNs).2.config = l.config := hsame.config
    rw [hgranted.fields, hconfig, UInt64.toNat_add]
  constructor
  · intro hexcludes
    by_contra hwrap
    -- the lease is over when it is granted, so the same request is granted once more
    have hagain : InOrder request.nowNs [.acquire request] := by
      simp [InOrder, LimiterOp.nowNs]
    obtain ⟨hnone, -⟩ := hexcludes [.acquire request] hagain (by simp [EndsLease])
    have hnow := request.nowNs.toNat_lt
    have hrefused := hnone rfl (by omega)
    have hover : granted.expiresTimeNs ≤ request.nowNs := by
      have httl := (request.effectiveTtlNs l.config.defaultLeaseTtlNs).toNat_lt
      rw [UInt64.le_iff_toNat_le, hexpires]
      omega
    rcases (l.acquire request).2.acquire_cases request with
      ⟨hlookup, -⟩ | ⟨current, hcurrent, ⟨-, -, hconflict⟩ | ⟨_, hsome, -⟩⟩
    · rw [leasesOf, hlookup] at hleases
      cases hleases
    · refine hconflict ?_
      rw [leasesOf_expire, hcurrent.leases, hleases]
      simp [hover]
    · rw [hsome] at hrefused
      cases hrefused
  · intro hbound later horder hends
    rw [Nat.mod_eq_of_lt hbound] at hexpires
    rw [← hexpires]
    exact excludes_run hexclusive (hleases ▸ List.mem_singleton_self granted) horder hends

/-- A lease of a second, from a time of one. -/
theorem exclusive_lease_second :
    let request : DeviceLeaseRequest := { device := 7, nowNs := 1, ttlNs := oneSecondNs }
    ∀ later, InOrder 1 later → (∀ op ∈ later, ¬ EndsLease 7 1 op) →
      Along DeviceLimiter.step (Excludes 7 1000000001) ((create {}).acquire request).2 later := by
  intro request
  exact (exclusive_lease_iff (create {}) request
    { id := 1, device := 7, acquiredTimeNs := 1, expiresTimeNs := 1000000001 }
    (by decide +kernel) rfl).mpr (by decide)

/-- The longest time to live from a time of one ends at zero, so a second owner gets an exclusive
lease at once. -/
theorem longest_lease_excludes_no_one :
    let request : DeviceLeaseRequest := { device := 7, nowNs := 1, ttlNs := 18446744073709551615 }
    let l := ((create {}).acquire request).2
    ((create {}).acquire request).1.isSome ∧ (l.acquire request).1.isSome ∧
      ¬ l.Excludes 7 (1 + 18446744073709551615) (.acquire request) := by
  intro request l
  have hagain : (l.acquire request).1.isSome := by decide +kernel
  refine ⟨by decide +kernel, hagain, fun hexcludes => ?_⟩
  rw [hexcludes rfl (by decide)] at hagain
  cases hagain

end DeviceLimiter

end Aethon.Control
