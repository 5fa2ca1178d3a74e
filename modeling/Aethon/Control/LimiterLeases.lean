import Aethon.Control.LimiterSteps
import Aethon.Foundation.Runs

/-!
# The lease table

`leases_consistent`: in every run in which the counter of lease identifiers does not wrap, the
leases of a device are all shared or one is alone and exclusive, no identifier is given twice, every
lease granted since the last reset is live or counted once as released, expired or dropped with
its device, and a release takes out the lease it names wherever that is live.
-/

namespace Aethon.Control

open Protocol Runs

namespace DeviceLimiter

/-- All live leases. -/
def leases (l : DeviceLimiter) : List DeviceLease :=
  l.devices.values.flatMap (·.leases)

/-- A lease is held by some device. -/
theorem mem_leases_iff {l : DeviceLimiter} {lease : DeviceLease} :
    lease ∈ l.leases ↔ ∃ device, lease ∈ l.leasesOf device := by
  simp only [leases, List.mem_flatMap, SortedTable.mem_values_iff]
  constructor
  · intro h
    obtain ⟨bucket, ⟨device, hlookup⟩, hmem⟩ := h
    exact ⟨device, by rwa [leasesOf_of_lookup hlookup]⟩
  · intro h
    obtain ⟨device, hmem⟩ := h
    cases hlookup : l.devices.lookup device with
    | none =>
        rw [leasesOf, hlookup] at hmem
        cases hmem
    | some bucket => exact ⟨bucket, ⟨device, hlookup⟩, by rwa [leasesOf_of_lookup hlookup] at hmem⟩

theorem countP_leases (l : DeviceLimiter) (kind : DeviceLease → Bool) :
    l.leases.countP kind = l.leaseCount kind := by
  rw [leases, List.countP_flatMap]
  rfl

theorem length_leases (l : DeviceLimiter) : l.leases.length = l.live := by
  rw [leases, List.length_flatMap]
  rfl

/-- All leases are shared, or there is only one and it is exclusive. -/
def SharedOrAlone (leases : List DeviceLease) : Prop :=
  (∀ lease ∈ leases, lease.mode = .shared) ∨
    ∃ lease, leases = [lease] ∧ lease.mode = .exclusive

/-- What holds of every limiter, when so many leases were dropped with their devices. -/
structure Consistent (l : DeviceLimiter) (dropped : Nat) : Prop where
  modes : ∀ device, SharedOrAlone (l.leasesOf device)
  distinct : (l.leases.map (·.id)).Nodup
  passed : ∀ device, ∀ lease ∈ l.leasesOf device, lease.id < l.nextLeaseId
  conserved : l.stats.leasesGranted =
    l.stats.leasesReleased + l.stats.leasesExpired + l.leases.length + dropped

theorem consistent_init (config : DeviceLimiterConfig) : (create config).Consistent 0 where
  modes := fun _ => .inl nofun
  distinct := .nil
  passed := fun _ => nofun
  conserved := rfl

/-- The identifiers are distinct when each is counted at most once. -/
theorem distinct_iff {l : DeviceLimiter} :
    (l.leases.map (·.id)).Nodup ↔ ∀ leaseId, l.leaseCount (·.id = leaseId) ≤ 1 := by
  rw [List.nodup_iff_count_le_one]
  refine forall_congr' fun leaseId => ?_
  rw [List.count, List.countP_map, ← countP_leases]
  exact Iff.of_eq (congrArg (· ≤ 1) (List.countP_congr fun lease _ => by simp))

/-- Fewer leases are still shared, or alone. -/
theorem SharedOrAlone.filter {leases : List DeviceLease} (h : SharedOrAlone leases)
    (keep : DeviceLease → Bool) : SharedOrAlone (leases.filter keep) := by
  rcases h with hshared | ⟨lease, rfl, hexclusive⟩
  · exact .inl fun lease hmem => hshared lease (List.mem_of_mem_filter hmem)
  · cases hkeep : keep lease with
    | true => exact .inr ⟨lease, by simp [hkeep], hexclusive⟩
    | false => exact .inl (by simp [hkeep])

/-! ## Changes -/

/-- A limiter with the same leases is as consistent. -/
theorem Consistent.same {l l' : DeviceLimiter} {dropped : Nat} (h : l.Consistent dropped)
    (hsame : SameLeases l l') : l'.Consistent dropped := by
  refine ⟨fun device => ?_, distinct_iff.mpr fun leaseId => ?_, fun device => ?_, ?_⟩
  · rw [hsame.leases]
    exact h.modes device
  · rw [hsame.count]
    exact distinct_iff.mp h.distinct leaseId
  · rw [hsame.leases, hsame.nextLeaseId]
    exact h.passed device
  · rw [hsame.granted, hsame.released, hsame.expired, length_leases, hsame.live, ← length_leases]
    exact h.conserved

/-- Expiry keeps the limiter consistent. -/
theorem Consistent.expire {l : DeviceLimiter} {dropped : Nat} (h : l.Consistent dropped)
    (nowNs : UInt64) : (l.expire nowNs).2.Consistent dropped := by
  refine ⟨fun device => ?_, distinct_iff.mpr fun leaseId => ?_, fun device lease hmem => ?_, ?_⟩
  · rw [leasesOf_expire]
    exact (h.modes device).filter _
  · exact Nat.le_trans (l.leaseCount_expire_le nowNs _) (distinct_iff.mp h.distinct leaseId)
  · rw [leasesOf_expire] at hmem
    exact h.passed device lease (List.mem_of_mem_filter hmem)
  · have hlive := l.live_expire nowNs
    have hconserved := h.conserved
    rw [length_leases] at hconserved ⊢
    show l.stats.leasesGranted = l.stats.leasesReleased +
      (l.stats.leasesExpired + (l.expire nowNs).1) + (l.expire nowNs).2.live + dropped
    omega

/-- No lease is of a kind that none on any device is of. -/
theorem leaseCount_eq_zero {l : DeviceLimiter} {kind : DeviceLease → Bool}
    (h : ∀ device, ∀ lease ∈ l.leasesOf device, kind lease = false) : l.leaseCount kind = 0 := by
  rw [← countP_leases, List.countP_eq_zero]
  intro lease hmem
  obtain ⟨device, hmem⟩ := mem_leases_iff.mp hmem
  simp [h device lease hmem]

/-- A grant keeps the limiter consistent, as long as the counter does not wrap. -/
theorem Consistent.granted {l l' : DeviceLimiter} {request : DeviceLeaseRequest}
    {lease : DeviceLease} {dropped : Nat} (h : l.Consistent dropped)
    (hgranted : Granted l l' request lease) (hwrap : l.nextLeaseId < l'.nextLeaseId) :
    l'.Consistent dropped := by
  have hid : lease.id = l.nextLeaseId := by rw [hgranted.fields]
  have hmode : lease.mode = request.mode := by rw [hgranted.fields]
  refine ⟨fun device => ?_, distinct_iff.mpr fun leaseId => ?_, fun device held hmem => ?_, ?_⟩
  · rw [hgranted.leases]
    split_ifs with hdevice
    · cases hrequested : request.mode with
      | shared =>
          refine .inl fun held hmem => ?_
          rcases List.mem_append.mp hmem with hold | hnew
          · exact hgranted.shared held (hdevice ▸ hold)
          · rw [List.mem_singleton.mp hnew, hmode, hrequested]
      | exclusive =>
          refine .inr ⟨lease, ?_, hmode.trans hrequested⟩
          rw [hdevice, hgranted.alone hrequested, List.nil_append]
    · exact h.modes device
  · rw [hgranted.count]
    split_ifs with hsame
    · -- the identifier was not in use
      have hfresh : l.leaseCount (·.id = leaseId) = 0 := by
        refine leaseCount_eq_zero fun device held hmem => decide_eq_false fun heq => ?_
        have hpassed := h.passed device held hmem
        rw [heq, ← of_decide_eq_true hsame, hid] at hpassed
        exact UInt64.lt_irrefl _ hpassed
      omega
    · exact distinct_iff.mp h.distinct leaseId
  · rw [hgranted.leases] at hmem
    split_ifs at hmem with hdevice
    · rcases List.mem_append.mp hmem with hold | hnew
      · exact UInt64.lt_trans (h.passed device held hold) hwrap
      · rw [List.mem_singleton.mp hnew, hid]
        exact hwrap
    · exact UInt64.lt_trans (h.passed device held hmem) hwrap
  · have hconserved := h.conserved
    rw [length_leases] at hconserved ⊢
    rw [hgranted.granted, hgranted.released, hgranted.expired, hgranted.live]
    omega

/-! ## Releases -/

theorem eraseLease_of_none {bucket : DeviceBucket} {leaseId : DeviceLeaseId}
    (h : ∀ lease ∈ bucket.leases, lease.id ≠ leaseId) : bucket.eraseLease leaseId = bucket := by
  rw [DeviceBucket.eraseLease, List.filter_eq_self.mpr fun lease hmem =>
    decide_eq_true (h lease hmem)]

/-- Leases of two devices have different identifiers. -/
theorem ne_of_holders {l : DeviceLimiter} (h : (l.leases.map (·.id)).Nodup)
    {device device' : DeviceId} {bucket bucket' : DeviceBucket} (hne : device' ≠ device)
    (hbucket : l.devices.lookup device = some bucket)
    (hbucket' : l.devices.lookup device' = some bucket') {lease lease' : DeviceLease}
    (hmem : lease ∈ bucket.leases) (hmem' : lease' ∈ bucket'.leases) : lease'.id ≠ lease.id := by
  intro hid
  have hcount := distinct_iff.mp h lease.id
  have hrest : (l.devices.erase device).lookup device' = some bucket' := by
    rw [SortedTable.lookup_erase, if_neg hne, hbucket']
  rw [leaseCount, SortedTable.total_of_lookup hbucket, SortedTable.total_of_lookup hrest] at hcount
  have hone : 0 < bucket.leases.countP (·.id = lease.id) :=
    List.countP_pos_iff.mpr ⟨lease, hmem, decide_eq_true rfl⟩
  have hother : 0 < bucket'.leases.countP (·.id = lease.id) :=
    List.countP_pos_iff.mpr ⟨lease', hmem', decide_eq_true hid⟩
  omega

/-- A release takes the lease out of whatever bucket holds it. -/
theorem lookup_release {l : DeviceLimiter} (h : (l.leases.map (·.id)).Nodup)
    (leaseId : DeviceLeaseId) (device : DeviceId) :
    (l.release leaseId).2.devices.lookup device =
      (l.devices.lookup device).map (·.eraseLease leaseId) := by
  rcases l.release_cases leaseId with ⟨hnone, habsent⟩ | ⟨holder, bucket, hbucket, hlease, hfound⟩
  · rw [hnone]
    cases hlookup : l.devices.lookup device with
    | none => rfl
    | some held =>
        rw [Option.map_some, eraseLease_of_none]
        exact leasesOf_of_lookup hlookup ▸ habsent device
  · obtain ⟨lease, hmem, hid⟩ := hlease
    rw [hfound]
    show (l.devices.insert holder _).lookup device = _
    rw [SortedTable.lookup_insert]
    split_ifs with hdevice
    · rw [hdevice, hbucket, Option.map_some]
    · cases hlookup : l.devices.lookup device with
      | none => rfl
      | some held =>
          rw [Option.map_some, eraseLease_of_none]
          exact fun other hother => hid ▸ ne_of_holders h hdevice hbucket hlookup hmem hother

/-- A release takes the lease from its device, and leaves all others. -/
theorem leasesOf_release {l : DeviceLimiter} (h : (l.leases.map (·.id)).Nodup)
    (leaseId : DeviceLeaseId) (device : DeviceId) :
    (l.release leaseId).2.leasesOf device =
      (l.leasesOf device).filter (·.id ≠ leaseId) := by
  rw [leasesOf, lookup_release h]
  unfold leasesOf
  cases l.devices.lookup device <;> rfl

/-- A release succeeds for the live leases. -/
theorem release_iff (l : DeviceLimiter) (leaseId : DeviceLeaseId) :
    (l.release leaseId).1 = true ↔ ∃ lease ∈ l.leases, lease.id = leaseId := by
  rcases l.release_cases leaseId with ⟨hnone, habsent⟩ | ⟨device, bucket, hbucket, hlease, hfound⟩
  · rw [hnone]
    refine iff_of_false nofun fun hlease => ?_
    obtain ⟨lease, hmem, hid⟩ := hlease
    obtain ⟨device, hmem⟩ := mem_leases_iff.mp hmem
    exact habsent device lease hmem hid
  · rw [hfound]
    obtain ⟨lease, hmem, hid⟩ := hlease
    refine iff_of_true rfl ⟨lease, mem_leases_iff.mpr ⟨device, ?_⟩, hid⟩
    rwa [leasesOf_of_lookup hbucket]

/-- Without the one lease of the identifier there is one lease less. -/
theorem length_eraseLease {l : DeviceLimiter} (h : (l.leases.map (·.id)).Nodup)
    {device : DeviceId} {bucket : DeviceBucket} {leaseId : DeviceLeaseId}
    (hbucket : l.devices.lookup device = some bucket)
    (hlease : ∃ lease ∈ bucket.leases, lease.id = leaseId) :
    (bucket.eraseLease leaseId).leases.length + 1 = bucket.leases.length := by
  obtain ⟨lease, hmem, hid⟩ := hlease
  have hcount := distinct_iff.mp h leaseId
  rw [leaseCount, SortedTable.total_of_lookup hbucket] at hcount
  have hone : 0 < bucket.leases.countP (·.id = leaseId) :=
    List.countP_pos_iff.mpr ⟨lease, hmem, decide_eq_true hid⟩
  have hsplit := bucket.leases.length_eq_countP_add_countP fun lease =>
    decide (lease.id = leaseId)
  have herased : (bucket.eraseLease leaseId).leases.length =
      bucket.leases.countP (fun lease => decide ¬(decide (lease.id = leaseId)) = true) := by
    rw [List.countP_eq_length_filter, DeviceBucket.eraseLease]
    simp
  omega

/-- A release keeps the limiter consistent. -/
theorem Consistent.release {l : DeviceLimiter} {dropped : Nat} (h : l.Consistent dropped)
    (leaseId : DeviceLeaseId) : (l.release leaseId).2.Consistent dropped := by
  have hleases := leasesOf_release h.distinct leaseId
  have hnext : (l.release leaseId).2.nextLeaseId = l.nextLeaseId := by
    rcases l.release_cases leaseId with ⟨hnone, -⟩ | ⟨_, _, -, -, hfound⟩
    · rw [hnone]
    · rw [hfound]
  refine ⟨fun device => ?_, ?_, fun device lease hmem => ?_, ?_⟩
  · rw [hleases]
    exact (h.modes device).filter _
  · rcases l.release_cases leaseId with ⟨hnone, -⟩ | ⟨device, bucket, hbucket, -, hfound⟩
    · rw [hnone]
      exact h.distinct
    · refine distinct_iff.mpr fun other => Nat.le_trans ?_ (distinct_iff.mp h.distinct other)
      have htotal := l.devices.total_insert device (bucket.eraseLease leaseId) fun bucket =>
        bucket.leases.countP (·.id = other)
      have hle : (bucket.eraseLease leaseId).leases.countP (·.id = other) ≤
          bucket.leases.countP (·.id = other) := List.filter_sublist.countP_le
      rw [hbucket, Option.elim_some] at htotal
      rw [hfound]
      show (l.devices.insert device (bucket.eraseLease leaseId)).total _ ≤ l.devices.total _
      omega
  · rw [hleases] at hmem
    rw [hnext]
    exact h.passed device lease (List.mem_of_mem_filter hmem)
  · have hconserved := h.conserved
    rcases l.release_cases leaseId with ⟨hnone, -⟩ | ⟨device, bucket, hbucket, hlease, hfound⟩
    · rw [hnone]
      exact hconserved
    · have hlength := length_eraseLease h.distinct hbucket hlease
      have htotal := l.devices.total_insert device (bucket.eraseLease leaseId) fun bucket =>
        bucket.leases.length
      rw [hbucket, Option.elim_some] at htotal
      rw [length_leases, live] at hconserved ⊢
      rw [hfound]
      show l.stats.leasesGranted = l.stats.leasesReleased + 1 + l.stats.leasesExpired +
        (l.devices.insert device (bucket.eraseLease leaseId)).total _ + dropped
      omega

/-! ## Devices that are removed -/

/-- Unregistering a device drops its leases. -/
theorem Consistent.unregister {l : DeviceLimiter} {dropped : Nat} (h : l.Consistent dropped)
    (device : DeviceId) :
    (l.unregisterDevice device).Consistent (dropped + (l.leasesOf device).length) := by
  have hleases : ∀ other, (l.unregisterDevice device).leasesOf other =
      if other = device then [] else l.leasesOf other := by
    intro other
    show ((l.devices.erase device).lookup other).elim [] (·.leases) = _
    rw [SortedTable.lookup_erase]
    split_ifs <;> rfl
  refine ⟨fun other => ?_, distinct_iff.mpr fun leaseId => ?_, fun other lease hmem => ?_, ?_⟩
  · rw [hleases]
    split_ifs
    · exact .inl fun lease hmem => by cases hmem
    · exact h.modes other
  · have htotal := l.devices.total_erase device fun bucket =>
      bucket.leases.countP (·.id = leaseId)
    have hcount := distinct_iff.mp h.distinct leaseId
    unfold leaseCount at hcount
    show (l.devices.erase device).total _ ≤ 1
    omega
  · rw [hleases] at hmem
    split_ifs at hmem
    · cases hmem
    · exact h.passed other lease hmem
  · have htotal := l.devices.total_erase device fun bucket => bucket.leases.length
    have hlength : (l.leasesOf device).length =
        (l.devices.lookup device).elim 0 (fun bucket => bucket.leases.length) := by
      unfold leasesOf
      cases l.devices.lookup device <;> rfl
    have hconserved := h.conserved
    rw [length_leases, live] at hconserved ⊢
    show l.stats.leasesGranted = l.stats.leasesReleased + l.stats.leasesExpired +
      (l.devices.erase device).total _ + (dropped + (l.leasesOf device).length)
    omega

theorem consistent_reset (l : DeviceLimiter) : l.reset.Consistent 0 where
  modes := fun _ => .inl nofun
  distinct := .nil
  passed := fun _ => nofun
  conserved := rfl

/-! ## Runs -/

/-- The leases dropped with their devices since the last reset, after a call. -/
def droppedAfter (l : DeviceLimiter) (dropped : Nat) : LimiterOp → Nat
  | .unregisterDevice device => dropped + (l.leasesOf device).length
  | .reset => 0
  | _ => dropped

/-- A call, with the number of leases dropped. -/
def dropStep (state : DeviceLimiter × Nat) (op : LimiterOp) : DeviceLimiter × Nat :=
  (state.1.step op, state.1.droppedAfter state.2 op)

/-- The counter of lease identifiers does not wrap in a call; a reset starts it anew. -/
def CounterKept (state : DeviceLimiter × Nat) (op : LimiterOp) : Prop :=
  op = .reset ∨ state.1.nextLeaseId ≤ (state.1.step op).nextLeaseId

/-- An operation keeps the limiter consistent, as long as the counter does not wrap. -/
theorem Consistent.step {state : DeviceLimiter × Nat} (h : state.1.Consistent state.2)
    {op : LimiterOp} (hwrap : CounterKept state op) :
    (dropStep state op).1.Consistent (dropStep state op).2 := by
  obtain ⟨l, dropped⟩ := state
  -- the counter stands where it stood before the call or where the call leaves it
  have hrule : op ≠ .reset → (∀ device, op ≠ .unregisterDevice device) →
      (l.step op).Consistent dropped := by
    intro hreset hunregister
    have hkept := hwrap.resolve_left hreset
    refine (step_rule (fun l' => l'.Consistent dropped ∧
      (l'.nextLeaseId = l.nextLeaseId ∨ l'.nextLeaseId = (l.step op).nextLeaseId))
      ⟨h, .inl rfl⟩ ?_ ?_ ?_ ?_ ?_ ?_).1
    · intro current current' hcurrent hsame
      exact ⟨hcurrent.1.same hsame, hsame.nextLeaseId ▸ hcurrent.2⟩
    · intro current nowNs _ hcurrent
      exact ⟨hcurrent.1.expire nowNs, hcurrent.2⟩
    · intro current request lease _ hcurrent hgranted
      refine ⟨hcurrent.1.granted hgranted ?_, .inr rfl⟩
      have hnext := hgranted.nextLeaseId
      rcases hcurrent.2 with hbefore | hafter <;> grind
    · intro leaseId hop
      subst hop
      exact ⟨h.release leaseId, .inr rfl⟩
    · intro device hop
      exact absurd hop (hunregister device)
    · intro hop
      exact absurd hop hreset
  cases op with
  | unregisterDevice device => exact h.unregister device
  | reset => exact l.consistent_reset
  | registerDevice | setLimit | acquire | release | expire | check | consume =>
      exact hrule nofun nofun

/-- In every run in which the counter of lease identifiers does not wrap, the limiter is
consistent; and a release succeeds for the live leases and takes out the one it names. -/
theorem leases_consistent (config : DeviceLimiterConfig) (ops : List LimiterOp)
    (hwrap : Along dropStep CounterKept (create config, 0) ops) :
    let state := run dropStep (create config, 0) ops
    state.1.Consistent state.2 ∧
      ∀ leaseId,
        ((state.1.release leaseId).1 = true ↔ ∃ lease ∈ state.1.leases, lease.id = leaseId) ∧
        ∀ device, (state.1.release leaseId).2.devices.lookup device =
          (state.1.devices.lookup device).map (·.eraseLease leaseId) := by
  intro state
  have hstate : state.1.Consistent state.2 :=
    run_invariant_along (fun (state : DeviceLimiter × Nat) op
      (h : state.1.Consistent state.2) hkept => h.step hkept) (consistent_init config) hwrap
  exact ⟨hstate, fun leaseId =>
    ⟨state.1.release_iff leaseId, lookup_release hstate.distinct leaseId⟩⟩

instance (state : DeviceLimiter × Nat) (op : LimiterOp) : Decidable (CounterKept state op) :=
  inferInstanceAs (Decidable (_ ∨ _))

/-- An exclusive lease that is released, two shared ones behind it, and a device that is removed
with its lease. -/
theorem leases_consistent_mixed :
    let ops : List LimiterOp := [.acquire { device := 7, nowNs := 10 }, .release 1,
      .acquire { device := 7, mode := .shared, nowNs := 20 },
      .acquire { device := 7, mode := .shared, nowNs := 30, ttlNs := 5 },
      .acquire { device := 8, nowNs := 30 }, .unregisterDevice 8, .expire 35]
    let state := run dropStep (create {}, 0) ops
    state.1.Consistent state.2 := by
  intro ops
  exact (leases_consistent {} ops (by decide +kernel)).1

end DeviceLimiter

end Aethon.Control
