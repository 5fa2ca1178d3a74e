import Aethon.Runtime.IngestCapacity

/-!
# Device bookkeeping

The device table is kept by increments, and by a rebuild when a removed envelope attains one of its
device's maxima. The rebuild scans the queue before the removed envelope has left it, so it counts
that envelope again. `devices_exact_iff` says that the table describes the queue in all states of a
run exactly when no removal of the run triggers such a rebuild.
-/

namespace Aethon.Runtime

open Protocol Runs

/-! ## What the table should say -/

/-- The queued envelopes of a device. -/
def envelopesOf (device : DeviceId) (queue : List IngestEnvelope) : List IngestEnvelope :=
  queue.filter fun envelope => envelope.packet.device = device

/-- Count, payload sum and maxima of some envelopes, the maxima together with the default values. -/
def summarise (envelopes : List IngestEnvelope) : DeviceState where
  queuedPackets := envelopes.length
  queuedPayloadBytes := payloadSum envelopes
  newestSequence := (envelopes.map fun envelope => envelope.packet.sequence.toNat).foldl max 0
  lastArrivalTimeNs := (envelopes.map IngestEnvelope.arrivalTimeNs).foldl max 0
  highestPriority := (envelopes.map IngestEnvelope.priority).foldl
    (fun highest priority => if priority.rank > highest.rank then priority else highest) .low

/-- `devices()` lists each device with a queued envelope once, with the summary of its envelopes. -/
def DevicesExact (q : IngestQueue) : Prop :=
  (q.deviceSnapshots.map IngestDeviceSnapshot.device).Nodup ∧
    ∀ snapshot, snapshot ∈ q.deviceSnapshots ↔
      envelopesOf snapshot.device q.queue ≠ [] ∧
        snapshot = (summarise (envelopesOf snapshot.device q.queue)).snapshot snapshot.device

/-- Another envelope of the device has a higher priority, another one a later sequence number and
another one a later arrival. -/
def Surpassed (envelopes : List IngestEnvelope) (envelope : IngestEnvelope) : Prop :=
  (∃ other ∈ envelopes, envelope.priority.rank < other.priority.rank) ∧
    (∃ other ∈ envelopes, envelope.packet.sequence < other.packet.sequence) ∧
    ∃ other ∈ envelopes, envelope.arrivalTimeNs < other.arrivalTimeNs

/-- The removal of the envelope triggers no rebuild: it is the only one of its device, or it is
surpassed in each of the three maxima. -/
def Unremarkable (queue : List IngestEnvelope) (envelope : IngestEnvelope) : Prop :=
  (envelopesOf envelope.packet.device queue).length = 1 ∨
    Surpassed (envelopesOf envelope.packet.device queue) envelope

/-- Every removal of the operation is unremarkable. -/
def RemovalsUnremarkable (q : IngestQueue) (op : IngestOp) : Prop :=
  ∀ removal ∈ q.removals op, Unremarkable removal.1 removal.2

/-! ## Summaries -/

/-- The higher of two priorities does not depend on the order they come in. -/
theorem higher_priority_comm (highest first second : IngestPriority) :
    (if second.rank > (if first.rank > highest.rank then first else highest).rank then second
      else if first.rank > highest.rank then first else highest) =
    (if first.rank > (if second.rank > highest.rank then second else highest).rank then first
      else if second.rank > highest.rank then second else highest) := by
  cases highest <;> cases first <;> cases second <;> rfl

/-- The order in which two envelopes are added does not matter. -/
instance : RightCommutative DeviceState.add where
  right_comm state first second := by
    simp only [DeviceState.add, DeviceState.mk.injEq]
    exact ⟨trivial, by omega, by omega, by omega, higher_priority_comm ..⟩

/-- The summary is what adding the envelopes one after another gives. -/
theorem foldl_add (state : DeviceState) (envelopes : List IngestEnvelope) :
    envelopes.foldl DeviceState.add state = {
      queuedPackets := state.queuedPackets + envelopes.length
      queuedPayloadBytes := state.queuedPayloadBytes + payloadSum envelopes
      newestSequence := (envelopes.map fun envelope => envelope.packet.sequence.toNat).foldl max
        state.newestSequence
      lastArrivalTimeNs := (envelopes.map IngestEnvelope.arrivalTimeNs).foldl max
        state.lastArrivalTimeNs
      highestPriority := (envelopes.map IngestEnvelope.priority).foldl
        (fun highest priority => if priority.rank > highest.rank then priority else highest)
        state.highestPriority } := by
  induction envelopes generalizing state with
  | nil => rfl
  | cons envelope envelopes ih =>
      rw [List.foldl_cons, ih]
      simp only [DeviceState.add, List.map_cons, List.foldl_cons, List.length_cons,
        payload_sum_cons, DeviceState.mk.injEq, and_true]
      omega

theorem summarise_eq_foldl (envelopes : List IngestEnvelope) :
    summarise envelopes = envelopes.foldl DeviceState.add {} := by
  rw [foldl_add]
  simp only [summarise, Nat.zero_add]

theorem summarise_perm {first second : List IngestEnvelope} (h : first.Perm second) :
    summarise first = summarise second := by
  rw [summarise_eq_foldl, summarise_eq_foldl]
  exact h.foldl_eq _

theorem summarise_append_singleton (envelopes : List IngestEnvelope) (envelope : IngestEnvelope) :
    summarise (envelopes ++ [envelope]) = (summarise envelopes).add envelope := by
  rw [summarise_eq_foldl, summarise_eq_foldl, List.foldl_append]
  rfl

theorem summarise_cons (envelope : IngestEnvelope) (envelopes : List IngestEnvelope) :
    summarise (envelope :: envelopes) = (summarise envelopes).add envelope := by
  rw [← summarise_append_singleton]
  exact summarise_perm (List.perm_append_singleton envelope envelopes).symm

/-- The higher of two priorities has the larger rank. -/
theorem rank_higher (highest priority : IngestPriority) :
    (if priority.rank > highest.rank then priority else highest).rank =
      max highest.rank priority.rank := by
  split
  · omega
  · omega

/-- A value is below a maximum of the summary exactly when it is below that of some envelope. -/
theorem lt_summarise_iff (n : Nat) (envelopes : List IngestEnvelope) :
    (n < (summarise envelopes).newestSequence ↔
        ∃ envelope ∈ envelopes, n < envelope.packet.sequence.toNat) ∧
      (n < (summarise envelopes).lastArrivalTimeNs ↔
        ∃ envelope ∈ envelopes, n < envelope.arrivalTimeNs) ∧
      (n < (summarise envelopes).highestPriority.rank ↔
        ∃ envelope ∈ envelopes, n < envelope.priority.rank) := by
  induction envelopes with
  | nil => simp [summarise, IngestPriority.rank]
  | cons envelope envelopes ih =>
      obtain ⟨hnewest, hlast, hhighest⟩ := ih
      rw [summarise_cons]
      simp only [DeviceState.add, rank_higher, List.mem_cons, exists_eq_or_imp, ← hnewest, ← hlast,
        ← hhighest]
      omega

theorem rank_inj {first second : IngestPriority} : first.rank = second.rank ↔ first = second := by
  cases first <;> cases second <;> decide

/-- An envelope among others attains none of their maxima exactly when it is surpassed in each. -/
theorem attains_none_iff {envelopes : List IngestEnvelope} {envelope : IngestEnvelope}
    (h : envelope ∈ envelopes) :
    ¬ ((summarise envelopes).highestPriority = envelope.priority ∨
        (summarise envelopes).newestSequence = envelope.packet.sequence.toNat ∨
        (summarise envelopes).lastArrivalTimeNs = envelope.arrivalTimeNs) ↔
      Surpassed envelopes envelope := by
  -- no envelope is above a maximum
  have hnewest := (lt_summarise_iff (summarise envelopes).newestSequence envelopes).1
  have hlast := (lt_summarise_iff (summarise envelopes).lastArrivalTimeNs envelopes).2.1
  have hhighest := (lt_summarise_iff (summarise envelopes).highestPriority.rank envelopes).2.2
  simp only [Nat.lt_irrefl, false_iff, not_exists, not_and, Nat.not_lt] at hnewest hlast hhighest
  have hnewestLe := hnewest envelope h
  have hlastLe := hlast envelope h
  have hhighestLe := hhighest envelope h
  simp only [Surpassed, UInt32.lt_iff_toNat_lt, ← (lt_summarise_iff _ envelopes).1,
    ← (lt_summarise_iff _ envelopes).2.1, ← (lt_summarise_iff _ envelopes).2.2, ← rank_inj]
  omega

/-- Taking an envelope off again that attains no maximum of the sum gives back what it was added
to. -/
theorem subtract_add {state : DeviceState} {envelope : IngestEnvelope}
    (h : ¬ ((state.add envelope).highestPriority = envelope.priority ∨
      (state.add envelope).newestSequence = envelope.packet.sequence.toNat ∨
      (state.add envelope).lastArrivalTimeNs = envelope.arrivalTimeNs)) :
    { state.add envelope with
      queuedPackets := (state.add envelope).queuedPackets - 1
      queuedPayloadBytes := (state.add envelope).queuedPayloadBytes - envelope.payloadSize } =
        state := by
  rw [not_or, not_or] at h
  obtain ⟨hpriority, hsequence, harrival⟩ := h
  have hnewest :
      max state.newestSequence envelope.packet.sequence.toNat = state.newestSequence := by
    have hne : max state.newestSequence envelope.packet.sequence.toNat ≠
      envelope.packet.sequence.toNat := hsequence
    omega
  have hlast : max state.lastArrivalTimeNs envelope.arrivalTimeNs = state.lastArrivalTimeNs := by
    have hne : max state.lastArrivalTimeNs envelope.arrivalTimeNs ≠ envelope.arrivalTimeNs :=
      harrival
    omega
  have hhighest : (state.add envelope).highestPriority = state.highestPriority := by
    by_cases hrank : envelope.priority.rank > state.highestPriority.rank
    · exact absurd (if_pos hrank) hpriority
    · exact if_neg hrank
  simp only [hhighest]
  simp only [DeviceState.add, hnewest, hlast, Nat.add_sub_cancel]

/-! ## The table -/

/-- What the table should hold for a device. -/
def expectedState (queue : List IngestEnvelope) (device : DeviceId) : Option DeviceState :=
  if envelopesOf device queue = [] then none else some (summarise (envelopesOf device queue))

/-- The table describes the queue. -/
def TableExact (devices : DeviceTable) (queue : List IngestEnvelope) : Prop :=
  ∀ device : DeviceId, devices[device]? = expectedState queue device

/-- The table counts more envelopes of some device than the queue holds. -/
def TableDrifted (devices : DeviceTable) (queue : List IngestEnvelope) : Prop :=
  ∃ device state, devices[device]? = some state ∧
    (envelopesOf device queue).length < state.queuedPackets

/-- A table that counts too many envelopes does not describe the queue. -/
theorem TableDrifted.not_exact {devices : DeviceTable} {queue : List IngestEnvelope}
    (h : TableDrifted devices queue) : ¬ TableExact devices queue := by
  intro hexact
  obtain ⟨device, state, hstate, hlt⟩ := h
  have hexpected := (hexact device).symm.trans hstate
  unfold expectedState at hexpected
  split at hexpected
  · cases hexpected
  · cases hexpected
    exact absurd hlt (Nat.lt_irrefl _)

/-- The envelopes of a device behind an added one. -/
theorem envelopesOf_append_singleton (device : DeviceId) (queue : List IngestEnvelope)
    (envelope : IngestEnvelope) :
    envelopesOf device (queue ++ [envelope]) = if envelope.packet.device = device then
      envelopesOf device queue ++ [envelope] else envelopesOf device queue := by
  unfold envelopesOf
  rw [List.filter_append, List.filter_singleton]
  split
  · simp_all
  · simp_all

/-- The envelopes of a device around a removed one, up to their order. -/
theorem envelopesOf_eraseIdx {queue : List IngestEnvelope} {position : Nat}
    {envelope : IngestEnvelope} (h : queue[position]? = some envelope) (device : DeviceId) :
    (envelopesOf device queue).Perm (if envelope.packet.device = device then
      envelope :: envelopesOf device (queue.eraseIdx position)
      else envelopesOf device (queue.eraseIdx position)) := by
  have hperm := (perm_of_getElem? h).filter fun other => other.packet.device = device
  unfold envelopesOf
  rw [List.filter_cons] at hperm
  simpa using hperm

section Lookup

variable (devices : DeviceTable) (queue : List IngestEnvelope) (envelope : IngestEnvelope)

theorem getElem?_add_same :
    (addDeviceState devices envelope)[envelope.packet.device]? =
      some ((devices[envelope.packet.device]?.getD {}).add envelope) := by
  rw [addDeviceState, Std.ExtTreeMap.getElem?_insert_self, Std.ExtTreeMap.getD_eq_getD_getElem?]

theorem getElem?_add_other {device : DeviceId} (h : envelope.packet.device ≠ device) :
    (addDeviceState devices envelope)[device]? = devices[device]? := by
  rw [addDeviceState, Std.ExtTreeMap.getElem?_insert, if_neg (by simpa using h)]

/-- The rebuild of a device with queued envelopes stores their summary. -/
theorem rebuild_of_queued {device : DeviceId} (h : envelopesOf device queue ≠ []) :
    rebuildDeviceState devices queue device =
      devices.insert device (summarise (envelopesOf device queue)) := by
  have hfold : queue.foldl (fun state envelope =>
      if envelope.packet.device ≠ device then state else state.add envelope) {} =
        summarise (envelopesOf device queue) := by
    rw [summarise_eq_foldl, envelopesOf, List.foldl_filter]
    congr 1
    funext state other
    by_cases hsame : other.packet.device = device <;> simp [hsame]
  have hcount : (summarise (envelopesOf device queue)).queuedPackets ≠ 0 := by
    show (envelopesOf device queue).length ≠ 0
    exact fun hzero => h (List.length_eq_zero_iff.mp hzero)
  simp only [rebuildDeviceState, hfold, hcount, if_false]

/-- A removal leaves the states of other devices alone. -/
theorem getElem?_subtract_other {device : DeviceId} (h : envelope.packet.device ≠ device) :
    (subtractDeviceState devices queue envelope)[device]? = devices[device]? := by
  have hkey : ¬ compare envelope.packet.device device = .eq := by simpa using h
  unfold subtractDeviceState rebuildDeviceState
  split
  · rfl
  · dsimp only
    split_ifs <;>
      simp only [Std.ExtTreeMap.getElem?_insert, Std.ExtTreeMap.getElem?_erase, hkey, if_false]

end Lookup

/-- Adding an envelope to table and queue keeps the table exact. -/
theorem TableExact.add {devices : DeviceTable} {queue : List IngestEnvelope}
    (h : TableExact devices queue) (envelope : IngestEnvelope) :
    TableExact (addDeviceState devices envelope) (queue ++ [envelope]) := by
  intro device
  rw [expectedState, envelopesOf_append_singleton]
  by_cases hsame : envelope.packet.device = device
  · subst hsame
    have hstate : devices[envelope.packet.device]?.getD {} =
        summarise (envelopesOf envelope.packet.device queue) := by
      rw [h envelope.packet.device, expectedState]
      split
      · rename_i hnone
        rw [hnone]
        rfl
      · rfl
    rw [getElem?_add_same, hstate, if_pos rfl, if_neg (by simp), summarise_append_singleton]
  · rw [getElem?_add_other _ _ hsame, if_neg hsame]
    exact h device

/-- Adding an envelope counts it on both sides. -/
theorem TableDrifted.add {devices : DeviceTable} {queue : List IngestEnvelope}
    (h : TableDrifted devices queue) (envelope : IngestEnvelope) :
    TableDrifted (addDeviceState devices envelope) (queue ++ [envelope]) := by
  obtain ⟨device, state, hstate, hlt⟩ := h
  by_cases hsame : envelope.packet.device = device
  · subst hsame
    refine ⟨_, _, getElem?_add_same devices envelope, ?_⟩
    rw [hstate, Option.getD_some, envelopesOf_append_singleton, if_pos rfl, List.length_append]
    exact Nat.succ_lt_succ hlt
  · refine ⟨device, state, (getElem?_add_other devices envelope hsame).trans hstate, ?_⟩
    rw [envelopesOf_append_singleton, if_neg hsame]
    exact hlt

/-- The expected state depends on the queue up to its order. -/
theorem expectedState_of_perm {first second : List IngestEnvelope} {device : DeviceId}
    (h : (envelopesOf device first).Perm (envelopesOf device second)) :
    expectedState first device = expectedState second device := by
  unfold expectedState
  rw [summarise_perm h]
  have hnil : envelopesOf device first = [] ↔ envelopesOf device second = [] := by
    rw [← List.length_eq_zero_iff, ← List.length_eq_zero_iff, h.length_eq]
  simp only [hnil]

/-- A removed envelope is one of its device's. -/
theorem mem_envelopesOf_of_getElem? {queue : List IngestEnvelope} {position : Nat}
    {envelope : IngestEnvelope} (h : queue[position]? = some envelope) :
    envelope ∈ envelopesOf envelope.packet.device queue :=
  List.mem_filter.mpr ⟨List.mem_of_getElem? h, decide_eq_true rfl⟩

/-- What a removal leaves of the state of its device. -/
theorem getElem?_subtract_same {devices : DeviceTable} {queue : List IngestEnvelope}
    {envelope : IngestEnvelope} {found : DeviceState}
    (hfound : devices[envelope.packet.device]? = some found)
    (hqueued : envelopesOf envelope.packet.device queue ≠ []) :
    (subtractDeviceState devices queue envelope)[envelope.packet.device]? =
      if found.queuedPackets - 1 = 0 then none
      else if found.highestPriority = envelope.priority
          ∨ found.newestSequence = envelope.packet.sequence.toNat
          ∨ found.lastArrivalTimeNs = envelope.arrivalTimeNs then
        some (summarise (envelopesOf envelope.packet.device queue))
      else some { found with
        queuedPackets := found.queuedPackets - 1
        queuedPayloadBytes := found.queuedPayloadBytes - envelope.payloadSize } := by
  simp only [subtractDeviceState, hfound, rebuild_of_queued _ _ hqueued]
  split_ifs
  · exact Std.ExtTreeMap.getElem?_erase_self
  · exact Std.ExtTreeMap.getElem?_insert_self
  · exact Std.ExtTreeMap.getElem?_insert_self

/-- An unremarkable removal keeps the table exact, any other one makes it drift. -/
theorem TableExact.remove {devices : DeviceTable} {queue : List IngestEnvelope} {position : Nat}
    {envelope : IngestEnvelope} (h : TableExact devices queue)
    (hposition : queue[position]? = some envelope) :
    (Unremarkable queue envelope →
        TableExact (subtractDeviceState devices queue envelope) (queue.eraseIdx position)) ∧
      (¬ Unremarkable queue envelope →
        TableDrifted (subtractDeviceState devices queue envelope) (queue.eraseIdx position)) := by
  have hmem := mem_envelopesOf_of_getElem? hposition
  have hqueued : envelopesOf envelope.packet.device queue ≠ [] := List.ne_nil_of_mem hmem
  have hfound := h envelope.packet.device
  rw [expectedState, if_neg hqueued] at hfound
  have hafter := getElem?_subtract_same hfound hqueued
  have hperm := envelopesOf_eraseIdx hposition
  have hsplit := hperm envelope.packet.device
  rw [if_pos rfl] at hsplit
  have hcount := hsplit.length_eq
  rw [List.length_cons] at hcount
  have hpackets : (summarise (envelopesOf envelope.packet.device queue)).queuedPackets =
      (envelopesOf envelope.packet.device queue).length := rfl
  constructor
  · intro hunremarkable device
    by_cases hsame : envelope.packet.device = device
    · subst hsame
      rw [hafter, hpackets, hcount, Nat.add_sub_cancel, expectedState]
      by_cases hlast : envelopesOf envelope.packet.device (queue.eraseIdx position) = []
      · rw [if_pos hlast, if_pos (by rw [hlast]; rfl)]
      · have hmore := mt List.length_eq_zero_iff.mp hlast
        rw [if_neg hlast, if_neg hmore]
        -- company is left, so the removed envelope was surpassed in all three fields
        rcases hunremarkable with hone | hsurpassed
        · omega
        · have hkept := (attains_none_iff hmem).mpr hsurpassed
          rw [if_neg hkept]
          rw [summarise_perm hsplit, summarise_cons] at hkept ⊢
          exact congrArg some (subtract_add hkept)
    · have hother := hperm device
      rw [if_neg hsame] at hother
      rw [getElem?_subtract_other _ _ _ hsame, h device, expectedState_of_perm hother]
  · intro hremarkable
    -- the rebuild counts the removed envelope again
    have hattains : (summarise (envelopesOf envelope.packet.device queue)).highestPriority =
        envelope.priority ∨ (summarise (envelopesOf envelope.packet.device queue)).newestSequence =
        envelope.packet.sequence.toNat ∨
        (summarise (envelopesOf envelope.packet.device queue)).lastArrivalTimeNs =
        envelope.arrivalTimeNs := by
      by_contra hnone
      exact hremarkable (.inr ((attains_none_iff hmem).mp hnone))
    have hmore : (envelopesOf envelope.packet.device queue).length - 1 ≠ 0 := by
      intro hzero
      exact hremarkable (.inl (by omega))
    rw [hpackets, if_neg hmore, if_pos hattains] at hafter
    refine ⟨_, _, hafter, ?_⟩
    rw [hpackets]
    omega

/-- A removal takes at most one off both sides of a table that counts too many. -/
theorem TableDrifted.remove {devices : DeviceTable} {queue : List IngestEnvelope} {position : Nat}
    {envelope : IngestEnvelope} (h : TableDrifted devices queue)
    (hposition : queue[position]? = some envelope) :
    TableDrifted (subtractDeviceState devices queue envelope) (queue.eraseIdx position) := by
  obtain ⟨device, state, hstate, hlt⟩ := h
  have hsplit := envelopesOf_eraseIdx hposition device
  by_cases hsame : envelope.packet.device = device
  · subst hsame
    have hmem := mem_envelopesOf_of_getElem? hposition
    have hafter := getElem?_subtract_same hstate (List.ne_nil_of_mem hmem)
    rw [if_pos rfl] at hsplit
    have hcount := hsplit.length_eq
    rw [List.length_cons] at hcount
    -- more than one is counted, so the state stays
    rw [if_neg (by omega)] at hafter
    split_ifs at hafter
    · refine ⟨_, _, hafter, ?_⟩
      show _ < (envelopesOf envelope.packet.device queue).length
      omega
    · refine ⟨_, _, hafter, ?_⟩
      show _ < state.queuedPackets - 1
      omega
  · rw [if_neg hsame] at hsplit
    refine ⟨device, state, (getElem?_subtract_other _ _ _ hsame).trans hstate, ?_⟩
    rw [← hsplit.length_eq]
    exact hlt

/-! ## Snapshots -/

theorem snapshot_inj {first second : DeviceState} {device : DeviceId}
    (h : first.snapshot device = second.snapshot device) : first = second := by
  cases first
  cases second
  simpa [DeviceState.snapshot] using h

/-- The snapshots of a queue are the states of its table. -/
theorem mem_deviceSnapshots_iff {q : IngestQueue} {snapshot : IngestDeviceSnapshot} :
    snapshot ∈ q.deviceSnapshots ↔
      ∃ state, q.devices[snapshot.device]? = some state ∧
        snapshot = state.snapshot snapshot.device := by
  unfold IngestQueue.deviceSnapshots
  rw [List.mem_map]
  constructor
  · intro h
    obtain ⟨⟨device, state⟩, hmem, rfl⟩ := h
    exact ⟨state, Std.ExtTreeMap.mem_toList_iff_getElem?_eq_some.mp hmem, rfl⟩
  · intro h
    obtain ⟨state, hstate, hsnapshot⟩ := h
    exact ⟨(snapshot.device, state), Std.ExtTreeMap.mem_toList_iff_getElem?_eq_some.mpr hstate,
      hsnapshot.symm⟩

/-- Every device is listed once. -/
theorem nodup_deviceSnapshots (q : IngestQueue) :
    (q.deviceSnapshots.map IngestDeviceSnapshot.device).Nodup := by
  unfold IngestQueue.deviceSnapshots
  rw [List.map_map, List.nodup_iff_pairwise_ne, List.pairwise_map]
  refine Std.ExtTreeMap.distinct_keys_toList.imp ?_
  intro first second hdistinct hsame
  exact hdistinct (Std.LawfulEqCmp.compare_eq_iff_eq.mpr hsame)

/-- The snapshots are right exactly when the table describes the queue. -/
theorem devices_exact_iff_table {q : IngestQueue} :
    DevicesExact q ↔ TableExact q.devices q.queue := by
  constructor
  · intro h device
    have hlisted := fun state =>
      mem_deviceSnapshots_iff.symm.trans (h.2 (DeviceState.snapshot state device))
    unfold expectedState
    by_cases hnone : envelopesOf device q.queue = []
    · rw [if_pos hnone]
      cases hstate : q.devices[device]? with
      | none => rfl
      | some state => exact absurd hnone ((hlisted state).mp ⟨state, hstate, rfl⟩).1
    · rw [if_neg hnone]
      obtain ⟨state, hstate, hsnapshot⟩ :=
        (hlisted (summarise (envelopesOf device q.queue))).mpr ⟨hnone, rfl⟩
      rw [snapshot_inj hsnapshot]
      exact hstate
  · intro h
    refine ⟨nodup_deviceSnapshots q, fun snapshot => ?_⟩
    rw [mem_deviceSnapshots_iff, h snapshot.device, expectedState]
    split
    · rename_i hnone
      simp [hnone]
    · rename_i hsome
      simp [hsome]

/-! ## Runs -/

/-- Takings keep the table exact exactly as long as they are unremarkable. -/
theorem table_exact_iff_of_drains {q q' : IngestQueue}
    {removals : List (List IngestEnvelope × IngestEnvelope)}
    (hdrains : IngestQueue.Drains q removals q') :
    (TableExact q.devices q.queue → (TableExact q'.devices q'.queue ↔
        ∀ removal ∈ removals, Unremarkable removal.1 removal.2)) ∧
      (TableDrifted q.devices q.queue → TableDrifted q'.devices q'.queue) := by
  induction hdrains with
  | refl q => exact ⟨fun h => iff_of_true h (List.forall_mem_nil _), id⟩
  | @take q q' envelope position removals hposition _ ih =>
      obtain ⟨hqueue, hdevices, -, -⟩ := IngestQueue.take_at_of_getElem? hposition
      rw [hqueue, hdevices] at ih
      refine ⟨fun h => ?_, fun h => ih.2 (h.remove hposition)⟩
      rw [List.forall_mem_cons]
      by_cases hunremarkable : Unremarkable q.queue envelope
      · rw [ih.1 ((h.remove hposition).1 hunremarkable)]
        exact (and_iff_right hunremarkable).symm
      · have hdrifted := ih.2 ((h.remove hposition).2 hunremarkable)
        exact iff_of_false hdrifted.not_exact fun hall => hunremarkable hall.1

/-- A push keeps the table exact exactly if what it evicts is unremarkable. -/
theorem table_exact_iff_of_push {q : IngestQueue} (h : TableExact q.devices q.queue)
    (envelope : IngestEnvelope) :
    TableExact (q.push envelope).2.devices (q.push envelope).2.queue ↔
      ∀ victim ∈ q.evictedBy envelope, Unremarkable q.queue victim.1 := by
  have hstep := q.push_step envelope
  generalize q.push envelope = result at hstep ⊢
  cases hstep with
  | rejected _ _ _ _ _ _ hnone =>
      rw [hnone]
      exact iff_of_true h fun victim hvictim => by cases hvictim
  | room _ hnone =>
      rw [hnone, IngestQueue.accept_envelope_queue, IngestQueue.accept_envelope_devices]
      exact iff_of_true (h.add _) fun victim hvictim => by cases hvictim
  | evicting victim position status hvictim hposition _ =>
      rw [hvictim, IngestQueue.accept_envelope_queue, IngestQueue.accept_envelope_devices,
        IngestQueue.evict_of_getElem? hposition]
      simp only [Option.mem_def, Option.some.injEq, forall_eq']
      by_cases hunremarkable : Unremarkable q.queue victim
      · exact iff_of_true (((h.remove hposition).1 hunremarkable).add _) hunremarkable
      · have hdrifted := ((h.remove hposition).2 hunremarkable).add envelope.prioritised
        exact iff_of_false hdrifted.not_exact hunremarkable

/-- An operation on an exact table leaves it exact exactly if its removals are unremarkable. -/
theorem table_exact_iff_of_step {q : IngestQueue} (h : TableExact q.devices q.queue)
    (op : IngestOp) :
    TableExact (q.step op).devices (q.step op).queue ↔ RemovalsUnremarkable q op := by
  cases op with
  | push envelope =>
      refine (table_exact_iff_of_push h envelope).trans ?_
      simp only [RemovalsUnremarkable, IngestQueue.removals, List.forall_mem_map,
        Option.mem_toList]
      rfl
  | pop => exact (table_exact_iff_of_drains q.pop_drains.1).1 h
  | drain maxPackets => exact (table_exact_iff_of_drains (q.drain_loop_drains maxPackets).1).1 h
  | drainPayloadBudget maxPayloadBytes =>
      exact (table_exact_iff_of_drains (q.drain_budget_loop_drains maxPayloadBytes 0 []
        (Nat.zero_le _) fun _ => rfl).1).1 h
  | clear =>
      refine iff_of_true (fun device => ?_) (List.forall_mem_nil _)
      exact Std.ExtTreeMap.getElem?_empty
  | close => exact iff_of_true h (List.forall_mem_nil _)
  | reopen => exact iff_of_true h (List.forall_mem_nil _)

/-- **Device bookkeeping.** In all states of a run `devices()` lists exactly the devices with queued
envelopes, with their counts, payloads and maxima, exactly when every removal of the run is
unremarkable. -/
theorem devices_exact_iff (config : IngestQueueConfig) (ops : List IngestOp) :
    (∀ n, DevicesExact (run IngestQueue.step { config } (ops.take n))) ↔
      Along IngestQueue.step RemovalsUnremarkable { config } ops := by
  have hstep : ∀ (q : IngestQueue), ∀ op ∈ ops, True → DevicesExact q →
      (DevicesExact (q.step op) ↔ RemovalsUnremarkable q op) :=
    fun q op _ _ h => devices_exact_iff_table.trans
      (table_exact_iff_of_step (devices_exact_iff_table.mp h) op)
  have hempty : DevicesExact { config } :=
    devices_exact_iff_table.mpr fun device => Std.ExtTreeMap.getElem?_empty
  exact states_iff_along (fun _ _ _ => trivial) hstep trivial hempty

/-- Two packets of one device, one of them popped: the device is reported with two packets. -/
theorem pop_overcounts_device :
    ¬ DevicesExact (run IngestQueue.step {}
      [.push (sampleEnvelope 1 1 1), .push (sampleEnvelope 1 2 1), .pop]) := by
  intro hexact
  exact absurd (devices_exact_iff_table.mp hexact 1) (by decide)

end Aethon.Runtime
