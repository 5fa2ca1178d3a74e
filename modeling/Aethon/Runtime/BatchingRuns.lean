import Aethon.Foundation.Runs
import Aethon.Runtime.BatchingSteps

/-!
# Runs of the batching policy

`batches_conserve`: the returned batches and the open one hold exactly the offered envelopes, in
order. `batches_within_limits`: every batch is within the limits of the configuration, and no batch
that a call leaves open should have been closed by it.
-/

namespace Aethon.Runtime

open Protocol Runs

namespace BatchingPolicy

/-! ## Nothing is lost or reordered -/

/-- The envelopes of the open batch. -/
def pending (p : BatchingPolicy) : List IngestEnvelope :=
  (p.openBatch.getD {}).packets

/-- What a call returns and leaves open is what was open before and the envelopes it took, in this
order, and it counts them. -/
structure Carries (p : BatchingPolicy) (taken : List IngestEnvelope)
    (result : List PacketBatch × BatchingPolicy) : Prop where
  packets : result.1.flatMap PacketBatch.packets ++ result.2.pending = p.pending ++ taken
  considered : result.2.stats.packetsConsidered = p.stats.packetsConsidered + taken.length
  batched : result.2.stats.packetsBatched = p.stats.packetsBatched + taken.length

/-- Closing a batch carries every packet on. -/
theorem close_when_carries (p : BatchingPolicy)
    (reason : PacketBatch → Option BatchCloseReason) : p.Carries [] (p.closeWhen reason) := by
  rcases p.close_when_cases reason with ⟨hkept, -⟩ | ⟨batch, closeReason, hbatch, hclosed⟩
  · rw [hkept]
    exact ⟨by simp, rfl, rfl⟩
  · rw [hclosed]
    exact ⟨by simp [pending, hbatch], by simp, by simp⟩

/-- In front of the append everything that was open is returned or still open. -/
theorem make_room_carries {p : BatchingPolicy} (envelope : IngestEnvelope) (nowNs : Nat)
    (hnonempty : ∀ batch ∈ p.openBatch, batch.packets ≠ []) :
    p.Carries [] (p.makeRoom envelope nowNs) := by
  rcases make_room_cases envelope nowNs hnonempty with
    ⟨hkept, -⟩ | ⟨batch, closeReason, hbatch, hclosed⟩
  · rw [hkept]
    exact ⟨by simp, rfl, rfl⟩
  · rw [hclosed]
    exact ⟨by simp [pending, hbatch], by simp, by simp⟩

theorem pending_append (p : BatchingPolicy) (envelope : IngestEnvelope) :
    (p.append envelope).pending = p.pending ++ [envelope] := rfl

/-- An offer carries every packet on, and the new one. -/
theorem offer_carries {p : BatchingPolicy} (envelope : IngestEnvelope) (nowNs : Nat)
    (hnonempty : ∀ batch ∈ p.openBatch, batch.packets ≠ []) :
    p.Carries [envelope.prioritised] (p.offer envelope nowNs) := by
  rw [offer_eq]
  obtain ⟨hearlier, hconsidered, hbatched⟩ :=
    @make_room_carries p.counted envelope.prioritised nowNs hnonempty
  generalize p.counted.makeRoom envelope.prioritised nowNs = room at *
  obtain ⟨hfilled, hlast, hcount⟩ := (room.2.append envelope.prioritised).close_when_carries
    (offeredReason room.2.config nowNs)
  rw [pending_append, List.append_nil] at hfilled
  refine ⟨?_, hlast.trans hconsidered, hcount.trans (congrArg (· + 1) hbatched)⟩
  calc _ = room.1.flatMap PacketBatch.packets ++ (room.2.pending ++ [envelope.prioritised]) := by
        rw [← hfilled, List.flatMap_append, List.append_assoc]
    _ = p.pending ++ [envelope.prioritised] := by
        rw [← List.append_assoc, hearlier, List.append_nil]
        rfl

/-- One result behind another carries what both took. -/
theorem Carries.trans {p : BatchingPolicy} {first second : List IngestEnvelope}
    {result next : List PacketBatch × BatchingPolicy} (h : p.Carries first result)
    (hnext : result.2.Carries second next) :
    p.Carries (first ++ second) (result.1 ++ next.1, next.2) := by
  refine ⟨?_, ?_, ?_⟩
  · rw [List.flatMap_append, List.append_assoc, hnext.packets, ← List.append_assoc, h.packets,
      List.append_assoc]
  · rw [hnext.considered, h.considered, List.length_append, Nat.add_assoc]
  · rw [hnext.batched, h.batched, List.length_append, Nat.add_assoc]

/-- A batch with packets, as every batch is. -/
theorem nonempty_rule (config : BatchingPolicyConfig) :
    BatchRule config fun batch => batch.packets ≠ [] where
  nonempty _ h := h
  single _ := List.cons_ne_nil _ _
  joined batch envelope _ _ := by simp [PacketBatch.append]
  closed _ _ h := h

/-- Many offers carry every packet on, and the new ones. -/
theorem offer_many_carries {p : BatchingPolicy} (envelopes : List IngestEnvelope) (nowNs : Nat)
    (hnonempty : ∀ batch ∈ p.openBatch, batch.packets ≠ []) :
    p.Carries (envelopes.map IngestEnvelope.prioritised) (p.offerMany envelopes nowNs) := by
  unfold offerMany
  suffices hloop : ∀ (taken : List IngestEnvelope) (loop : List PacketBatch × BatchingPolicy),
      p.Carries taken loop → (∀ batch ∈ loop.2.openBatch, batch.packets ≠ []) →
        p.Carries (taken ++ envelopes.map IngestEnvelope.prioritised) (envelopes.foldl _ loop) from
    hloop [] ([], p) ⟨by simp, rfl, rfl⟩ hnonempty
  clear hnonempty
  induction envelopes with
  | nil =>
      intro taken loop hcarries _
      rw [List.map_nil, List.append_nil]
      exact hcarries
  | cons envelope envelopes ih =>
      intro taken loop hcarries hopen
      have hoffer := offer_carries envelope nowNs hopen
      obtain ⟨⟨-, hnext⟩, -⟩ := (nonempty_rule _).offer hopen envelope nowNs
      have hrest := ih _ _ (hcarries.trans hoffer) hnext
      rwa [List.append_assoc] at hrest

/-- Every call but a reset carries the envelopes that it offers. -/
theorem call_carries {p : BatchingPolicy} {op : BatchingOp} (hop : op ≠ .reset)
    (hnonempty : ∀ batch ∈ p.openBatch, batch.packets ≠ []) :
    p.Carries (op.offered.map IngestEnvelope.prioritised) (p.call op) := by
  cases op with
  | offer envelope nowNs => exact offer_carries envelope nowNs hnonempty
  | offerMany envelopes nowNs => exact offer_many_carries envelopes nowNs hnonempty
  | flush =>
      obtain ⟨hpackets, hconsidered, hbatched⟩ :=
        close_when_carries { p with stats.manualFlushes := p.stats.manualFlushes + 1 } _
      exact ⟨hpackets, hconsidered, hbatched⟩
  | tick nowNs => exact p.close_when_carries _
  | reset => exact absurd rfl hop

end BatchingPolicy

open BatchingPolicy

/-- A policy with the batches that it returned and the envelopes that it was offered since it was
created or reset. -/
structure BatchingLog where
  policy : BatchingPolicy
  returned : List PacketBatch := []
  offered : List IngestEnvelope := []

/-- A call, with the batches that it returns; a reset starts the log again. -/
def BatchingLog.step (log : BatchingLog) (op : BatchingOp) : BatchingLog :=
  if op = .reset then { policy := log.policy.reset }
  else
    let (batches, policy) := log.policy.call op
    { policy
      returned := log.returned ++ batches
      offered := log.offered ++ op.offered }

/-- What holds of a log in every run. -/
structure BatchingLog.Conserves (config : BatchingPolicyConfig) (log : BatchingLog) : Prop where
  config : log.policy.config = config
  packets : log.returned.flatMap PacketBatch.packets ++ log.policy.pending =
    log.offered.map IngestEnvelope.prioritised
  returned : ∀ batch ∈ log.returned, batch.packets ≠ []
  opened : ∀ batch ∈ log.policy.openBatch, batch.packets ≠ []
  counted : log.policy.stats.packetsConsidered = log.policy.stats.packetsBatched

/-- An operation keeps the packets conserved. -/
theorem BatchingLog.Conserves.step {config : BatchingPolicyConfig} {log : BatchingLog}
    (op : BatchingOp) (h : log.Conserves config) : (log.step op).Conserves config := by
  unfold BatchingLog.step
  by_cases hop : op = .reset
  · rw [if_pos hop]
    exact ⟨h.config, rfl, by simp, by simp [reset], rfl⟩
  · rw [if_neg hop]
    obtain ⟨hpackets, hconsidered, hbatched⟩ := call_carries hop h.opened
    obtain ⟨⟨hreturned, hopened⟩, hconfig⟩ := (nonempty_rule _).call h.opened op
    refine ⟨hconfig.trans h.config, ?_, ?_, hopened, ?_⟩
    · show (log.returned ++ (log.policy.call op).1).flatMap _ ++ (log.policy.call op).2.pending = _
      rw [List.flatMap_append, List.append_assoc, hpackets, ← List.append_assoc, h.packets,
        List.map_append]
    · intro batch hbatch
      rcases List.mem_append.mp hbatch with hbatch | hbatch
      · exact h.returned batch hbatch
      · exact hreturned batch hbatch
    · show (log.policy.call op).2.stats.packetsConsidered = _
      rw [hconsidered, h.counted]
      exact hbatched.symm

/-- In every run the returned batches and then the open one hold the offered envelopes in order,
each with its inferred priority, none of them is empty, and every considered packet was batched. -/
theorem batches_conserve (config : BatchingPolicyConfig) (ops : List BatchingOp) :
    let log := run BatchingLog.step { policy := { config } } ops
    log.returned.flatMap PacketBatch.packets ++ (log.policy.openBatch.getD {}).packets =
        log.offered.map IngestEnvelope.prioritised ∧
      (∀ batch ∈ log.returned, batch.packets ≠ []) ∧
      (∀ batch ∈ log.policy.openBatch, batch.packets ≠ []) ∧
      log.policy.stats.packetsConsidered = log.policy.stats.packetsBatched := by
  intro log
  have hstart : BatchingLog.Conserves config { policy := { config } } :=
    ⟨rfl, rfl, by simp, by simp, rfl⟩
  have h : log.Conserves config := run_invariant (fun _ op h => h.step op) hstart ops
  exact ⟨h.packets, h.returned, h.opened, h.counted⟩

/-! ## The limits of a batch -/

/-- The envelopes are in the order of their device's sequence numbers. -/
def DeviceOrdered (envelopes : List IngestEnvelope) : Prop :=
  envelopes.Pairwise fun earlier later =>
    earlier.packet.device = later.packet.device → earlier.packet.sequence ≤ later.packet.sequence

/-- The payload bytes that a batch holds. -/
def PacketBatch.payloadSum (batch : PacketBatch) : Nat :=
  (batch.packets.map IngestEnvelope.payloadSize).sum

@[simp] theorem payloadSum_append (batch : PacketBatch) (envelope : IngestEnvelope) :
    (batch.append envelope).payloadSum = batch.payloadSum + envelope.payloadSize := by
  simp [PacketBatch.payloadSum, PacketBatch.append]

/-- A batch that keeps the limits of the configuration. -/
structure WithinLimits (config : BatchingPolicyConfig) (batch : PacketBatch) : Prop where
  nonempty : batch.packets ≠ []
  size : batch.packets.length ≤ max 1 config.maxPackets
  payload : batch.packets.length = 1 ∨ batch.payloadSum ≤ config.maxPayloadBytes
  exact : batch.payloadBytes = batch.payloadSum
  ordered : config.preserveDeviceOrder = true → DeviceOrdered batch.packets
  isolated : config.isolateControlPackets = true →
    ∀ envelope ∈ batch.packets, isControlLike envelope.packet = true → batch.packets = [envelope]

/-- An accepted envelope keeps a batch within its limits. -/
theorem WithinLimits.joined {config : BatchingPolicyConfig} {batch : PacketBatch}
    {envelope : IngestEnvelope} (h : WithinLimits config batch)
    (haccepts : Accepts config envelope batch) : WithinLimits config (batch.append envelope) := by
  refine ⟨by simp [PacketBatch.append], ?_, ?_, ?_, ?_, ?_⟩
  · show (batch.packets ++ [envelope]).length ≤ _
    have hroom := haccepts.room
    rw [List.length_append, List.length_singleton]
    omega
  · right
    rw [payloadSum_append, ← h.exact]
    exact haccepts.payload
  · show batch.payloadBytes + envelope.payloadSize = _
    rw [payloadSum_append, h.exact]
  · intro hpreserve
    have hnone := haccepts.order hpreserve
    refine List.pairwise_append.mpr ⟨h.ordered hpreserve, List.pairwise_singleton _ _, ?_⟩
    intro existing hexisting incoming hincoming hdevice
    rw [List.mem_singleton.mp hincoming] at hdevice ⊢
    simp only [PacketBatch.conflictsWithDeviceOrder, List.any_eq_false] at hnone
    simpa [hdevice] using hnone existing hexisting
  · intro hisolate other hother hcontrol
    obtain ⟨hplain, hsame⟩ := haccepts.alone hisolate
    exfalso
    rcases List.mem_append.mp hother with hother | hother
    · -- a control packet would be the front of the batch that the envelope joins
      have hfront := h.isolated hisolate other hother hcontrol
      simp [PacketBatch.mixesControl, hfront, hcontrol, hplain] at hsame
    · rw [List.mem_singleton.mp hother, hplain] at hcontrol
      cases hcontrol

/-- The limits are a rule for batches. -/
theorem limits_rule (config : BatchingPolicyConfig) : BatchRule config (WithinLimits config) where
  nonempty _ h := h.nonempty
  single envelope :=
    ⟨List.cons_ne_nil _ _, Nat.le_max_left _ _, Or.inl rfl,
      by simp [PacketBatch.append, PacketBatch.payloadSum], fun _ => List.pairwise_singleton _ _,
      fun _ other hother _ => by
        rw [List.mem_singleton.mp hother]
        rfl⟩
  joined _ _ h haccepts := h.joined haccepts
  closed _ _ h := ⟨h.nonempty, h.size, h.payload, h.exact, h.ordered, h.isolated⟩

/-- The reason to close a batch is gone once it is closed or was not there. -/
theorem no_reason_left {p : BatchingPolicy} {reason : PacketBatch → Option BatchCloseReason}
    {batch : PacketBatch} (h : (p.closeWhen reason).2.openBatch = some batch) :
    reason batch = none := by
  rcases p.close_when_cases reason with ⟨hkept, hnone⟩ | ⟨_, _, -, hclosed⟩
  · rw [hkept] at h
    exact hnone batch h
  · rw [hclosed] at h
    cases h

/-- A batch that `should_flush_open_batch` leaves open has no reason to be closed. -/
theorem inferred_of_not_flushed {config : BatchingPolicyConfig} {nowNs : Nat} {batch : PacketBatch}
    (h : flushReason config nowNs batch = none) :
    inferBatchCloseReason batch config nowNs = .none := by
  unfold flushReason at h
  split at h
  · rename_i hempty
    simp [inferBatchCloseReason, hempty]
  · simpa using h

/-- What an offer does not close, a flush by time does not close. -/
theorem flush_reason_of_offered {config : BatchingPolicyConfig} {nowNs : Nat} {batch : PacketBatch}
    (h : offeredReason config nowNs batch = none) : flushReason config nowNs batch = none := by
  unfold offeredReason at h
  split at h
  · cases h
  · assumption

/-- The state between two calls: the open batch of the policy is within the limits. -/
structure OpenWithin (config : BatchingPolicyConfig) (p : BatchingPolicy) : Prop where
  configured : p.config = config
  opened : ∀ batch ∈ p.openBatch, WithinLimits config batch

/-- An operation keeps all batches within the limits. -/
theorem OpenWithin.call {config : BatchingPolicyConfig} {p : BatchingPolicy}
    (h : OpenWithin config p) (op : BatchingOp) :
    AllBatches (WithinLimits config) (p.call op) ∧ OpenWithin config (p.step op) := by
  obtain ⟨rfl, hopened⟩ := h
  obtain ⟨hall, hkept⟩ := (limits_rule p.config).call hopened op
  exact ⟨hall, hkept, hall.2⟩

/-- In every run, every batch that a call returns or leaves open is within the limits, and after an
offer or a tick there is no reason to close the open batch at that time. -/
theorem batches_within_limits (config : BatchingPolicyConfig) (ops : List BatchingOp)
    (op : BatchingOp) :
    let p := run BatchingPolicy.step { config } ops
    (∀ batch ∈ (p.call op).1, WithinLimits config batch) ∧
      (∀ batch ∈ (p.step op).openBatch, WithinLimits config batch) ∧
      ∀ nowNs, (op = .tick nowNs ∨ ∃ envelope, op = .offer envelope nowNs) →
        ∀ batch ∈ (p.step op).openBatch, inferBatchCloseReason batch config nowNs = .none := by
  intro p
  have hp : OpenWithin config p := run_invariant
    (fun (p : BatchingPolicy) op (h : OpenWithin config p) => (h.call op).2) ⟨rfl, by simp⟩ ops
  obtain ⟨⟨hreturned, hnext⟩, hkept⟩ := hp.call op
  refine ⟨hreturned, hnext, ?_⟩
  intro nowNs hop batch hbatch
  have hconfig := hkept.configured
  rcases hop with rfl | ⟨envelope, rfl⟩
  · have hflush : flushReason p.config nowNs batch = none :=
      @no_reason_left p (flushReason p.config nowNs) batch hbatch
    rw [hp.configured] at hflush
    exact inferred_of_not_flushed hflush
  · let room := p.counted.makeRoom envelope.prioritised nowNs
    have hclose : (p.step (.offer envelope nowNs)) =
      ((room.2.append envelope.prioritised).closeWhen (offeredReason room.2.config nowNs)).2 := rfl
    rw [hclose] at hbatch hconfig
    have hoffered := no_reason_left hbatch
    rw [config_close_when] at hconfig
    rw [show room.2.config = config from hconfig] at hoffered
    exact inferred_of_not_flushed (flush_reason_of_offered hoffered)

end Aethon.Runtime
