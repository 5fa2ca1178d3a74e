import Aethon.Runtime.BatchingPolicy

/-!
# What a call of the batching policy does

`make_room_cases` says what `offer` does before it appends: the open batch takes the envelope
within all limits, or it is closed. `BatchRule.call` turns a property that such an append keeps
into one of all batches, and `call_carries` accounts for the envelopes of a call.
-/

namespace Aethon.Runtime

open Protocol

namespace BatchingPolicy

/-! ## Closing -/

theorem close_when_none {p : BatchingPolicy} (h : p.openBatch = none)
    (reason : PacketBatch → Option BatchCloseReason) : p.closeWhen reason = ([], p) := by
  simp only [closeWhen, h]

theorem close_when_some {p : BatchingPolicy} {batch : PacketBatch} (h : p.openBatch = some batch)
    (reason : PacketBatch → Option BatchCloseReason) :
    p.closeWhen reason = match reason batch with
      | none => ([], p)
      | some closeReason => ([{ batch with closeReason }], p.closed closeReason) := by
  cases p
  cases h
  rfl

/-- There is nothing to close behind a close. -/
@[simp] theorem close_when_closed (p : BatchingPolicy) (closeReason : BatchCloseReason)
    (reason : PacketBatch → Option BatchCloseReason) :
    (p.closed closeReason).closeWhen reason = ([], p.closed closeReason) :=
  close_when_none rfl reason

/-- A closing point leaves the policy as it is, or closes its open batch. -/
theorem close_when_cases (p : BatchingPolicy) (reason : PacketBatch → Option BatchCloseReason) :
    (p.closeWhen reason = ([], p) ∧ ∀ batch ∈ p.openBatch, reason batch = none) ∨
      ∃ batch closeReason, p.openBatch = some batch ∧
        p.closeWhen reason = ([{ batch with closeReason }], p.closed closeReason) := by
  rcases hopen : p.openBatch with _ | batch
  · left
    exact ⟨close_when_none hopen reason, by simp⟩
  · rw [close_when_some hopen]
    rcases hreason : reason batch with _ | closeReason
    · left
      exact ⟨rfl, fun other hother => by rwa [← Option.some.inj hother]⟩
    · right
      exact ⟨batch, closeReason, rfl, rfl⟩

@[simp] theorem openBatch_closed (p : BatchingPolicy) (closeReason : BatchCloseReason) :
    (p.closed closeReason).openBatch = none := rfl

@[simp] theorem config_closed (p : BatchingPolicy) (closeReason : BatchCloseReason) :
    (p.closed closeReason).config = p.config := rfl

@[simp] theorem considered_closed (p : BatchingPolicy) (closeReason : BatchCloseReason) :
    (p.closed closeReason).stats.packetsConsidered = p.stats.packetsConsidered := by
  cases closeReason <;> rfl

@[simp] theorem batched_closed (p : BatchingPolicy) (closeReason : BatchCloseReason) :
    (p.closed closeReason).stats.packetsBatched = p.stats.packetsBatched := by
  cases closeReason <;> rfl

/-! ## Making room -/

/-- The limits within which a batch takes one more envelope. -/
structure Accepts (config : BatchingPolicyConfig) (envelope : IngestEnvelope)
    (batch : PacketBatch) : Prop where
  room : batch.packets.length < config.maxPackets
  payload : batch.payloadBytes + envelope.payloadSize ≤ config.maxPayloadBytes
  order : config.preserveDeviceOrder = true → batch.conflictsWithDeviceOrder envelope = false
  alone : config.isolateControlPackets = true →
    isControlLike envelope.packet = false ∧ batch.mixesControl envelope = false

/-- What the evaluation of an envelope against a batch has looked at when it accepts. -/
theorem accepted_of_evaluate {p : BatchingPolicy} {batch : PacketBatch} {envelope : IngestEnvelope}
    {nowNs : Nat} (hopen : p.openBatch = some batch) (hnonempty : batch.packets ≠ [])
    (h : (p.evaluate envelope nowNs).accepted = true) :
    batch.packets.length < p.config.maxPackets ∧
      batch.payloadBytes + envelope.payloadSize ≤ p.config.maxPayloadBytes ∧
      (p.config.preserveDeviceOrder && batch.conflictsWithDeviceOrder envelope) = false ∧
      (p.config.isolateControlPackets && batch.mixesControl envelope) = false := by
  simp only [evaluate, hopen, List.isEmpty_iff, hnonempty, if_false] at h
  split at h
  · cases h
  rename_i hroom
  split at h
  · cases h
  rename_i hpayload
  split at h
  · cases h
  split at h
  · cases h
  split at h
  · cases h
  rename_i horder
  split at h
  · cases h
  rename_i halone
  exact ⟨by omega, by omega, by simpa using horder, by simpa using halone⟩

/-- In front of the append the open batch is left open, within all limits, or it is closed. -/
theorem make_room_cases {p : BatchingPolicy} (envelope : IngestEnvelope) (nowNs : Nat)
    (hnonempty : ∀ batch ∈ p.openBatch, batch.packets ≠ []) :
    (p.makeRoom envelope nowNs = ([], p) ∧
        ∀ batch ∈ p.openBatch, Accepts p.config envelope batch) ∨
      ∃ batch closeReason, p.openBatch = some batch ∧
        p.makeRoom envelope nowNs = ([{ batch with closeReason }], p.closed closeReason) := by
  rcases hopen : p.openBatch with _ | batch
  · left
    simp [makeRoom, close_when_none hopen]
  have hpackets : batch.packets ≠ [] := hnonempty batch hopen
  unfold makeRoom
  rw [close_when_some hopen]
  rcases flushReason p.config nowNs batch with _ | flushed
  · simp only []
    rw [close_when_some hopen]
    rcases haccepted : (p.evaluate envelope nowNs).accepted with _ | _
    · right
      exact ⟨batch, (p.evaluate envelope nowNs).closeReason, rfl, by simp⟩
    · obtain ⟨hroom, hpayload, horder, halone⟩ :=
        accepted_of_evaluate hopen hpackets haccepted
      simp only [if_true]
      rw [close_when_some hopen]
      rcases hcontrol : p.config.isolateControlPackets && isControlLike envelope.packet with _ | _
      · left
        refine ⟨by simp, fun other hother => ?_⟩
        obtain rfl := Option.some.inj hother
        exact ⟨hroom, hpayload, fun hpreserve => by simpa [hpreserve] using horder,
          fun hisolate => by simp_all⟩
      · right
        exact ⟨batch, .priorityFlush, rfl, by simp [hpackets]⟩
  · right
    exact ⟨batch, flushed, rfl, by simp⟩

/-! ## Properties of all batches -/

/-- A property of batches that a first envelope has and that every accepted envelope keeps. -/
structure BatchRule (config : BatchingPolicyConfig) (good : PacketBatch → Prop) : Prop where
  nonempty : ∀ batch, good batch → batch.packets ≠ []
  single : ∀ envelope, good (({} : PacketBatch).append envelope)
  joined : ∀ batch envelope, good batch → Accepts config envelope batch →
    good (batch.append envelope)
  closed : ∀ batch closeReason, good batch → good { batch with closeReason }

/-- All batches of a result are good, those that it returns and the one that stays open. -/
def AllBatches (good : PacketBatch → Prop) (result : List PacketBatch × BatchingPolicy) : Prop :=
  (∀ batch ∈ result.1, good batch) ∧ ∀ batch ∈ result.2.openBatch, good batch

variable {good : PacketBatch → Prop} {p : BatchingPolicy}

/-- Closing a batch keeps a rule. -/
theorem BatchRule.close_when (h : BatchRule p.config good)
    (hopen : ∀ batch ∈ p.openBatch, good batch) (reason : PacketBatch → Option BatchCloseReason) :
    AllBatches good (p.closeWhen reason) := by
  rcases p.close_when_cases reason with ⟨hkept, -⟩ | ⟨batch, closeReason, hbatch, hclosed⟩
  · rw [hkept]
    exact ⟨by simp, hopen⟩
  · rw [hclosed]
    refine ⟨?_, by simp⟩
    intro other hother
    rw [List.mem_singleton.mp hother]
    exact h.closed batch closeReason (hopen batch hbatch)

/-- Closing a batch leaves the configuration alone. -/
theorem config_close_when (p : BatchingPolicy) (reason : PacketBatch → Option BatchCloseReason) :
    (p.closeWhen reason).2.config = p.config := by
  rcases p.close_when_cases reason with ⟨hkept, -⟩ | ⟨batch, closeReason, -, hclosed⟩
  · rw [hkept]
  · rw [hclosed]
    rfl

/-- The policy that has counted an offered envelope. -/
def counted (p : BatchingPolicy) : BatchingPolicy :=
  { p with stats.packetsConsidered := p.stats.packetsConsidered + 1 }

/-- An offer makes room, appends the packet and closes what is full. -/
theorem offer_eq (p : BatchingPolicy) (envelope : IngestEnvelope) (nowNs : Nat) :
    p.offer envelope nowNs =
      let room := p.counted.makeRoom envelope.prioritised nowNs
      let filled := (room.2.append envelope.prioritised).closeWhen
        (offeredReason room.2.config nowNs)
      (room.1 ++ filled.1, filled.2) := rfl

/-- An offer of an envelope keeps all batches good. -/
theorem BatchRule.offer (h : BatchRule p.config good) (hopen : ∀ batch ∈ p.openBatch, good batch)
    (envelope : IngestEnvelope) (nowNs : Nat) :
    AllBatches good (p.offer envelope nowNs) ∧ (p.offer envelope nowNs).2.config = p.config := by
  have hnonempty : ∀ batch ∈ p.counted.openBatch, batch.packets ≠ [] := fun batch hbatch =>
    h.nonempty batch (hopen batch hbatch)
  rw [offer_eq]
  generalize hroom : p.counted.makeRoom envelope.prioritised nowNs = room
  -- the batch that is open behind the append is the old one or a new one
  have hshape : room.2.config = p.config ∧ (∀ batch ∈ room.1, good batch) ∧
      good ((room.2.openBatch.getD {}).append envelope.prioritised) := by
    rcases p.counted.make_room_cases envelope.prioritised nowNs hnonempty with
      ⟨hkept, haccepts⟩ | ⟨batch, closeReason, hbatch, hclosed⟩
    · obtain rfl := hkept.symm.trans hroom
      refine ⟨rfl, by simp, ?_⟩
      rcases hcurrent : p.counted.openBatch with _ | batch
      · exact h.single _
      · exact h.joined batch _ (hopen batch hcurrent) (haccepts batch hcurrent)
    · obtain rfl := hclosed.symm.trans hroom
      refine ⟨rfl, ?_, h.single _⟩
      intro other hother
      rw [List.mem_singleton.mp hother]
      exact h.closed batch closeReason (hopen batch hbatch)
  obtain ⟨hconfig, hearlier, hgood⟩ := hshape
  have hrule : BatchRule (room.2.append envelope.prioritised).config good := by
    show BatchRule room.2.config good
    rwa [hconfig]
  have hopened : ∀ batch ∈ (room.2.append envelope.prioritised).openBatch, good batch := by
    intro batch hbatch
    rwa [← Option.some.inj hbatch]
  obtain ⟨hfilled, hrest⟩ := hrule.close_when hopened (offeredReason room.2.config nowNs)
  refine ⟨⟨?_, hrest⟩, ?_⟩
  · intro batch hbatch
    rcases List.mem_append.mp hbatch with hbatch | hbatch
    · exact hearlier batch hbatch
    · exact hfilled batch hbatch
  · rw [config_close_when]
    exact hconfig

/-- Every call keeps all batches good. -/
theorem BatchRule.call (h : BatchRule p.config good) (hopen : ∀ batch ∈ p.openBatch, good batch)
    (op : BatchingOp) : AllBatches good (p.call op) ∧ (p.step op).config = p.config := by
  cases op with
  | offer envelope nowNs => exact h.offer hopen envelope nowNs
  | offerMany envelopes nowNs =>
      show AllBatches good (p.offerMany envelopes nowNs) ∧
        (p.offerMany envelopes nowNs).2.config = p.config
      unfold offerMany
      -- the batches returned so far are good as well
      suffices hloop : ∀ (loop : List PacketBatch × BatchingPolicy), AllBatches good loop →
          loop.2.config = p.config → AllBatches good (envelopes.foldl _ loop) ∧
            (envelopes.foldl _ loop).2.config = p.config from
        hloop ([], p) ⟨by simp, hopen⟩ rfl
      induction envelopes with
      | nil => exact fun loop hgood hconfig => ⟨hgood, hconfig⟩
      | cons envelope envelopes ih =>
          intro loop hgood hconfig
          have hrule : BatchRule loop.2.config good := hconfig ▸ h
          obtain ⟨⟨hreturned, hnext⟩, hkept⟩ := hrule.offer hgood.2 envelope nowNs
          refine ih _ ⟨?_, hnext⟩ (hkept.trans hconfig)
          intro batch hbatch
          rcases List.mem_append.mp hbatch with hbatch | hbatch
          · exact hgood.1 batch hbatch
          · exact hreturned batch hbatch
  | flush =>
      let counted := { p with stats.manualFlushes := p.stats.manualFlushes + 1 }
      exact ⟨@BatchRule.close_when good counted h hopen _, config_close_when counted _⟩
  | tick nowNs => exact ⟨h.close_when hopen _, p.config_close_when _⟩
  | reset => exact ⟨⟨by simp [BatchingPolicy.call], by simp [BatchingPolicy.call, reset]⟩, rfl⟩

end BatchingPolicy

end Aethon.Runtime
