import Mathlib.Algebra.GroupWithZero.Nat
import Aethon.Runtime.IngestQueue

/-!
# The batching policy

`runtime::BatchingPolicy` collects envelopes in an open batch and returns the batches that it
closes. A call can close the open batch at several points, each guarded by `if (open_ && ...)`:
`closeWhen` is that statement, with the reason that the guard decides on.

Sizes, counters and times are naturals, as in the ingest queue. The deadline slack is added to the
time with a 64-bit sum.
-/

namespace Aethon.Runtime

open Protocol

/-- Why a batch was closed. -/
inductive BatchCloseReason where
  | none
  | maxPackets
  | maxPayloadBytes
  | maxAge
  | deadline
  | priorityFlush
  | manualFlush
  deriving DecidableEq, Repr

/-- The limits of batches. -/
structure BatchingPolicyConfig where
  maxPackets : Nat := 64
  maxPayloadBytes : Nat := 1024 * 1024
  maxAgeNs : Nat := 5000000
  deadlineSlackNs : Nat := 0
  priorityFlushThreshold : IngestPriority := .critical
  isolateControlPackets : Bool := true
  preserveDeviceOrder : Bool := true
  deriving DecidableEq, Repr

/-- The first and last arrival of a batch, and its earliest deadline. -/
structure PacketBatchWindow where
  firstArrivalTimeNs : Nat := 0
  lastArrivalTimeNs : Nat := 0
  earliestDeadlineNs : Nat := 0
  deriving DecidableEq, Repr

/-- Packets that go on together. -/
structure PacketBatch where
  packets : List IngestEnvelope := []
  window : PacketBatchWindow := {}
  payloadBytes : Nat := 0
  highestPriority : IngestPriority := .low
  closeReason : BatchCloseReason := .none
  deriving DecidableEq, Repr

/-- Whether a packet may join the open batch, and why the batch is closed before. -/
structure BatchCandidate where
  accepted : Bool := false
  closeReason : BatchCloseReason := .none
  note : String
  deriving DecidableEq, Repr

/-- What a policy counts. -/
structure BatchingPolicyStats where
  packetsConsidered : Nat := 0
  packetsBatched : Nat := 0
  batchesClosed : Nat := 0
  manualFlushes : Nat := 0
  maxPacketClosures : Nat := 0
  byteLimitClosures : Nat := 0
  ageClosures : Nat := 0
  deadlineClosures : Nat := 0
  priorityClosures : Nat := 0
  deriving DecidableEq, Repr

/-- The open batch, if there is one. -/
structure BatchingPolicy where
  config : BatchingPolicyConfig := {}
  openBatch : Option PacketBatch := none
  stats : BatchingPolicyStats := {}
  deriving DecidableEq, Repr

/-- A packet whose kind is about control. -/
def isControlLike (packet : Packet) : Bool :=
  packet.kind = .control || packet.kind = .capabilities || packet.kind = .heartbeat

/-- `update_window`. A zero time stands for no time yet. -/
def PacketBatchWindow.update (window : PacketBatchWindow) (envelope : IngestEnvelope) :
    PacketBatchWindow where
  firstArrivalTimeNs :=
    if window.firstArrivalTimeNs = 0 then envelope.arrivalTimeNs else window.firstArrivalTimeNs
  lastArrivalTimeNs := max window.lastArrivalTimeNs envelope.arrivalTimeNs
  earliestDeadlineNs :=
    if envelope.deadlineNs = 0 then window.earliestDeadlineNs
    else if window.earliestDeadlineNs = 0 then envelope.deadlineNs
    else min window.earliestDeadlineNs envelope.deadlineNs

/-- The age limit, which two functions test. -/
def PacketBatchWindow.tooOld (window : PacketBatchWindow) (config : BatchingPolicyConfig)
    (nowNs : Nat) : Bool :=
  window.firstArrivalTimeNs ≠ 0 && nowNs ≥ window.firstArrivalTimeNs
    && nowNs - window.firstArrivalTimeNs ≥ config.maxAgeNs

/-- The deadline limit, which two functions test. -/
def PacketBatchWindow.deadlineReached (window : PacketBatchWindow) (config : BatchingPolicyConfig)
    (nowNs : Nat) : Bool :=
  window.earliestDeadlineNs ≠ 0
    && (nowNs + config.deadlineSlackNs) % 2 ^ 64 ≥ window.earliestDeadlineNs

/-- Why a batch is to be closed now, by the first limit that it has reached. -/
def inferBatchCloseReason (batch : PacketBatch) (config : BatchingPolicyConfig) (nowNs : Nat) :
    BatchCloseReason :=
  if batch.packets.isEmpty then .none
  else if batch.packets.length ≥ config.maxPackets then .maxPackets
  else if batch.payloadBytes ≥ config.maxPayloadBytes then .maxPayloadBytes
  else if batch.window.tooOld config nowNs then .maxAge
  else if batch.window.deadlineReached config nowNs then .deadline
  else if batch.highestPriority.rank ≥ config.priorityFlushThreshold.rank then .priorityFlush
  else .none

/-- `conflicts_with_device_order`, for the open batch. -/
def PacketBatch.conflictsWithDeviceOrder (batch : PacketBatch) (envelope : IngestEnvelope) :
    Bool :=
  batch.packets.any fun existing =>
    existing.packet.device = envelope.packet.device
      && existing.packet.sequence > envelope.packet.sequence

/-- The first packet of the batch and the incoming one are not both control packets, or both
not. -/
def PacketBatch.mixesControl (batch : PacketBatch) (envelope : IngestEnvelope) : Bool :=
  batch.packets.head?.any fun front => isControlLike front.packet ≠ isControlLike envelope.packet

/-- `append`, for the batch that is open by then. -/
def PacketBatch.append (batch : PacketBatch) (envelope : IngestEnvelope) : PacketBatch :=
  { batch with
    window := batch.window.update envelope
    payloadBytes := batch.payloadBytes + envelope.payloadSize
    highestPriority :=
      if envelope.priority.rank > batch.highestPriority.rank then envelope.priority
      else batch.highestPriority
    packets := batch.packets ++ [envelope] }

/-- Count a batch under the reason for which it was closed. -/
def BatchingPolicyStats.countClose (stats : BatchingPolicyStats) (reason : BatchCloseReason) :
    BatchingPolicyStats :=
  match reason with
  | .none => stats
  | .maxPackets => { stats with maxPacketClosures := stats.maxPacketClosures + 1 }
  | .maxPayloadBytes => { stats with byteLimitClosures := stats.byteLimitClosures + 1 }
  | .maxAge => { stats with ageClosures := stats.ageClosures + 1 }
  | .deadline => { stats with deadlineClosures := stats.deadlineClosures + 1 }
  | .priorityFlush => { stats with priorityClosures := stats.priorityClosures + 1 }
  | .manualFlush => stats

namespace BatchingPolicy

/-- Whether and why the open batch does not take the envelope. -/
def evaluate (p : BatchingPolicy) (envelope : IngestEnvelope) (nowNs : Nat) : BatchCandidate :=
  match p.openBatch with
  | none => ⟨true, .none, "accepted"⟩
  | some batch =>
      if batch.packets.isEmpty then ⟨true, .none, "accepted"⟩
      else if batch.packets.length ≥ p.config.maxPackets then
        ⟨false, .maxPackets, "batch packet limit reached"⟩
      else if batch.payloadBytes + envelope.payloadSize > p.config.maxPayloadBytes then
        ⟨false, .maxPayloadBytes, "batch payload limit reached"⟩
      else if batch.window.tooOld p.config nowNs then ⟨false, .maxAge, "batch age limit reached"⟩
      else if batch.window.deadlineReached p.config nowNs then
        ⟨false, .deadline, "batch deadline reached"⟩
      else if p.config.preserveDeviceOrder && batch.conflictsWithDeviceOrder envelope then
        ⟨false, .manualFlush, "device sequence would move backwards"⟩
      else if p.config.isolateControlPackets && batch.mixesControl envelope then
        ⟨false, .priorityFlush, "control packets are isolated"⟩
      else ⟨true, .none, "accepted"⟩

/-- The policy behind `close`. -/
def closed (p : BatchingPolicy) (closeReason : BatchCloseReason) : BatchingPolicy :=
  let stats := { p.stats with batchesClosed := p.stats.batchesClosed + 1 }
  { p with openBatch := none, stats := stats.countClose closeReason }

/-- `if (open_ && ...) ready.push_back(close(reason))`: close the open batch when there is one and
a reason to. -/
def closeWhen (p : BatchingPolicy) (reason : PacketBatch → Option BatchCloseReason) :
    List PacketBatch × BatchingPolicy :=
  match p.openBatch with
  | none => ([], p)
  | some batch =>
      match reason batch with
      | none => ([], p)
      | some closeReason => ([{ batch with closeReason }], p.closed closeReason)

/-- The guard `should_flush_open_batch`, with the reason that is inferred again behind it. -/
def flushReason (config : BatchingPolicyConfig) (nowNs : Nat) (batch : PacketBatch) :
    Option BatchCloseReason :=
  if batch.packets.isEmpty then none
  else if inferBatchCloseReason batch config nowNs = .none then none
  else some (inferBatchCloseReason batch config nowNs)

/-- The last closing point of `offer`. -/
def offeredReason (config : BatchingPolicyConfig) (nowNs : Nat) (batch : PacketBatch) :
    Option BatchCloseReason :=
  match flushReason config nowNs batch with
  | some reason => some reason
  | none =>
      if batch.highestPriority.rank ≥ config.priorityFlushThreshold.rank then some .priorityFlush
      else none

/-- Put an envelope into the open batch, or into a new one. -/
def append (p : BatchingPolicy) (envelope : IngestEnvelope) : BatchingPolicy :=
  { p with
    openBatch := some ((p.openBatch.getD {}).append envelope)
    stats.packetsBatched := p.stats.packetsBatched + 1 }

/-- The closing points of `offer` in front of the append. -/
def makeRoom (p : BatchingPolicy) (envelope : IngestEnvelope) (nowNs : Nat) :
    List PacketBatch × BatchingPolicy :=
  let (flushed, p) := p.closeWhen (flushReason p.config nowNs)
  let candidate := p.evaluate envelope nowNs
  let (refused, p) := p.closeWhen fun _ =>
    if candidate.accepted then none else some candidate.closeReason
  let (isolated, p) := p.closeWhen fun batch =>
    if p.config.isolateControlPackets && isControlLike envelope.packet
        && !batch.packets.isEmpty then
      some .priorityFlush
    else none
  (flushed ++ refused ++ isolated, p)

/-- Take an envelope, and return the batches that are closed for it. -/
def offer (p : BatchingPolicy) (envelope : IngestEnvelope) (nowNs : Nat) :
    List PacketBatch × BatchingPolicy :=
  let p := { p with stats.packetsConsidered := p.stats.packetsConsidered + 1 }
  let envelope := envelope.prioritised
  let (earlier, p) := p.makeRoom envelope nowNs
  let p := p.append envelope
  let (filled, p) := p.closeWhen (offeredReason p.config nowNs)
  (earlier ++ filled, p)

/-- Offer envelopes one after another. -/
def offerMany (p : BatchingPolicy) (envelopes : List IngestEnvelope) (nowNs : Nat) :
    List PacketBatch × BatchingPolicy :=
  envelopes.foldl
    (fun loop envelope =>
      let (batches, p) := loop.2.offer envelope nowNs
      (loop.1 ++ batches, p))
    ([], p)

/-- Close the open batch whatever it holds. -/
def flush (p : BatchingPolicy) : List PacketBatch × BatchingPolicy :=
  let p := { p with stats.manualFlushes := p.stats.manualFlushes + 1 }
  p.closeWhen fun batch => if batch.packets.isEmpty then none else some .manualFlush

/-- Close the open batch if its time has come. -/
def tick (p : BatchingPolicy) (nowNs : Nat) : List PacketBatch × BatchingPolicy :=
  p.closeWhen (flushReason p.config nowNs)

/-- Forget the open batch and the counters. -/
def reset (p : BatchingPolicy) : BatchingPolicy :=
  { p with openBatch := none, stats := {} }

end BatchingPolicy

/-! ## Runs -/

/-- A call of one of the operations. -/
inductive BatchingOp where
  | offer (envelope : IngestEnvelope) (nowNs : Nat)
  | offerMany (envelopes : List IngestEnvelope) (nowNs : Nat)
  | flush
  | tick (nowNs : Nat)
  | reset
  deriving DecidableEq

/-- The envelopes that a call offers. -/
def BatchingOp.offered : BatchingOp → List IngestEnvelope
  | .offer envelope _ => [envelope]
  | .offerMany envelopes _ => envelopes
  | .flush | .tick _ | .reset => []

/-- The batches that a call returns, and the policy after it. -/
def BatchingPolicy.call (p : BatchingPolicy) : BatchingOp → List PacketBatch × BatchingPolicy
  | .offer envelope nowNs => p.offer envelope nowNs
  | .offerMany envelopes nowNs => p.offerMany envelopes nowNs
  | .flush => p.flush
  | .tick nowNs => p.tick nowNs
  | .reset => ([], p.reset)

/-- What a call leaves. -/
def BatchingPolicy.step (p : BatchingPolicy) (op : BatchingOp) : BatchingPolicy :=
  (p.call op).2

end Aethon.Runtime
