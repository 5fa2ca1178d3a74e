import Aethon.Foundation.Extremum
import Aethon.Protocol.Types

/-!
# The ingest queue

`runtime::IngestQueue`: a bounded queue of envelopes with four overflow policies, three drain modes
and a running summary of each device. An iterator into the queue is the element with its position.

Sizes, counters and times are naturals; the queue compares and adds them, and every sum is of
bytes it holds. Subtraction is the code's saturating one. `published` is the list of events handed
to the dispatcher, which the queue never reads.
-/

namespace Aethon.Runtime

open Protocol Extremum

/-- How urgent a packet is. -/
inductive IngestPriority where
  | low
  | normal
  | high
  | critical
  deriving DecidableEq, Repr

/-- `priority_rank`, the value of the enumerator. -/
def IngestPriority.rank : IngestPriority → Nat
  | low => 0
  | normal => 1
  | high => 2
  | critical => 3

/-- What becomes of a packet that is pushed. -/
inductive IngestAdmissionStatus where
  | accepted
  | rejectedClosed
  | rejectedEmptyPayload
  | rejectedPayloadTooLarge
  | rejectedQueueFull
  | replacedOlderPacket
  deriving DecidableEq, Repr

/-- What a full queue does with a new packet. -/
inductive IngestOverflowPolicy where
  | rejectNew
  | dropOldest
  | dropLowestPriority
  | replaceSameDevice
  deriving DecidableEq, Repr

/-- The order in which a queue is drained. -/
inductive IngestDrainMode where
  | fifo
  | highestPriorityFirst
  | earliestDeadlineFirst
  deriving DecidableEq, Repr

/-- The limits of a queue. -/
structure IngestQueueConfig where
  maxPackets : Nat := 1024
  maxPayloadBytes : Nat := 16 * 1024 * 1024
  maxPacketPayloadBytes : Nat := 256 * 1024
  overflowPolicy : IngestOverflowPolicy := .rejectNew
  drainMode : IngestDrainMode := .fifo
  rejectEmptyPayload : Bool := false
  publishEvents : Bool := true
  deriving DecidableEq, Repr

/-- A packet with its arrival and its deadline. -/
structure IngestEnvelope where
  packet : Packet
  arrivalTimeNs : Nat := 0
  deadlineNs : Nat := 0
  priority : IngestPriority := .normal
  source : Bytes := []
  deriving DecidableEq, Repr

/-- The statuses of an admission, as opposed to a rejection. -/
def IngestAdmissionStatus.Admits (status : IngestAdmissionStatus) : Prop :=
  status = .accepted ∨ status = .replacedOlderPacket

/-- What a push returns. -/
structure IngestAdmission where
  status : IngestAdmissionStatus := .accepted
  reason : String
  evicted : Option Packet := none
  queueSize : Nat
  payloadBytes : Nat
  deriving DecidableEq, Repr

/-- What a drain returns. -/
structure IngestDrainResult where
  packets : List IngestEnvelope
  remainingPackets : Nat
  remainingPayloadBytes : Nat
  deriving DecidableEq, Repr

/-- What is queued of a device. -/
structure IngestDeviceSnapshot where
  device : DeviceId
  queuedPackets : Nat
  queuedPayloadBytes : Nat
  newestSequence : Nat
  lastArrivalTimeNs : Nat
  highestPriority : IngestPriority
  deriving DecidableEq, Repr

/-- What a queue counts. -/
structure IngestQueueStats where
  accepted : Nat := 0
  rejected : Nat := 0
  evicted : Nat := 0
  drained : Nat := 0
  closedRejections : Nat := 0
  payloadRejections : Nat := 0
  capacityRejections : Nat := 0
  queuedPackets : Nat := 0
  queuedPayloadBytes : Nat := 0
  highWaterPackets : Nat := 0
  highWaterPayloadBytes : Nat := 0
  deriving DecidableEq, Repr

/-- The kinds of events. -/
inductive RuntimeEventKind where
  | packetReceived
  | packetArchived
  | sessionEvent
  | warning
  | error
  deriving DecidableEq, Repr

/-- Something that happened to a packet. -/
structure RuntimeEvent where
  kind : RuntimeEventKind
  timeNs : Nat
  message : String
  packet : Packet
  deriving DecidableEq, Repr

/-- `IngestQueue::DeviceState`. -/
structure DeviceState where
  queuedPackets : Nat := 0
  queuedPayloadBytes : Nat := 0
  newestSequence : Nat := 0
  lastArrivalTimeNs : Nat := 0
  highestPriority : IngestPriority := .low
  deriving DecidableEq, Repr

/-- The state as it is reported for a device. -/
def DeviceState.snapshot (state : DeviceState) (device : DeviceId) : IngestDeviceSnapshot where
  device := device
  queuedPackets := state.queuedPackets
  queuedPayloadBytes := state.queuedPayloadBytes
  newestSequence := state.newestSequence
  lastArrivalTimeNs := state.lastArrivalTimeNs
  highestPriority := state.highestPriority

/-- `std::map<DeviceId, DeviceState>`. -/
abbrev DeviceTable := Std.ExtTreeMap DeviceId DeviceState

/-- The envelopes in the order in which they came, with what is known of their devices. -/
structure IngestQueue where
  config : IngestQueueConfig := {}
  queue : List IngestEnvelope := []
  devices : DeviceTable := ∅
  stats : IngestQueueStats := {}
  published : List RuntimeEvent := []
  closed : Bool := false

/-! ## Comparisons and selections -/

/-- The bytes of the payload of an envelope. -/
def IngestEnvelope.payloadSize (envelope : IngestEnvelope) : Nat :=
  envelope.packet.payload.length

/-- `deadline_less`: a zero deadline is later than every other one. -/
def deadlineLess (lhs rhs : IngestEnvelope) : Bool :=
  if lhs.deadlineNs = 0 ∧ rhs.deadlineNs = 0 then false
  else if lhs.deadlineNs = 0 then false
  else if rhs.deadlineNs = 0 then true
  else lhs.deadlineNs < rhs.deadlineNs

/-- The priority of the route of a packet, or else of its kind. -/
def inferIngestPriority (packet : Packet) : IngestPriority :=
  match packet.route with
  | some route =>
      if route.priority ≥ 200 then .critical
      else if route.priority ≥ 128 then .high
      else inferFromKind packet.kind
  | none => inferFromKind packet.kind
where
  /-- The switch over the packet kind. -/
  inferFromKind (kind : PacketKind) : IngestPriority :=
    if kind = .control then .critical
    else if kind = .heartbeat ∨ kind = .capabilities then .high
    else .normal

/-- The envelope as `push` queues it: a normal priority is replaced by the inferred one. -/
def IngestEnvelope.prioritised (envelope : IngestEnvelope) : IngestEnvelope :=
  if envelope.priority = .normal then
    { envelope with priority := inferIngestPriority envelope.packet }
  else envelope

/-- The comparison of `drop_lowest_priority`. -/
def lowerPriority (lhs rhs : IngestEnvelope) : Bool :=
  if lhs.priority.rank ≠ rhs.priority.rank then lhs.priority.rank < rhs.priority.rank
  else lhs.arrivalTimeNs < rhs.arrivalTimeNs

/-- The comparison of `highest_priority_first`. -/
def drainsLater (lhs rhs : IngestEnvelope) : Bool :=
  if lhs.priority.rank ≠ rhs.priority.rank then lhs.priority.rank < rhs.priority.rank
  else lhs.arrivalTimeNs > rhs.arrivalTimeNs

/-- The comparison of `earliest_deadline_first`. -/
def earlierDeadline (lhs rhs : IngestEnvelope) : Bool :=
  if deadlineLess lhs rhs then true
  else if deadlineLess rhs lhs then false
  else lhs.arrivalTimeNs < rhs.arrivalTimeNs

/-- The loop body of `replace_same_device`. -/
def olderOfDevice (device : DeviceId) (candidate : Option (IngestEnvelope × Nat))
    (entry : IngestEnvelope × Nat) : Option (IngestEnvelope × Nat) :=
  if entry.1.packet.device ≠ device then candidate
  else match candidate with
    | none => some entry
    | some held => if entry.1.arrivalTimeNs < held.1.arrivalTimeNs then some entry else candidate

/-- The loop of `replace_same_device`: the oldest envelope of the device. -/
def oldestOfDevice (device : DeviceId) (queue : List IngestEnvelope) :
    Option (IngestEnvelope × Nat) :=
  queue.zipIdx.foldl (olderOfDevice device) none

/-- `select_overflow_victim`, with `none` for the end of the queue. -/
def selectOverflowVictim (policy : IngestOverflowPolicy) (queue : List IngestEnvelope)
    (incoming : IngestEnvelope) : Option (IngestEnvelope × Nat) :=
  match policy with
  | .rejectNew => none
  | .dropOldest => queue.head?.map fun envelope => (envelope, 0)
  | .dropLowestPriority => minElement lowerPriority queue
  | .replaceSameDevice => oldestOfDevice incoming.packet.device queue

/-- `select_next`, with `none` for the end of the queue. -/
def selectNext (mode : IngestDrainMode) (queue : List IngestEnvelope) :
    Option (IngestEnvelope × Nat) :=
  match mode with
  | .fifo => queue.head?.map fun envelope => (envelope, 0)
  | .highestPriorityFirst => maxElement drainsLater queue
  | .earliestDeadlineFirst => minElement earlierDeadline queue

/-! ## Device states -/

/-- The updates of `add_device_state`, which the rebuild repeats. -/
def DeviceState.add (state : DeviceState) (envelope : IngestEnvelope) : DeviceState where
  queuedPackets := state.queuedPackets + 1
  queuedPayloadBytes := state.queuedPayloadBytes + envelope.payloadSize
  newestSequence := max state.newestSequence envelope.packet.sequence.toNat
  lastArrivalTimeNs := max state.lastArrivalTimeNs envelope.arrivalTimeNs
  highestPriority :=
    if envelope.priority.rank > state.highestPriority.rank then envelope.priority
    else state.highestPriority

/-- Count an envelope in the state of its device. -/
def addDeviceState (devices : DeviceTable) (envelope : IngestEnvelope) : DeviceTable :=
  devices.insert envelope.packet.device
    ((devices.getD envelope.packet.device {}).add envelope)

/-- The state of a device, counted again over the queue. -/
def rebuildDeviceState (devices : DeviceTable) (queue : List IngestEnvelope) (device : DeviceId) :
    DeviceTable :=
  let rebuilt := queue.foldl
    (fun state envelope => if envelope.packet.device ≠ device then state else state.add envelope) {}
  if rebuilt.queuedPackets = 0 then devices.erase device
  else devices.insert device rebuilt

/-- Take an envelope out of the state of its device. -/
def subtractDeviceState (devices : DeviceTable) (queue : List IngestEnvelope)
    (envelope : IngestEnvelope) : DeviceTable :=
  match devices[envelope.packet.device]? with
  | none => devices
  | some found =>
      let state := { found with
        queuedPackets := found.queuedPackets - 1
        queuedPayloadBytes := found.queuedPayloadBytes - envelope.payloadSize }
      if state.queuedPackets = 0 then devices.erase envelope.packet.device
      else if state.highestPriority = envelope.priority
          ∨ state.newestSequence = envelope.packet.sequence.toNat
          ∨ state.lastArrivalTimeNs = envelope.arrivalTimeNs then
        rebuildDeviceState (devices.insert envelope.packet.device state) queue
          envelope.packet.device
      else devices.insert envelope.packet.device state

namespace IngestQueue

/-! ## Operations -/

/-- Publish an event about an envelope, if the queue publishes any. -/
def publish (q : IngestQueue) (kind : RuntimeEventKind) (envelope : IngestEnvelope)
    (message : String) : IngestQueue :=
  if q.config.publishEvents then
    { q with published := q.published ++
        [⟨kind, envelope.arrivalTimeNs, message, envelope.packet⟩] }
  else q

/-- Put an envelope at the end of the queue. -/
def insert (q : IngestQueue) (envelope : IngestEnvelope) : IngestQueue :=
  let q := { q with
    queue := q.queue ++ [envelope]
    devices := addDeviceState q.devices envelope
    stats.queuedPackets := q.queue.length + 1
    stats.queuedPayloadBytes := q.stats.queuedPayloadBytes + envelope.payloadSize }
  q.publish .packetReceived envelope "ingest packet accepted"

/-- The device table is brought up to date against the queue that still holds the envelope. -/
def removeAt (q : IngestQueue) (position : Nat) : IngestQueue :=
  match q.queue[position]? with
  | none => q
  | some envelope =>
      { q with
        queue := q.queue.eraseIdx position
        devices := subtractDeviceState q.devices q.queue envelope
        stats.queuedPackets := (q.queue.eraseIdx position).length
        stats.queuedPayloadBytes := q.stats.queuedPayloadBytes - envelope.payloadSize }

/-- Raise the marks of the largest queue so far. -/
def updateHighWater (q : IngestQueue) : IngestQueue :=
  { q with
    stats.highWaterPackets := max q.stats.highWaterPackets q.queue.length
    stats.highWaterPayloadBytes := max q.stats.highWaterPayloadBytes q.stats.queuedPayloadBytes }

/-- What a push returns that is rejected. -/
def reject (q : IngestQueue) (status : IngestAdmissionStatus) (reason : String) :
    IngestAdmission where
  status := status
  reason := reason
  queueSize := q.queue.length
  payloadBytes := q.stats.queuedPayloadBytes

/-- A queue with the envelope would be over one of its limits. -/
def wouldExceedCapacity (q : IngestQueue) (envelope : IngestEnvelope) : Bool :=
  q.queue.length ≥ q.config.maxPackets
    || q.stats.queuedPayloadBytes + envelope.payloadSize > q.config.maxPayloadBytes

/-- `remove_at(victim); ++stats_.evicted;` -/
def evict (q : IngestQueue) (position : Nat) : IngestQueue :=
  let q := q.removeAt position
  { q with stats.evicted := q.stats.evicted + 1 }

/-- The end of `push`: queue the envelope and report the admission. -/
def acceptEnvelope (q : IngestQueue) (envelope : IngestEnvelope) (status : IngestAdmissionStatus)
    (evicted : Option Packet) : IngestAdmission × IngestQueue :=
  let q := q.insert envelope
  let q := { q with stats.accepted := q.stats.accepted + 1 }
  let q := q.updateHighWater
  ({ status := status
     reason := if status = .accepted then "accepted" else "accepted after replacing older packet"
     evicted := evicted
     queueSize := q.queue.length
     payloadBytes := q.stats.queuedPayloadBytes }, q)

/-- Push an envelope: reject it, or make room as the policy says and insert it. -/
def push (q : IngestQueue) (envelope : IngestEnvelope) : IngestAdmission × IngestQueue :=
  if q.closed then
    let q := { q with
      stats.rejected := q.stats.rejected + 1
      stats.closedRejections := q.stats.closedRejections + 1 }
    (q.reject .rejectedClosed "ingest queue is closed", q)
  else if q.config.rejectEmptyPayload && envelope.packet.payload.isEmpty then
    let q := { q with
      stats.rejected := q.stats.rejected + 1
      stats.payloadRejections := q.stats.payloadRejections + 1 }
    (q.reject .rejectedEmptyPayload "packet payload is empty", q)
  else if envelope.payloadSize > q.config.maxPacketPayloadBytes then
    let q := { q with
      stats.rejected := q.stats.rejected + 1
      stats.payloadRejections := q.stats.payloadRejections + 1 }
    (q.reject .rejectedPayloadTooLarge "packet payload exceeds per-packet limit", q)
  else
    let envelope := envelope.prioritised
    if q.wouldExceedCapacity envelope then
      match selectOverflowVictim q.config.overflowPolicy q.queue envelope with
      | none =>
          let q := { q with
            stats.rejected := q.stats.rejected + 1
            stats.capacityRejections := q.stats.capacityRejections + 1 }
          (q.reject .rejectedQueueFull "ingest queue capacity reached", q)
      | some (victim, position) =>
          (q.evict position).acceptEnvelope envelope
            (if q.config.overflowPolicy = .replaceSameDevice then .replacedOlderPacket
              else .accepted)
            (some victim.packet)
    else q.acceptEnvelope envelope .accepted none

/-- The envelope that would be popped next. -/
def peek (q : IngestQueue) : Option IngestEnvelope :=
  (selectNext q.config.drainMode q.queue).map Prod.fst

/-- The end of `pop`: take the selected envelope out of the queue. -/
def takeAt (q : IngestQueue) (envelope : IngestEnvelope) (position : Nat) : IngestQueue :=
  let q := q.removeAt position
  let q := { q with stats.drained := q.stats.drained + 1 }
  q.publish .packetReceived envelope "ingest packet drained"

/-- Take the next envelope out of the queue. -/
def pop (q : IngestQueue) : Option IngestEnvelope × IngestQueue :=
  match selectNext q.config.drainMode q.queue with
  | none => (none, q)
  | some (envelope, position) => (some envelope, q.takeAt envelope position)

/-- The loop of `drain`, with the number of packets it may still take. -/
def drainLoop (q : IngestQueue) : Nat → List IngestEnvelope × IngestQueue
  | 0 => ([], q)
  | left + 1 =>
      match q.pop with
      | (none, q) => ([], q)
      | (some envelope, q) =>
          let rest := q.drainLoop left
          (envelope :: rest.1, rest.2)

/-- Pop up to a number of envelopes. -/
def drain (q : IngestQueue) (maxPackets : Nat) : IngestDrainResult × IngestQueue :=
  let result := q.drainLoop maxPackets
  (⟨result.1, result.2.queue.length, result.2.stats.queuedPayloadBytes⟩, result.2)

/-! ### The payload budget

The loop ends because every pop takes an envelope out of the queue. -/

end IngestQueue

/-- The selected envelope is at the selected position. -/
theorem getElem?_of_select_next {mode : IngestDrainMode} {queue : List IngestEnvelope}
    {selected : IngestEnvelope × Nat} (h : selectNext mode queue = some selected) :
    queue[selected.2]? = some selected.1 := by
  cases mode with
  | fifo =>
      obtain ⟨envelope, hhead, rfl⟩ := Option.map_eq_some_iff.mp h
      rw [← List.head?_eq_getElem?, hhead]
  | highestPriorityFirst => exact getElem?_of_max_element h
  | earliestDeadlineFirst => exact getElem?_of_min_element h

namespace IngestQueue

@[simp] theorem publish_queue (q : IngestQueue) (kind : RuntimeEventKind)
    (envelope : IngestEnvelope) (message : String) :
    (q.publish kind envelope message).queue = q.queue := by
  unfold publish
  split <;> rfl

/-- A removal at a position of the queue. -/
theorem removeAt_of_getElem? {q : IngestQueue} {position : Nat} {envelope : IngestEnvelope}
    (h : q.queue[position]? = some envelope) :
    q.removeAt position = { q with
      queue := q.queue.eraseIdx position
      devices := subtractDeviceState q.devices q.queue envelope
      stats.queuedPackets := (q.queue.eraseIdx position).length
      stats.queuedPayloadBytes := q.stats.queuedPayloadBytes - envelope.payloadSize } := by
  simp only [removeAt, h]

/-- A pop that returns an envelope shortens the queue. -/
theorem pop_shorter {q q' : IngestQueue} {envelope : IngestEnvelope}
    (h : q.pop = (some envelope, q')) : q'.queue.length < q.queue.length := by
  unfold pop at h
  split at h
  · cases h
  · rename_i selected position hselected
    have hposition := getElem?_of_select_next hselected
    obtain ⟨-, rfl⟩ := Prod.mk.inj h
    have hlt := (List.getElem?_eq_some_iff.mp hposition).1
    rw [takeAt, publish_queue, removeAt_of_getElem? hposition]
    show (q.queue.eraseIdx position).length < q.queue.length
    rw [List.length_eraseIdx_of_lt hlt]
    omega

/-- The loop of `drain_payload_budget`. -/
def drainBudgetLoop (q : IngestQueue) (maxPayloadBytes used : Nat)
    (packets : List IngestEnvelope) : List IngestEnvelope × IngestQueue :=
  match q.peek with
  | none => (packets, q)
  | some next =>
      if !packets.isEmpty && used + next.payloadSize > maxPayloadBytes then (packets, q)
      else if packets.isEmpty && next.payloadSize > maxPayloadBytes then (packets, q)
      else match _h : q.pop with
        | (none, q) => (packets, q)
        | (some removed, q) =>
            q.drainBudgetLoop maxPayloadBytes (used + next.payloadSize) (packets ++ [removed])
termination_by q.queue.length
decreasing_by exact pop_shorter _h

/-- Pop envelopes as long as their payloads stay within a budget. -/
def drainPayloadBudget (q : IngestQueue) (maxPayloadBytes : Nat) :
    IngestDrainResult × IngestQueue :=
  let result := q.drainBudgetLoop maxPayloadBytes 0 []
  (⟨result.1, result.2.queue.length, result.2.stats.queuedPayloadBytes⟩, result.2)

/-- A closed queue rejects every push. -/
def close (q : IngestQueue) : IngestQueue := { q with closed := true }

/-- A queue that takes pushes again. -/
def reopen (q : IngestQueue) : IngestQueue := { q with closed := false }

/-- Forget the envelopes and the devices, and keep the counters. -/
def clear (q : IngestQueue) : IngestQueue :=
  { q with
    queue := []
    devices := ∅
    stats.queuedPackets := 0
    stats.queuedPayloadBytes := 0 }

/-- `devices()`. -/
def deviceSnapshots (q : IngestQueue) : List IngestDeviceSnapshot :=
  q.devices.toList.map fun entry => entry.2.snapshot entry.1

/-- `stats()`. -/
def currentStats (q : IngestQueue) : IngestQueueStats :=
  { q.stats with queuedPackets := q.queue.length }

end IngestQueue

/-! ## Runs -/

/-- The operations that change a queue. -/
inductive IngestOp where
  | push (envelope : IngestEnvelope)
  | pop
  | drain (maxPackets : Nat)
  | drainPayloadBudget (maxPayloadBytes : Nat)
  | clear
  | close
  | reopen

/-- The queue after an operation. -/
def IngestQueue.step (q : IngestQueue) : IngestOp → IngestQueue
  | .push envelope => (q.push envelope).2
  | .pop => q.pop.2
  | .drain maxPackets => (q.drain maxPackets).2
  | .drainPayloadBudget maxPayloadBytes => (q.drainPayloadBudget maxPayloadBytes).2
  | .clear => q.clear
  | .close => q.close
  | .reopen => q.reopen

end Aethon.Runtime
