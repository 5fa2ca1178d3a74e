import Aethon.Foundation.Runs
import Aethon.Foundation.SortedTable
import Aethon.Protocol.Types

/-!
# The backpressure controller

`control::BackpressureController`: packets are admitted, delayed, thinned out or rejected by the
pressure on the queue, with a delay window and a downsampling factor for each device. Counters,
times, delays and factors are words of the source's widths.

The level is a ratio of floating-point numbers compared with thresholds. `observe` stands for the
calls that set it, and takes the level they arrive at; the sample behind it is left out.
-/

namespace Aethon.Control

open Protocol

/-- The levels of pressure, from none to a full stop. -/
inductive PressureLevel where
  | nominal
  | watch
  | throttle
  | shed
  | stop
  deriving DecidableEq, Repr

/-- What becomes of a packet. -/
inductive AdmissionAction where
  | accept
  | delay
  | downsample
  | shed
  | reject
  deriving DecidableEq, Repr

/-- The limits of delays and factors. -/
structure BackpressureConfig where
  minDelayNs : UInt64 := 50000
  maxDelayNs : UInt64 := 50000000
  maxDownsampleFactor : UInt32 := 16
  protectControlPackets : Bool := true
  deriving DecidableEq, Repr

/-- What the controller remembers of a device. -/
structure DevicePressureState where
  device : DeviceId := 0
  lastSeenNs : UInt64 := 0
  admittedPackets : UInt64 := 0
  delayedPackets : UInt64 := 0
  downsampledPackets : UInt64 := 0
  shedPackets : UInt64 := 0
  rejectedPackets : UInt64 := 0
  currentDownsampleFactor : UInt32 := 1
  nextAdmitTimeNs : UInt64 := 0
  lastLevel : PressureLevel := .nominal
  deriving DecidableEq, Repr

/-- What becomes of a packet, and why. -/
structure AdmissionDecision where
  action : AdmissionAction := .accept
  pressure : PressureLevel := .nominal
  delayNs : UInt64 := 0
  downsampleFactor : UInt32 := 1
  reason : String
  deriving DecidableEq, Repr

/-- The level of pressure and the devices that were seen. -/
structure BackpressureController where
  config : BackpressureConfig := {}
  level : PressureLevel := .nominal
  devices : SortedTable DeviceId DevicePressureState := ∅
  decisions : UInt64 := 0

/-- A delay between two bounds, of which the lower one goes first. -/
def clampDelay (delay minDelay maxDelay : UInt64) : UInt64 :=
  if delay < minDelay then minDelay
  else if delay > maxDelay then maxDelay
  else delay

/-- The reason of a decision about a packet of a device. -/
def deviceReason (packet : Packet) (suffix : String) : String :=
  "device " ++ toString packet.device ++ " " ++ suffix

namespace BackpressureController

/-! ## Decisions -/

/-- A packet whose kind is protected, if the configuration protects any. -/
def isProtected (c : BackpressureController) (packet : Packet) : Bool :=
  c.config.protectControlPackets &&
    (packet.kind = .control || packet.kind = .heartbeat || packet.kind = .capabilities)

/-- The delay of a level, times the packets that were delayed (at most 32) and kept in the bounds.
-/
def delayFor (c : BackpressureController) (level : PressureLevel) (device : DevicePressureState) :
    UInt64 :=
  let repeats := min (device.delayedPackets + 1) 32
  let base := match level with
    | .nominal | .watch => 0
    | .throttle => c.config.minDelayNs * 2
    | .shed => c.config.minDelayNs * 8
    | .stop => c.config.maxDelayNs
  if base = 0 then 0
  else clampDelay (base * repeats) c.config.minDelayNs c.config.maxDelayNs

/-- The factor of a level, twice the last one where packets are shed, kept in its bound. -/
def downsampleFor (c : BackpressureController) (level : PressureLevel)
    (device : DevicePressureState) : UInt32 :=
  let factor := match level with
    | .nominal | .watch | .throttle => 1
    | .shed => max 2 (device.currentDownsampleFactor * 2)
    | .stop => c.config.maxDownsampleFactor
  min factor c.config.maxDownsampleFactor

/-- The switch of `make_decision`. -/
def decideByLevel (c : BackpressureController) (packet : Packet) (device : DevicePressureState) :
    AdmissionDecision :=
  match c.level with
  | .nominal => ⟨.accept, c.level, 0, 1, deviceReason packet "accepted under nominal pressure"⟩
  | .watch => ⟨.accept, c.level, 0, 1, deviceReason packet "accepted while pressure is watched"⟩
  | .throttle => ⟨.delay, c.level, c.delayFor c.level device, device.currentDownsampleFactor,
      deviceReason packet "delayed by throttle pressure"⟩
  | .shed => ⟨.downsample, c.level, 0, c.downsampleFor c.level device,
      deviceReason packet "downsampled by shed pressure"⟩
  | .stop => ⟨.reject, c.level, 0, c.config.maxDownsampleFactor,
      deviceReason packet "rejected by stop pressure"⟩

/-- The decision about a packet of a device at the current level. -/
def makeDecision (c : BackpressureController) (packet : Packet) (device : DevicePressureState)
    (timeNs : UInt64) : AdmissionDecision :=
  if c.isProtected packet && c.level ≠ .stop then
    ⟨.accept, c.level, 0, 1, deviceReason packet "accepted as protected control traffic"⟩
  else if timeNs < device.nextAdmitTimeNs then
    ⟨.delay, c.level, device.nextAdmitTimeNs - timeNs, device.currentDownsampleFactor,
      deviceReason packet "is still inside a prior delay window"⟩
  else c.decideByLevel packet device

/-- Count a decision in the state of the device. -/
def applyDecision (c : BackpressureController) (device : DevicePressureState)
    (decision : AdmissionDecision) (timeNs : UInt64) : DevicePressureState :=
  let device := { device with lastLevel := decision.pressure }
  match decision.action with
  | .accept => { device with
      admittedPackets := device.admittedPackets + 1
      currentDownsampleFactor := 1
      nextAdmitTimeNs := timeNs }
  | .delay => { device with
      delayedPackets := device.delayedPackets + 1
      nextAdmitTimeNs := timeNs + decision.delayNs }
  | .downsample => { device with
      downsampledPackets := device.downsampledPackets + 1
      currentDownsampleFactor := max 1 decision.downsampleFactor
      nextAdmitTimeNs := timeNs }
  | .shed => { device with
      shedPackets := device.shedPackets + 1
      nextAdmitTimeNs := timeNs }
  | .reject => { device with
      rejectedPackets := device.rejectedPackets + 1
      currentDownsampleFactor := max 1 decision.downsampleFactor
      nextAdmitTimeNs := timeNs + c.config.maxDelayNs }

/-- The state that `decide` finds for a device; the map makes one for a new device. -/
def stateOf (c : BackpressureController) (device : DeviceId) : DevicePressureState :=
  (c.devices.lookup device).getD {}

/-- The state as `decide` hands it to `make_decision`. -/
def seen (c : BackpressureController) (packet : Packet) (timeNs : UInt64) : DevicePressureState :=
  let device := c.stateOf packet.device
  let device :=
    if device.device = 0 ∧ packet.device ≠ 0 then { device with device := packet.device }
    else device
  let device := if device.device = 0 then { device with device := packet.device } else device
  { device with lastSeenNs := timeNs, lastLevel := c.level }

/-- Decide about a packet and remember it. -/
def decide (c : BackpressureController) (packet : Packet) (timeNs : UInt64) :
    AdmissionDecision × BackpressureController :=
  let device := c.seen packet timeNs
  let decision := c.makeDecision packet device timeNs
  (decision, { c with
    devices := c.devices.insert packet.device (c.applyDecision device decision timeNs)
    decisions := c.decisions + 1 })

/-- `observe_sample`, and with it `observe_queue` and `note_batch_completed`. -/
def observe (c : BackpressureController) (level : PressureLevel) : BackpressureController :=
  { c with level := level }

end BackpressureController

/-! ## Runs -/

/-- A packet that is offered at a time, under the pressure that is observed before. -/
structure Offer where
  level : PressureLevel
  packet : Packet
  timeNs : UInt64

/-- The answer to an offer, and the controller after it. -/
def BackpressureController.answer (c : BackpressureController) (offer : Offer) :
    AdmissionDecision × BackpressureController :=
  (c.observe offer.level).decide offer.packet offer.timeNs

/-- The controller after an offer. -/
def BackpressureController.step (c : BackpressureController) (offer : Offer) :
    BackpressureController :=
  (c.answer offer).2

end Aethon.Control
