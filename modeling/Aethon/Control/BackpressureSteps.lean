import Aethon.Control.BackpressureController

/-!
# What a decision can be

A packet is exempt as protected traffic, or falls into the delay window of its device, or is decided
by the level (`decided_of_exempt`, `decided_of_window`, `decided_of_level`). `applied_next`,
`applied_factor`, `applied_delayed` and `applied_packets` say what the decision makes of the state
of the device. The other devices keep theirs.
-/

namespace Aethon.Control

open Protocol

/-- The decisions that a state counts. -/
def DevicePressureState.packets (state : DevicePressureState) : Nat :=
  state.admittedPackets.toNat + state.delayedPackets.toNat + state.downsampledPackets.toNat +
    state.shedPackets.toNat + state.rejectedPackets.toNat

namespace BackpressureController

/-! ## Before a decision -/

section Seen

variable (c : BackpressureController) (packet : Packet) (timeNs : UInt64)

@[simp] theorem seen_next : (c.seen packet timeNs).nextAdmitTimeNs =
    (c.stateOf packet.device).nextAdmitTimeNs := by
  unfold seen
  simp only
  split_ifs <;> rfl

@[simp] theorem seen_factor : (c.seen packet timeNs).currentDownsampleFactor =
    (c.stateOf packet.device).currentDownsampleFactor := by
  unfold seen
  simp only
  split_ifs <;> rfl

@[simp] theorem seen_delayed : (c.seen packet timeNs).delayedPackets =
    (c.stateOf packet.device).delayedPackets := by
  unfold seen
  simp only
  split_ifs <;> rfl

@[simp] theorem seen_packets : (c.seen packet timeNs).packets =
    (c.stateOf packet.device).packets := by
  unfold seen
  simp only
  split_ifs <;> rfl

end Seen

/-! ## The decision -/

section Decided

variable (c : BackpressureController) (packet : Packet) (timeNs : UInt64)

/-- The decision on a packet. -/
def decided : AdmissionDecision :=
  c.makeDecision packet (c.seen packet timeNs) timeNs

/-- The state of its device behind the decision. -/
def applied : DevicePressureState :=
  c.applyDecision (c.seen packet timeNs) (c.decided packet timeNs) timeNs

/-- The packet is accepted as protected traffic. -/
def exempt : Bool :=
  c.isProtected packet && c.level ≠ .stop

variable {c packet timeNs}

theorem decided_of_exempt (h : c.exempt packet = true) : c.decided packet timeNs =
    ⟨.accept, c.level, 0, 1, deviceReason packet "accepted as protected control traffic"⟩ :=
  if_pos h

/-- The decision about a packet that is not exempt. -/
theorem make_decision_of_not_exempt (h : c.exempt packet = false) (device : DevicePressureState) :
    c.makeDecision packet device timeNs =
      if timeNs < device.nextAdmitTimeNs then
        ⟨.delay, c.level, device.nextAdmitTimeNs - timeNs, device.currentDownsampleFactor,
          deviceReason packet "is still inside a prior delay window"⟩
      else c.decideByLevel packet device :=
  if_neg (Bool.not_eq_true _ ▸ h)

/-- In its window a device is delayed until the end of the window. -/
theorem decided_of_window (h : c.exempt packet = false)
    (hwindow : timeNs < (c.stateOf packet.device).nextAdmitTimeNs) : c.decided packet timeNs =
      ⟨.delay, c.level, (c.stateOf packet.device).nextAdmitTimeNs - timeNs,
        (c.stateOf packet.device).currentDownsampleFactor,
        deviceReason packet "is still inside a prior delay window"⟩ := by
  rw [decided, make_decision_of_not_exempt h, seen_next, seen_factor, if_pos hwindow]

theorem decided_of_level (h : c.exempt packet = false)
    (hwindow : ¬timeNs < (c.stateOf packet.device).nextAdmitTimeNs) :
    c.decided packet timeNs = c.decideByLevel packet (c.seen packet timeNs) := by
  rw [decided, make_decision_of_not_exempt h, seen_next, if_neg hwindow]

end Decided

/-! ## Behind the decision -/

section Applied

variable (c : BackpressureController) (packet : Packet) (timeNs : UInt64)

/-- When a device may send again, by the action. -/
theorem applied_next : (c.applied packet timeNs).nextAdmitTimeNs =
    match (c.decided packet timeNs).action with
    | .accept | .downsample | .shed => timeNs
    | .delay => timeNs + (c.decided packet timeNs).delayNs
    | .reject => timeNs + c.config.maxDelayNs := by
  unfold applied applyDecision
  cases (c.decided packet timeNs).action <;> rfl

/-- How the factor of a device changes, by the action. -/
theorem applied_factor : (c.applied packet timeNs).currentDownsampleFactor =
    match (c.decided packet timeNs).action with
    | .accept => 1
    | .delay | .shed => (c.stateOf packet.device).currentDownsampleFactor
    | .downsample | .reject => max 1 (c.decided packet timeNs).downsampleFactor := by
  rw [← c.seen_factor packet timeNs]
  unfold applied applyDecision
  cases (c.decided packet timeNs).action <;> rfl

/-- Only a delay is counted as one. -/
theorem applied_delayed : (c.applied packet timeNs).delayedPackets =
    if (c.decided packet timeNs).action = .delay then
      (c.stateOf packet.device).delayedPackets + 1
    else (c.stateOf packet.device).delayedPackets := by
  rw [← c.seen_delayed packet timeNs]
  unfold applied applyDecision
  cases (c.decided packet timeNs).action <;> rfl

/-- A decision is counted, unless its counter wraps. -/
theorem applied_packets : (c.applied packet timeNs).packets % 2 ^ 64 =
      ((c.stateOf packet.device).packets + 1) % 2 ^ 64 ∧
    ((c.stateOf packet.device).packets + 1 < 2 ^ 64 →
      (c.applied packet timeNs).packets = (c.stateOf packet.device).packets + 1) := by
  have hcount : ∀ counter : UInt64, (counter + 1).toNat = (counter.toNat + 1) % 2 ^ 64 :=
    fun counter => counter.toNat_add 1
  rw [← c.seen_packets packet timeNs]
  unfold applied applyDecision DevicePressureState.packets
  cases (c.decided packet timeNs).action <;> simp only [hcount] <;> omega

end Applied

/-- A call leaves the states of the other devices. -/
theorem state_of_decide (c : BackpressureController) (packet : Packet) (timeNs : UInt64)
    (device : DeviceId) : (c.decide packet timeNs).2.stateOf device =
      if device = packet.device then c.applied packet timeNs else c.stateOf device := by
  show ((c.devices.insert packet.device (c.applied packet timeNs)).lookup device).getD {} = _
  rw [SortedTable.lookup_insert]
  split_ifs <;> rfl

end BackpressureController

end Aethon.Control
