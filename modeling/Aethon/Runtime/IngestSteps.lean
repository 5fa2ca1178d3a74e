import Aethon.Runtime.IngestQueue

/-!
# What the queue operations can do

Every operation is made of admissions, evictions and takings. `push_step` lists the outcomes of
`push`, and the three ways of draining are all sequences of takings (`pop_drains`,
`drain_loop_drains`, `drain_budget_loop_drains`), given by the queue contents alone. Invariants are
proved from these and never unfold an operation.
-/

namespace Aethon.Runtime

open Protocol Extremum

/-! ## Selected positions -/

/-- The oldest envelope of a device is at the position found. -/
theorem getElem?_of_oldest_of_device {device : DeviceId} {queue : List IngestEnvelope}
    {found : IngestEnvelope × Nat} (h : oldestOfDevice device queue = some found) :
    queue[found.2]? = some found.1 := by
  have hchoose : ∀ candidate entry, olderOfDevice device candidate entry = candidate ∨
      olderOfDevice device candidate entry = some entry := by
    intro candidate entry
    unfold olderOfDevice
    split
    · exact .inl rfl
    · split
      · exact .inr rfl
      · split
        · exact .inr rfl
        · exact .inl rfl
  rcases foldl_choose hchoose queue.zipIdx with hnone | ⟨entry, hentry, heq⟩
  · cases hnone.symm.trans h
  · cases heq.symm.trans h
    exact List.mk_mem_zipIdx_iff_getElem?.mp hentry

/-- The victim is at the selected position. -/
theorem getElem?_of_select_overflow_victim {policy : IngestOverflowPolicy}
    {queue : List IngestEnvelope} {incoming : IngestEnvelope} {selected : IngestEnvelope × Nat}
    (h : selectOverflowVictim policy queue incoming = some selected) :
    queue[selected.2]? = some selected.1 := by
  cases policy with
  | rejectNew => cases h
  | dropOldest =>
      obtain ⟨envelope, hhead, rfl⟩ := Option.map_eq_some_iff.mp h
      rw [← List.head?_eq_getElem?, hhead]
  | dropLowestPriority => exact getElem?_of_min_element h
  | replaceSameDevice => exact getElem?_of_oldest_of_device h

namespace IngestQueue

/-! ## Small operations, field by field -/

section Fields

variable (q : IngestQueue) (kind : RuntimeEventKind) (envelope : IngestEnvelope)
  (message : String) (status : IngestAdmissionStatus) (evicted : Option Packet)

@[simp] theorem publish_devices : (q.publish kind envelope message).devices = q.devices := by
  unfold publish
  split <;> rfl

@[simp] theorem publish_stats : (q.publish kind envelope message).stats = q.stats := by
  unfold publish
  split <;> rfl

@[simp] theorem publish_config : (q.publish kind envelope message).config = q.config := by
  unfold publish
  split <;> rfl

@[simp] theorem accept_envelope_queue :
    (q.acceptEnvelope envelope status evicted).2.queue = q.queue ++ [envelope] := by
  simp [acceptEnvelope, updateHighWater, insert]

@[simp] theorem accept_envelope_devices :
    (q.acceptEnvelope envelope status evicted).2.devices = addDeviceState q.devices envelope := by
  simp [acceptEnvelope, updateHighWater, insert]

@[simp] theorem accept_envelope_config :
    (q.acceptEnvelope envelope status evicted).2.config = q.config := by
  simp [acceptEnvelope, updateHighWater, insert]

/-- The counters that an admission moves, besides the high-water marks. -/
theorem accept_envelope_stats :
    (q.acceptEnvelope envelope status evicted).2.stats.accepted = q.stats.accepted + 1 ∧
      (q.acceptEnvelope envelope status evicted).2.stats.evicted = q.stats.evicted ∧
      (q.acceptEnvelope envelope status evicted).2.stats.drained = q.stats.drained ∧
      (q.acceptEnvelope envelope status evicted).2.stats.queuedPayloadBytes =
        q.stats.queuedPayloadBytes + envelope.payloadSize := by
  simp [acceptEnvelope, updateHighWater, insert]

end Fields

/-- An eviction at a position of the queue. -/
theorem evict_of_getElem? {q : IngestQueue} {position : Nat} {envelope : IngestEnvelope}
    (h : q.queue[position]? = some envelope) :
    q.evict position = { q with
      queue := q.queue.eraseIdx position
      devices := subtractDeviceState q.devices q.queue envelope
      stats := { q.stats with
        evicted := q.stats.evicted + 1
        queuedPackets := (q.queue.eraseIdx position).length
        queuedPayloadBytes := q.stats.queuedPayloadBytes - envelope.payloadSize } } := by
  rw [evict, removeAt_of_getElem? h]

/-- What a taking leaves, besides the published events. -/
theorem take_at_of_getElem? {q : IngestQueue} {position : Nat} {envelope : IngestEnvelope}
    (h : q.queue[position]? = some envelope) :
    (q.takeAt envelope position).queue = q.queue.eraseIdx position ∧
      (q.takeAt envelope position).devices = subtractDeviceState q.devices q.queue envelope ∧
      (q.takeAt envelope position).config = q.config ∧
      (q.takeAt envelope position).stats = { q.stats with
        drained := q.stats.drained + 1
        queuedPackets := (q.queue.eraseIdx position).length
        queuedPayloadBytes := q.stats.queuedPayloadBytes - envelope.payloadSize } := by
  simp [takeAt, removeAt_of_getElem? h]

/-! ## Push -/

/-- The envelope that `push` evicts for another one, with its position. -/
def evictedBy (q : IngestQueue) (envelope : IngestEnvelope) : Option (IngestEnvelope × Nat) :=
  if q.closed || (q.config.rejectEmptyPayload && envelope.packet.payload.isEmpty)
      || envelope.payloadSize > q.config.maxPacketPayloadBytes
      || !q.wouldExceedCapacity envelope.prioritised then none
  else selectOverflowVictim q.config.overflowPolicy q.queue envelope.prioritised

/-- What a push can do: be rejected, which moves rejection counters only, be admitted where there is
room, or evict a victim and then be admitted. -/
inductive PushStep (q : IngestQueue) (envelope : IngestEnvelope) :
    IngestAdmission × IngestQueue → Prop
  | rejected (admission : IngestAdmission) (rejected closed payload capacity : Nat) :
      ¬ admission.status.Admits → q.evictedBy envelope = none →
      PushStep q envelope (admission, { q with stats := { q.stats with
        rejected := rejected
        closedRejections := closed
        payloadRejections := payload
        capacityRejections := capacity } })
  | room : q.wouldExceedCapacity envelope.prioritised = false → q.evictedBy envelope = none →
      PushStep q envelope (q.acceptEnvelope envelope.prioritised .accepted none)
  | evicting (victim : IngestEnvelope) (position : Nat) (status : IngestAdmissionStatus) :
      q.evictedBy envelope = some (victim, position) → q.queue[position]? = some victim →
      status.Admits → PushStep q envelope
        ((q.evict position).acceptEnvelope envelope.prioritised status (some victim.packet))

/-- What a push does: it rejects, or evicts and appends. -/
theorem push_step (q : IngestQueue) (envelope : IngestEnvelope) :
    PushStep q envelope (q.push envelope) := by
  unfold push
  by_cases hclosed : q.closed = true
  · rw [if_pos hclosed]
    exact .rejected _ _ _ _ _ (by simp [reject, IngestAdmissionStatus.Admits])
      (by simp [evictedBy, hclosed])
  rw [if_neg hclosed]
  by_cases hempty : (q.config.rejectEmptyPayload && envelope.packet.payload.isEmpty) = true
  · rw [if_pos hempty]
    exact .rejected _ _ _ _ _ (by simp [reject, IngestAdmissionStatus.Admits])
      (by rw [evictedBy, hempty]; simp)
  rw [if_neg hempty]
  by_cases hlarge : envelope.payloadSize > q.config.maxPacketPayloadBytes
  · rw [if_pos hlarge]
    exact .rejected _ _ _ _ _ (by simp [reject, IngestAdmissionStatus.Admits])
      (by simp [evictedBy, hlarge])
  rw [if_neg hlarge]
  by_cases hexceeds : q.wouldExceedCapacity envelope.prioritised = true
  · have hevicted : q.evictedBy envelope =
        selectOverflowVictim q.config.overflowPolicy q.queue envelope.prioritised := by
      rw [evictedBy, if_neg (by simp [hclosed, hempty, hlarge, hexceeds])]
    simp only [hexceeds, if_true]
    split
    · rename_i hnone
      exact .rejected _ _ _ _ _ (by simp [reject, IngestAdmissionStatus.Admits])
        (hevicted.trans hnone)
    · rename_i victim position hvictim
      refine .evicting victim position _ (hevicted.trans hvictim)
        (getElem?_of_select_overflow_victim hvictim) ?_
      split
      · exact .inr rfl
      · exact .inl rfl
  · have hroom : q.wouldExceedCapacity envelope.prioritised = false := by
      simpa using hexceeds
    simp only [hroom, Bool.false_eq_true, if_false]
    exact .room hroom (by simp [evictedBy, hroom])

/-! ## Draining -/

/-- The first removals of a drain, from the queue contents: each removed envelope with the queue it
is removed from. -/
def drainOrder (mode : IngestDrainMode) :
    Nat → List IngestEnvelope → List (List IngestEnvelope × IngestEnvelope)
  | 0, _ => []
  | left + 1, queue =>
      match selectNext mode queue with
      | none => []
      | some (envelope, position) =>
          (queue, envelope) :: drainOrder mode left (queue.eraseIdx position)

/-- The removals that a payload budget covers. -/
def withinBudget : Nat → List (List IngestEnvelope × IngestEnvelope) →
    List (List IngestEnvelope × IngestEnvelope)
  | _, [] => []
  | budget, removal :: removals =>
      if removal.2.payloadSize ≤ budget then
        removal :: withinBudget (budget - removal.2.payloadSize) removals
      else []

/-- `Drains q removals q'` says that taking the selected envelope again and again makes these
removals and leaves `q'`. -/
inductive Drains : IngestQueue → List (List IngestEnvelope × IngestEnvelope) → IngestQueue → Prop
  | refl (q : IngestQueue) : Drains q [] q
  | take {q q' : IngestQueue} {envelope : IngestEnvelope} {position : Nat}
      {removals : List (List IngestEnvelope × IngestEnvelope)} :
      q.queue[position]? = some envelope → Drains (q.takeAt envelope position) removals q' →
      Drains q ((q.queue, envelope) :: removals) q'

theorem pop_of_none {q : IngestQueue} (h : selectNext q.config.drainMode q.queue = none) :
    q.pop = (none, q) := by
  simp only [pop, h]

theorem pop_of_some {q : IngestQueue} {envelope : IngestEnvelope} {position : Nat}
    (h : selectNext q.config.drainMode q.queue = some (envelope, position)) :
    q.pop = (some envelope, q.takeAt envelope position) := by
  simp only [pop, h]

/-- The loop of `drain` makes the first removals of the drain order and returns their envelopes. -/
theorem drain_loop_drains (q : IngestQueue) (left : Nat) :
    Drains q (drainOrder q.config.drainMode left q.queue) (q.drainLoop left).2 ∧
      (q.drainLoop left).1 = (drainOrder q.config.drainMode left q.queue).map Prod.snd := by
  induction left generalizing q with
  | zero => exact ⟨.refl q, rfl⟩
  | succ left ih =>
      cases hselected : selectNext q.config.drainMode q.queue with
      | none =>
          simp only [drainLoop, drainOrder, pop_of_none hselected, hselected]
          exact ⟨.refl q, rfl⟩
      | some selected =>
          obtain ⟨envelope, position⟩ := selected
          have hposition := getElem?_of_select_next hselected
          obtain ⟨hqueue, -, hconfig, -⟩ := take_at_of_getElem? hposition
          obtain ⟨hdrains, hpackets⟩ := ih (q.takeAt envelope position)
          rw [hqueue, hconfig] at hdrains hpackets
          simp only [drainLoop, drainOrder, pop_of_some hselected, hselected]
          exact ⟨.take hposition hdrains, by rw [hpackets, List.map_cons]⟩

/-- A pop makes the first removal of the drain order. -/
theorem pop_drains (q : IngestQueue) :
    Drains q (drainOrder q.config.drainMode 1 q.queue) q.pop.2 ∧
      q.pop.1.toList = (drainOrder q.config.drainMode 1 q.queue).map Prod.snd := by
  cases hselected : selectNext q.config.drainMode q.queue with
  | none =>
      simp only [drainOrder, pop_of_none hselected, hselected]
      exact ⟨.refl q, rfl⟩
  | some selected =>
      simp only [drainOrder, pop_of_some hselected, hselected]
      exact ⟨.take (getElem?_of_select_next hselected) (.refl _), rfl⟩

/-- A whole drain starts with the selected envelope. -/
theorem drain_order_of_some {mode : IngestDrainMode} {queue : List IngestEnvelope}
    {envelope : IngestEnvelope} {position : Nat}
    (h : selectNext mode queue = some (envelope, position)) :
    drainOrder mode queue.length queue = (queue, envelope) ::
      drainOrder mode (queue.eraseIdx position).length (queue.eraseIdx position) := by
  have hlt := (List.getElem?_eq_some_iff.mp (getElem?_of_select_next h)).1
  obtain ⟨left, hleft⟩ : ∃ left, queue.length = left + 1 := ⟨queue.length - 1, by omega⟩
  have herase : (queue.eraseIdx position).length = left := by
    rw [List.length_eraseIdx_of_lt hlt]
    omega
  rw [hleft, herase]
  simp only [drainOrder, h]

theorem drain_order_of_none {mode : IngestDrainMode} {queue : List IngestEnvelope}
    (h : selectNext mode queue = none) (left : Nat) : drainOrder mode left queue = [] := by
  cases left with
  | zero => rfl
  | succ left => simp only [drainOrder, h]

/-- The loop of `drain_payload_budget` makes the removals that the rest of the budget covers. -/
theorem drain_budget_loop_drains (q : IngestQueue) (maxPayloadBytes used : Nat)
    (packets : List IngestEnvelope) (hused : used ≤ maxPayloadBytes)
    (hempty : packets.isEmpty = true → used = 0) :
    Drains q (withinBudget (maxPayloadBytes - used)
        (drainOrder q.config.drainMode q.queue.length q.queue))
        (q.drainBudgetLoop maxPayloadBytes used packets).2 ∧
      (q.drainBudgetLoop maxPayloadBytes used packets).1 = packets ++
        (withinBudget (maxPayloadBytes - used)
          (drainOrder q.config.drainMode q.queue.length q.queue)).map Prod.snd := by
  -- an envelope above the rest of the budget ends both the loop and the removals
  have hstops : ∀ {q : IngestQueue} {used : Nat} {packets : List IngestEnvelope}
      {next : IngestEnvelope}, q.peek = some next → ¬ next.payloadSize ≤ maxPayloadBytes - used →
      Drains q (withinBudget (maxPayloadBytes - used)
          (drainOrder q.config.drainMode q.queue.length q.queue)) q ∧
        packets = packets ++ (withinBudget (maxPayloadBytes - used)
          (drainOrder q.config.drainMode q.queue.length q.queue)).map Prod.snd := by
    intro q used packets next hpeek hover
    obtain ⟨⟨envelope, position⟩, hselected, rfl⟩ := Option.map_eq_some_iff.mp hpeek
    rw [drain_order_of_some hselected, withinBudget, if_neg hover]
    exact ⟨.refl q, (List.append_nil packets).symm⟩
  fun_induction q.drainBudgetLoop maxPayloadBytes used packets with
  | case1 q used packets hpeek =>
      rw [drain_order_of_none (Option.map_eq_none_iff.mp hpeek)]
      exact ⟨.refl q, (List.append_nil packets).symm⟩
  | case2 q used packets next hpeek hover =>
      simp only [Bool.and_eq_true, decide_eq_true_eq] at hover
      exact hstops hpeek (by omega)
  | case3 q used packets next hpeek _ hover =>
      simp only [Bool.and_eq_true, decide_eq_true_eq] at hover
      have hzero := hempty hover.1
      exact hstops hpeek (by omega)
  | case4 q used packets next hpeek _ _ q' hpop =>
      obtain ⟨⟨envelope, position⟩, hselected, -⟩ := Option.map_eq_some_iff.mp hpeek
      rw [pop_of_some hselected] at hpop
      cases hpop
  | case5 q used packets next hpeek hnonempty hfirst removed q' hpop ih =>
      obtain ⟨⟨envelope, position⟩, hselected, rfl⟩ := Option.map_eq_some_iff.mp hpeek
      rw [pop_of_some hselected] at hpop
      cases hpop
      have hposition := getElem?_of_select_next hselected
      obtain ⟨hqueue, -, hconfig, -⟩ := take_at_of_getElem? hposition
      -- the first packet is checked against the whole budget, a later one with what is used
      have hfits : used + removed.payloadSize ≤ maxPayloadBytes := by
        simp only [Bool.and_eq_true, Bool.not_eq_true', decide_eq_true_eq, not_and,
          Nat.not_lt] at hnonempty hfirst
        cases hpackets : packets.isEmpty with
        | false => exact hnonempty hpackets
        | true =>
            have hzero := hempty hpackets
            have hsize : removed.payloadSize ≤ maxPayloadBytes := hfirst hpackets
            omega
      obtain ⟨hdrains, hresult⟩ := ih hfits (by simp)
      rw [hqueue, hconfig, Nat.sub_add_eq] at hdrains hresult
      have hcovered : removed.payloadSize ≤ maxPayloadBytes - used := by omega
      rw [drain_order_of_some hselected, withinBudget, if_pos hcovered]
      refine ⟨.take hposition hdrains, ?_⟩
      rw [hresult, List.map_cons, List.append_assoc, List.singleton_append]

/-! ## Steps -/

/-- The removals that an operation makes, from the state before it: each removed envelope with the
queue it is removed from. -/
def removals (q : IngestQueue) : IngestOp → List (List IngestEnvelope × IngestEnvelope)
  | .push envelope => (q.evictedBy envelope).toList.map fun victim => (q.queue, victim.1)
  | .pop => drainOrder q.config.drainMode 1 q.queue
  | .drain maxPackets => drainOrder q.config.drainMode maxPackets q.queue
  | .drainPayloadBudget maxPayloadBytes =>
      withinBudget maxPayloadBytes (drainOrder q.config.drainMode q.queue.length q.queue)
  | .clear | .close | .reopen => []

end IngestQueue

end Aethon.Runtime
