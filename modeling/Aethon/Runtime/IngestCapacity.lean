import Aethon.Runtime.IngestConservation

/-!
# Capacity

The packet limit holds in every reachable state. The byte limit need not: a full queue evicts one
envelope and admits the new one without comparing them, so an eviction that frees less than the
newcomer takes can leave the queue above the limit. `within_capacity_iff` says that a run stays
within both limits exactly when every eviction frees enough.
-/

namespace Aethon.Runtime

open Protocol Runs

/-- The queue is within its packet limit and its byte limit. -/
def WithinCapacity (q : IngestQueue) : Prop :=
  q.queue.length ≤ q.config.maxPackets ∧ payloadSum q.queue ≤ q.config.maxPayloadBytes

/-- If the push evicts, the queue without the victim has room for the payload of the newcomer. -/
def EvictionFits (q : IngestQueue) : IngestOp → Prop
  | .push envelope => ∀ victim ∈ q.evictedBy envelope,
      payloadSum q.queue - victim.1.payloadSize + envelope.payloadSize ≤ q.config.maxPayloadBytes
  | _ => True

/-- Inferring the priority leaves the payload alone. -/
theorem payloadSize_prioritised (envelope : IngestEnvelope) :
    envelope.prioritised.payloadSize = envelope.payloadSize := by
  unfold IngestEnvelope.prioritised
  split <;> rfl

/-- Taking envelopes out makes the queue no larger. -/
theorem drains_shrinks {q q' : IngestQueue} {removals : List (List IngestEnvelope × IngestEnvelope)}
    (h : IngestQueue.Drains q removals q') :
    q'.config = q.config ∧ q'.queue.length ≤ q.queue.length ∧
      payloadSum q'.queue ≤ payloadSum q.queue := by
  induction h with
  | refl q => exact ⟨rfl, Nat.le_refl _, Nat.le_refl _⟩
  | @take q q' envelope position removals hposition _ ih =>
      obtain ⟨hconfig, hlength, hpayload⟩ := ih
      obtain ⟨hqueue, -, hsame, -⟩ := IngestQueue.take_at_of_getElem? hposition
      have hlt := (List.getElem?_eq_some_iff.mp hposition).1
      rw [hqueue, List.length_eraseIdx_of_lt hlt] at hlength
      rw [hqueue, ← payload_sum_eraseIdx hposition] at hpayload
      exact ⟨hconfig.trans hsame, by omega, by omega⟩

/-- Where there is room, both limits leave room. -/
theorem room_of_not_exceeds {q : IngestQueue} (haccounted : Accounted q) {envelope : IngestEnvelope}
    (h : q.wouldExceedCapacity envelope = false) :
    q.queue.length < q.config.maxPackets ∧
      payloadSum q.queue + envelope.payloadSize ≤ q.config.maxPayloadBytes := by
  unfold IngestQueue.wouldExceedCapacity at h
  rw [Bool.or_eq_false_iff, decide_eq_false_iff_not, decide_eq_false_iff_not,
    haccounted.payload] at h
  omega

/-- A push keeps the packet limit. -/
theorem push_within_packets {q : IngestQueue} (haccounted : Accounted q)
    (hpackets : q.queue.length ≤ q.config.maxPackets) (envelope : IngestEnvelope) :
    (q.push envelope).2.queue.length ≤ (q.push envelope).2.config.maxPackets := by
  have hstep := q.push_step envelope
  generalize q.push envelope = result at hstep ⊢
  cases hstep with
  | rejected => exact hpackets
  | room hroom _ =>
      have hfree := (room_of_not_exceeds haccounted hroom).1
      rw [IngestQueue.accept_envelope_queue, IngestQueue.accept_envelope_config, List.length_append]
      exact hfree
  | evicting victim position status _ hposition _ =>
      -- the newcomer takes the place of the victim
      have hlt := (List.getElem?_eq_some_iff.mp hposition).1
      rw [IngestQueue.accept_envelope_queue, IngestQueue.accept_envelope_config,
        IngestQueue.evict_of_getElem? hposition, List.length_append, List.length_eraseIdx_of_lt hlt,
        List.length_singleton]
      show _ ≤ q.config.maxPackets
      omega

/-- A push stays within the byte limit exactly when it evicts nothing or frees enough. -/
theorem push_within_bytes_iff {q : IngestQueue} (haccounted : Accounted q)
    (hbytes : payloadSum q.queue ≤ q.config.maxPayloadBytes) (envelope : IngestEnvelope) :
    payloadSum (q.push envelope).2.queue ≤ (q.push envelope).2.config.maxPayloadBytes ↔
      ∀ victim ∈ q.evictedBy envelope, payloadSum q.queue - victim.1.payloadSize +
        envelope.payloadSize ≤ q.config.maxPayloadBytes := by
  have hstep := q.push_step envelope
  generalize q.push envelope = result at hstep ⊢
  cases hstep with
  | rejected _ _ _ _ _ _ hnone =>
      rw [hnone]
      exact iff_of_true hbytes fun victim hvictim => by cases hvictim
  | room hroom hnone =>
      rw [hnone]
      have hfree := (room_of_not_exceeds haccounted hroom).2
      refine iff_of_true ?_ fun victim hvictim => by cases hvictim
      rw [IngestQueue.accept_envelope_queue, IngestQueue.accept_envelope_config, payload_sum_append]
      exact hfree
  | evicting victim position status hvictim hposition _ =>
      rw [hvictim, IngestQueue.accept_envelope_queue, IngestQueue.accept_envelope_config,
        IngestQueue.evict_of_getElem? hposition, payload_sum_append,
        ← payload_sum_eraseIdx hposition, payload_sum_cons, payloadSize_prioritised]
      constructor
      · intro hfits other hother
        cases hother
        exact hfits
      · intro hfits
        exact hfits _ rfl

/-- A push leaves the configuration alone. -/
theorem push_config (q : IngestQueue) (envelope : IngestEnvelope) :
    (q.push envelope).2.config = q.config := by
  have hstep := q.push_step envelope
  generalize q.push envelope = result at hstep ⊢
  cases hstep with
  | rejected => rfl
  | room => exact IngestQueue.accept_envelope_config ..
  | evicting victim position status _ hposition _ =>
      rw [IngestQueue.accept_envelope_config, IngestQueue.evict_of_getElem? hposition]

/-- What every operation keeps: the configuration, the account and the packet limit. -/
structure WithinPackets (config : IngestQueueConfig) (q : IngestQueue) : Prop where
  sameConfig : q.config = config
  accounted : Accounted q
  packets : q.queue.length ≤ config.maxPackets

/-- Every operation keeps the packet limit, and stays within both limits exactly when it evicts
nothing or frees enough. -/
theorem step_within {config : IngestQueueConfig} {q : IngestQueue} (h : WithinPackets config q)
    (op : IngestOp) : WithinPackets config (q.step op) ∧
      (WithinCapacity q → (WithinCapacity (q.step op) ↔ EvictionFits q op)) := by
  obtain ⟨rfl, haccounted, hpackets⟩ := h
  have hstep := haccounted.step op
  -- a step made of takings stays within the limits that held
  have hdrains : ∀ {removals}, IngestQueue.Drains q removals (q.step op) → EvictionFits q op →
      WithinPackets q.config (q.step op) ∧
        (WithinCapacity q → (WithinCapacity (q.step op) ↔ EvictionFits q op)) := by
    intro removals hdrains hfits
    obtain ⟨hconfig, hlength, hpayload⟩ := drains_shrinks hdrains
    refine ⟨⟨hconfig, hstep, by omega⟩, fun hq => iff_of_true ?_ hfits⟩
    obtain ⟨-, hbytes⟩ := hq
    unfold WithinCapacity
    rw [hconfig]
    omega
  cases op with
  | push envelope =>
      have hconfig := push_config q envelope
      have hlimit := push_within_packets haccounted hpackets envelope
      refine ⟨⟨hconfig, hstep, ?_⟩, fun hq => ?_⟩
      · rw [← hconfig]
        exact hlimit
      · exact (and_iff_right hlimit).trans (push_within_bytes_iff haccounted hq.2 envelope)
  | pop => exact hdrains q.pop_drains.1 trivial
  | drain maxPackets => exact hdrains (q.drain_loop_drains maxPackets).1 trivial
  | drainPayloadBudget maxPayloadBytes =>
      exact hdrains (q.drain_budget_loop_drains maxPayloadBytes 0 [] (Nat.zero_le _)
        fun _ => rfl).1 trivial
  | clear =>
      exact ⟨⟨rfl, hstep, Nat.zero_le _⟩,
        fun _ => iff_of_true ⟨Nat.zero_le _, Nat.zero_le _⟩ trivial⟩
  | close => exact ⟨⟨rfl, hstep, hpackets⟩, fun hq => iff_of_true hq trivial⟩
  | reopen => exact ⟨⟨rfl, hstep, hpackets⟩, fun hq => iff_of_true hq trivial⟩

/-- **Capacity.** Every state of every run is within the packet limit. All states of a run are
within both limits exactly when every eviction of the run frees enough for the newcomer. -/
theorem within_capacity_iff (config : IngestQueueConfig) (ops : List IngestOp) :
    (∀ n, (run IngestQueue.step { config } (ops.take n)).queue.length ≤ config.maxPackets) ∧
      ((∀ n, WithinCapacity (run IngestQueue.step { config } (ops.take n))) ↔
        Along IngestQueue.step EvictionFits { config } ops) := by
  have hnew : WithinPackets config { config } :=
    ⟨rfl, ⟨{}, conserved_new config⟩, Nat.zero_le _⟩
  have hkeeps : ∀ q op, WithinPackets config q → WithinPackets config (q.step op) :=
    fun q op h => (step_within h op).1
  have hstep : ∀ q, ∀ op ∈ ops, WithinPackets config q → WithinCapacity q →
      (WithinCapacity (q.step op) ↔ EvictionFits q op) :=
    fun q op _ h => (step_within h op).2
  have hempty : WithinCapacity { config } := ⟨Nat.zero_le _, Nat.zero_le _⟩
  exact ⟨fun n => (run_invariant hkeeps hnew (ops.take n)).packets,
    states_iff_along hkeeps hstep hnew hempty⟩

/-- An envelope of the given device, sequence number and payload size. -/
def sampleEnvelope (device : DeviceId) (sequence : UInt32) (size : Nat) : IngestEnvelope where
  packet := { device, sequence, payload := List.replicate size 0 }

/-- With a byte limit of four, payloads of one, three and three bytes: the eviction of the first
frees one byte, and the queue holds six. -/
theorem eviction_exceeds_bytes :
    ¬ WithinCapacity (run IngestQueue.step
      { config := { maxPayloadBytes := 4, overflowPolicy := .dropOldest } }
      [.push (sampleEnvelope 1 1 1), .push (sampleEnvelope 1 2 3),
        .push (sampleEnvelope 1 3 3)]) := by
  intro hwithin
  exact absurd hwithin.2 (by decide)

end Aethon.Runtime
