import Mathlib.Algebra.GroupWithZero.Nat
import Mathlib.Data.List.Perm.Basic
import Aethon.Foundation.Runs
import Aethon.Runtime.IngestSteps

/-!
# Conservation

No envelope is lost or invented by the queue. The ledger records, beside a run, which envelopes the
queue accepted and which left it by a drain, an eviction or a clear. `queue_conserves` says that
after every run these and the queue hold the accepted envelopes, that the counters count them and
that the payload total is the sum over the queue.
-/

namespace Aethon.Runtime

open Protocol Runs

instance (status : IngestAdmissionStatus) : Decidable status.Admits :=
  inferInstanceAs (Decidable (_ ∨ _))

/-- The envelopes that entered and left the queue so far. -/
structure Ledger where
  accepted : List IngestEnvelope := []
  popped : List IngestEnvelope := []
  evicted : List IngestEnvelope := []
  cleared : List IngestEnvelope := []

/-- The ledger after an operation on the queue. -/
def Ledger.record (ledger : Ledger) (q : IngestQueue) : IngestOp → Ledger
  | .push envelope =>
      if (q.push envelope).1.status.Admits then
        { ledger with
          accepted := ledger.accepted ++ [envelope.prioritised]
          evicted := ledger.evicted ++ (q.evictedBy envelope).toList.map Prod.fst }
      else ledger
  | .pop => { ledger with popped := ledger.popped ++ q.pop.1.toList }
  | .drain maxPackets =>
      { ledger with popped := ledger.popped ++ (q.drain maxPackets).1.packets }
  | .drainPayloadBudget maxPayloadBytes =>
      { ledger with
        popped := ledger.popped ++ (q.drainPayloadBudget maxPayloadBytes).1.packets }
  | .clear => { ledger with cleared := ledger.cleared ++ q.queue }
  | .close | .reopen => ledger

/-- A queue with its ledger, one operation later. -/
def recordedStep (s : IngestQueue × Ledger) (op : IngestOp) : IngestQueue × Ledger :=
  (s.1.step op, s.2.record s.1 op)

/-- The payload bytes of a list of envelopes. -/
def payloadSum (envelopes : List IngestEnvelope) : Nat :=
  (envelopes.map IngestEnvelope.payloadSize).sum

/-- The queue and its ledger account for every accepted envelope. -/
structure Conserved (s : IngestQueue × Ledger) : Prop where
  accepted : s.1.stats.accepted = s.2.accepted.length
  drained : s.1.stats.drained = s.2.popped.length
  evicted : s.1.stats.evicted = s.2.evicted.length
  payload : s.1.stats.queuedPayloadBytes = payloadSum s.1.queue
  envelopes : (s.2.popped ++ s.2.evicted ++ s.2.cleared ++ s.1.queue).Perm s.2.accepted

/-! ## One step -/

/-- Taking an element out of a list splits the list, up to its order. -/
theorem perm_of_getElem? {α : Type} {xs : List α} {position : Nat} {x : α}
    (h : xs[position]? = some x) : xs.Perm (x :: xs.eraseIdx position) := by
  obtain ⟨hlt, rfl⟩ := List.getElem?_eq_some_iff.mp h
  exact (List.getElem_cons_eraseIdx_perm hlt).symm

/-- Moving one element of the last list to the end of the first changes only the order. -/
theorem perm_moved {α : Type} {first second queue all : List α} {position : Nat} {x : α}
    (h : queue[position]? = some x) (hall : (first ++ (second ++ queue)).Perm all) :
    (first ++ x :: (second ++ queue.eraseIdx position)).Perm all := by
  have hmiddle : (x :: (second ++ queue.eraseIdx position)).Perm
      (second ++ x :: queue.eraseIdx position) := List.perm_middle.symm
  have hqueue : (second ++ x :: queue.eraseIdx position).Perm (second ++ queue) :=
    (perm_of_getElem? h).symm.append_left second
  exact ((hmiddle.trans hqueue).append_left first).trans hall

theorem payload_sum_perm {first second : List IngestEnvelope} (h : first.Perm second) :
    payloadSum first = payloadSum second :=
  (h.map _).sum_nat

@[simp] theorem payload_sum_cons (envelope : IngestEnvelope) (envelopes : List IngestEnvelope) :
    payloadSum (envelope :: envelopes) = envelope.payloadSize + payloadSum envelopes := rfl

@[simp] theorem payload_sum_append (first second : List IngestEnvelope) :
    payloadSum (first ++ second) = payloadSum first + payloadSum second := by
  rw [payloadSum, List.map_append, List.sum_append_nat]
  rfl

/-- Subtracting the removed payload leaves the payload of the remaining queue. -/
theorem payload_sum_eraseIdx {queue : List IngestEnvelope} {position : Nat}
    {envelope : IngestEnvelope} (h : queue[position]? = some envelope) :
    payloadSum queue - envelope.payloadSize = payloadSum (queue.eraseIdx position) := by
  rw [payload_sum_perm (perm_of_getElem? h), payload_sum_cons, Nat.add_sub_cancel_left]

/-- Takings move envelopes from the queue to the popped ones. -/
theorem Conserved.drains {q q' : IngestQueue} {ledger : Ledger}
    {removals : List (List IngestEnvelope × IngestEnvelope)}
    (hdrains : IngestQueue.Drains q removals q') (h : Conserved (q, ledger)) :
    Conserved (q', { ledger with popped := ledger.popped ++ removals.map Prod.snd }) := by
  induction hdrains generalizing ledger with
  | refl q =>
      rw [List.map_nil, List.append_nil]
      exact h
  | @take q q' envelope position removals hposition _ ih =>
      obtain ⟨hqueue, -, -, hstats⟩ := IngestQueue.take_at_of_getElem? hposition
      have htaken : Conserved (q.takeAt envelope position,
          { ledger with popped := ledger.popped ++ [envelope] }) := by
        refine ⟨?_, ?_, ?_, ?_, ?_⟩
        · rw [hstats]
          exact h.accepted
        · rw [hstats, List.length_append]
          exact congrArg (· + 1) h.drained
        · rw [hstats]
          exact h.evicted
        · rw [hstats, hqueue, ← payload_sum_eraseIdx hposition, ← h.payload]
        · have hall := h.envelopes
          rw [hqueue]
          simp only [List.append_assoc, List.cons_append, List.nil_append] at hall ⊢
          rw [← List.append_assoc ledger.evicted] at hall ⊢
          exact perm_moved hposition hall
      have hrest := ih htaken
      rw [List.map_cons, ← List.singleton_append, ← List.append_assoc]
      exact hrest

/-- An admission adds one envelope to the queue and to the accepted ones. -/
theorem Conserved.acceptEnvelope {q : IngestQueue} {ledger : Ledger} (h : Conserved (q, ledger))
    (envelope : IngestEnvelope) (status : IngestAdmissionStatus) (evicted : Option Packet) :
    Conserved ((q.acceptEnvelope envelope status evicted).2,
      { ledger with accepted := ledger.accepted ++ [envelope] }) := by
  obtain ⟨haccepted, hevicted, hdrained, hpayload⟩ :=
    q.accept_envelope_stats envelope status evicted
  refine ⟨?_, ?_, ?_, ?_, ?_⟩
  · rw [haccepted, List.length_append]
    exact congrArg (· + 1) h.accepted
  · rw [hdrained]
    exact h.drained
  · rw [hevicted]
    exact h.evicted
  · rw [hpayload, IngestQueue.accept_envelope_queue, payload_sum_append]
    exact congrArg (· + envelope.payloadSize) h.payload
  · rw [IngestQueue.accept_envelope_queue, ← List.append_assoc]
    exact h.envelopes.append_right [envelope]

/-- An eviction moves one envelope from the queue to the evicted ones. -/
theorem Conserved.evict {q : IngestQueue} {ledger : Ledger} (h : Conserved (q, ledger))
    {position : Nat} {victim : IngestEnvelope} (hposition : q.queue[position]? = some victim) :
    Conserved (q.evict position, { ledger with evicted := ledger.evicted ++ [victim] }) := by
  rw [IngestQueue.evict_of_getElem? hposition]
  refine ⟨h.accepted, h.drained, ?_, ?_, ?_⟩
  · rw [List.length_append]
    exact congrArg (· + 1) h.evicted
  · rw [← payload_sum_eraseIdx hposition, ← h.payload]
  · have hall := h.envelopes
    simp only [List.append_assoc, List.singleton_append] at hall ⊢
    rw [← List.append_assoc] at hall ⊢
    exact perm_moved hposition hall

/-- A push keeps the account, whatever becomes of it. -/
theorem Conserved.push {q : IngestQueue} {ledger : Ledger} (h : Conserved (q, ledger))
    (envelope : IngestEnvelope) : Conserved (recordedStep (q, ledger) (.push envelope)) := by
  have hstep := q.push_step envelope
  unfold recordedStep
  simp only [IngestQueue.step, Ledger.record]
  generalize q.push envelope = result at hstep ⊢
  cases hstep with
  | rejected admission rejected closed payload capacity hrejected _ =>
      rw [if_neg hrejected]
      exact ⟨h.accepted, h.drained, h.evicted, h.payload, h.envelopes⟩
  | room _ hnone =>
      rw [if_pos (.inl rfl), hnone, Option.toList_none, List.map_nil, List.append_nil]
      exact h.acceptEnvelope _ _ _
  | evicting victim position status hvictim hposition hadmits =>
      have hstatus : ((q.evict position).acceptEnvelope envelope.prioritised status
          (some victim.packet)).1.status.Admits := hadmits
      rw [if_pos hstatus, hvictim, Option.toList_some, List.map_singleton]
      exact (h.evict hposition).acceptEnvelope _ _ _

/-- Every operation keeps the account. -/
theorem Conserved.step {s : IngestQueue × Ledger} (op : IngestOp) (h : Conserved s) :
    Conserved (recordedStep s op) := by
  obtain ⟨q, ledger⟩ := s
  cases op with
  | push envelope => exact h.push envelope
  | pop =>
      obtain ⟨hdrains, hpackets⟩ := q.pop_drains
      have htaken := h.drains hdrains
      rw [← hpackets] at htaken
      exact htaken
  | drain maxPackets =>
      obtain ⟨hdrains, hpackets⟩ := q.drain_loop_drains maxPackets
      have htaken := h.drains hdrains
      rw [← hpackets] at htaken
      exact htaken
  | drainPayloadBudget maxPayloadBytes =>
      obtain ⟨hdrains, hpackets⟩ := q.drain_budget_loop_drains maxPayloadBytes 0 []
        (Nat.zero_le _) (fun _ => rfl)
      have htaken := h.drains hdrains
      rw [List.nil_append] at hpackets
      rw [← hpackets] at htaken
      exact htaken
  | clear =>
      refine ⟨h.accepted, h.drained, h.evicted, rfl, ?_⟩
      show (ledger.popped ++ ledger.evicted ++ (ledger.cleared ++ q.queue) ++ []).Perm _
      rw [List.append_nil, ← List.append_assoc]
      exact h.envelopes
  | close => exact ⟨h.accepted, h.drained, h.evicted, h.payload, h.envelopes⟩
  | reopen => exact ⟨h.accepted, h.drained, h.evicted, h.payload, h.envelopes⟩

/-! ## Runs -/

/-- A new queue accounts for everything. -/
theorem conserved_new (config : IngestQueueConfig) : Conserved ({ config }, {}) :=
  ⟨rfl, rfl, rfl, rfl, .refl _⟩

/-- Some ledger accounts for the queue. -/
def Accounted (q : IngestQueue) : Prop :=
  ∃ ledger, Conserved (q, ledger)

theorem Accounted.step {q : IngestQueue} (h : Accounted q) (op : IngestOp) :
    Accounted (q.step op) := by
  obtain ⟨ledger, hledger⟩ := h
  exact ⟨_, hledger.step op⟩

/-- In an accounted queue the payload total is the payload of the queue. -/
theorem Accounted.payload {q : IngestQueue} (h : Accounted q) :
    q.stats.queuedPayloadBytes = payloadSum q.queue := by
  obtain ⟨ledger, hledger⟩ := h
  exact hledger.payload

/-- A rejected push moves rejection counters only. -/
theorem push_rejected {q : IngestQueue} {envelope : IngestEnvelope}
    (h : ¬ (q.push envelope).1.status.Admits) :
    (q.push envelope).2.queue = q.queue ∧ (q.push envelope).2.devices = q.devices ∧
      (q.push envelope).2.stats.queuedPayloadBytes = q.stats.queuedPayloadBytes := by
  have hstep := q.push_step envelope
  generalize q.push envelope = result at hstep h ⊢
  cases hstep with
  | rejected => exact ⟨rfl, rfl, rfl⟩
  | room => exact absurd (.inl rfl) h
  | evicting victim position status _ _ hadmits => exact absurd hadmits h

/-- The packet that an admission reports as evicted is the one of the evicted envelope. -/
theorem push_evicted (q : IngestQueue) (envelope : IngestEnvelope) :
    (q.push envelope).1.status.Admits →
      (q.push envelope).1.evicted = (q.evictedBy envelope).map fun victim => victim.1.packet := by
  intro hadmits
  have hstep := q.push_step envelope
  generalize q.push envelope = result at hstep hadmits ⊢
  cases hstep with
  | rejected admission _ _ _ _ hrejected _ => exact absurd hadmits hrejected
  | room _ hnone =>
      rw [hnone]
      rfl
  | evicting victim position status hvictim _ _ =>
      rw [hvictim]
      rfl

/-- **Conservation.** After every run of a new queue, the accepted envelopes are those that were
popped, evicted, cleared or are still queued, the counters agree with them, the payload total is the
payload of the queue, a rejected push leaves queue, payload total and device states alone, and one
that is not rejected reports the packet of the envelope that it evicts. -/
theorem queue_conserves (config : IngestQueueConfig) (ops : List IngestOp) :
    let s := run recordedStep ({ config }, {}) ops
    s.1.currentStats.accepted = s.1.currentStats.drained + s.1.currentStats.evicted +
        s.2.cleared.length + s.1.queue.length ∧
      s.1.currentStats.queuedPayloadBytes = payloadSum s.1.queue ∧
      (s.2.popped ++ s.2.evicted ++ s.2.cleared ++ s.1.queue).Perm s.2.accepted ∧
      (∀ envelope, ¬ (s.1.push envelope).1.status.Admits →
        (s.1.push envelope).2.queue = s.1.queue ∧
          (s.1.push envelope).2.devices = s.1.devices ∧
          (s.1.push envelope).2.stats.queuedPayloadBytes = s.1.stats.queuedPayloadBytes) ∧
      ∀ envelope, (s.1.push envelope).1.status.Admits →
        (s.1.push envelope).1.evicted =
          (s.1.evictedBy envelope).map fun victim => victim.1.packet := by
  intro s
  have hs : Conserved s := run_invariant (fun _ op h => h.step op) (conserved_new config) ops
  refine ⟨?_, hs.payload, hs.envelopes, fun envelope => push_rejected,
    fun envelope => push_evicted s.1 envelope⟩
  have hlength := hs.envelopes.length_eq
  simp only [List.length_append] at hlength
  show s.1.stats.accepted = s.1.stats.drained + s.1.stats.evicted + _ + _
  rw [hs.accepted, hs.drained, hs.evicted, ← hlength]

end Aethon.Runtime
