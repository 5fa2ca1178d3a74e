import Mathlib.Data.Prod.Lex
import Aethon.Foundation.SelectionSort
import Aethon.Runtime.IngestConservation

/-!
# What `drop_lowest_priority` loses

The victim is the first queued envelope of the lowest priority and, among those, of the earliest
arrival. The newcomer is not among the candidates, so where everything queued is more important
than the newcomer, an important envelope makes room for it.
-/

namespace Aethon.Runtime

open Extremum StableSort SelectionSort

/-- What `drop_lowest_priority` compares. -/
def IngestEnvelope.importance (envelope : IngestEnvelope) : ℕ ×ₗ ℕ :=
  toLex (envelope.priority.rank, envelope.arrivalTimeNs)

/-- The lower priority is the lower importance. -/
theorem compares_lower_priority : Compares lowerPriority IngestEnvelope.importance := by
  intro lhs rhs
  simp only [lowerPriority, IngestEnvelope.importance, Prod.Lex.toLex_lt_toLex]
  split <;> rename_i hrank
  · rw [decide_eq_true_iff]
    omega
  · rw [decide_eq_true_iff]
    omega

/-- Nothing queued has a lower priority than the victim. -/
theorem lowest_of_min_element {queue : List IngestEnvelope} {victim : IngestEnvelope × Nat}
    (h : minElement lowerPriority queue = some victim) :
    ∀ queued ∈ queue, victim.1.priority.rank ≤ queued.priority.rank := by
  intro queued hqueued
  have hleast := (first_least_of_min_element compares_lower_priority h).least queued hqueued
  rw [IngestEnvelope.importance, IngestEnvelope.importance, Prod.Lex.toLex_le_toLex] at hleast
  omega

namespace IngestQueue

/-- The envelope passes the checks of an open queue and does not fit into it. -/
def Overflows (q : IngestQueue) (envelope : IngestEnvelope) : Prop :=
  q.closed = false ∧ (q.config.rejectEmptyPayload && envelope.packet.payload.isEmpty) = false ∧
    envelope.payloadSize ≤ q.config.maxPacketPayloadBytes ∧
    q.wouldExceedCapacity envelope.prioritised = true

/-- The push overflows, and the queue after it holds the queue and the newcomer but for `lost`. -/
def Loses (q : IngestQueue) (envelope lost : IngestEnvelope) : Prop :=
  q.Overflows envelope ∧
    (lost :: (q.push envelope).2.queue).Perm (q.queue ++ [envelope.prioritised])

/-- No envelope is more important than one that is queued or comes in. -/
def LosesLowest (q : IngestQueue) (envelope : IngestEnvelope) : Prop :=
  ∀ lost, q.Loses envelope lost → ∀ other ∈ q.queue ++ [envelope.prioritised],
    lost.priority.rank ≤ other.priority.rank

/-- A packet that overflows the queue evicts what the policy selects. -/
theorem evicted_by_of_overflows {q : IngestQueue} {envelope : IngestEnvelope}
    (h : q.Overflows envelope) : q.evictedBy envelope =
      selectOverflowVictim q.config.overflowPolicy q.queue envelope.prioritised := by
  obtain ⟨hopen, hpayload, hsize, hexceeds⟩ := h
  rw [evictedBy, if_neg]
  simp [hopen, hpayload, hsize, hexceeds]

/-- Among the same others, what is left out is determined. -/
theorem eq_of_perm_cons {α : Type} {first second : α} {rest all : List α}
    (hfirst : (first :: rest).Perm all) (hsecond : (second :: rest).Perm all) : first = second := by
  have hperm : ([first] ++ rest).Perm ([second] ++ rest) := hfirst.trans hsecond.symm
  exact List.singleton_perm_singleton.mp ((List.perm_append_right_iff rest).mp hperm)

/-- An overflow loses the victim, or the newcomer where there is none. -/
theorem loses_iff {q : IngestQueue} {envelope : IngestEnvelope} (h : q.Overflows envelope)
    (lost : IngestEnvelope) : q.Loses envelope lost ↔
      lost = ((q.evictedBy envelope).map Prod.fst).getD envelope.prioritised := by
  have hlost : (((q.evictedBy envelope).map Prod.fst).getD envelope.prioritised ::
      (q.push envelope).2.queue).Perm (q.queue ++ [envelope.prioritised]) := by
    have hstep := q.push_step envelope
    generalize q.push envelope = result at hstep ⊢
    cases hstep with
    | rejected _ _ _ _ _ _ hnone =>
        rw [hnone]
        show ([envelope.prioritised] ++ q.queue).Perm (q.queue ++ [envelope.prioritised])
        exact List.perm_append_comm
    | room hroom =>
        rw [h.2.2.2] at hroom
        cases hroom
    | evicting victim position _ hvictim hposition =>
        rw [hvictim, accept_envelope_queue, evict_of_getElem? hposition]
        exact ((perm_of_getElem? hposition).append_right _).symm
  constructor
  · exact fun hloses => eq_of_perm_cons hloses.2 hlost
  · rintro rfl
    exact ⟨h, hlost⟩

/-- **Overflow.** A push under `drop_lowest_priority` loses an envelope of the lowest priority among
the queued ones and the newcomer if and only if it does not overflow, or nothing is queued, or
something queued is at most as important as the newcomer. -/
theorem loses_lowest_iff (q : IngestQueue) (envelope : IngestEnvelope)
    (hpolicy : q.config.overflowPolicy = .dropLowestPriority) :
    q.LosesLowest envelope ↔ (q.Overflows envelope → q.queue = [] ∨
      ∃ queued ∈ q.queue, queued.priority.rank ≤ envelope.prioritised.priority.rank) := by
  by_cases hover : q.Overflows envelope
  · have hvictim := evicted_by_of_overflows hover
    rw [hpolicy, selectOverflowVictim] at hvictim
    have hloses := loses_iff hover
    rw [hvictim] at hloses
    cases hmin : minElement lowerPriority q.queue with
    | none =>
        have hnil := min_element_eq_none hmin
        refine iff_of_true (fun lost hlost other hother => ?_) fun _ => .inl hnil
        rw [hnil, List.nil_append, List.mem_singleton] at hother
        rw [(hloses lost).mp hlost, hmin, hother]
        rfl
    | some victim =>
        have hlowest := lowest_of_min_element hmin
        have hmem : victim.1 ∈ q.queue :=
          List.mem_of_getElem? (getElem?_of_min_element hmin)
        rw [hmin] at hloses
        constructor
        · intro h _
          exact .inr ⟨victim.1, hmem, h victim.1 ((hloses _).mpr rfl) _ (by simp)⟩
        · intro h lost hlost other hother
          rw [(hloses lost).mp hlost]
          show victim.1.priority.rank ≤ other.priority.rank
          rcases List.mem_append.mp hother with hother | hother
          · exact hlowest other hother
          · rw [List.mem_singleton.mp hother]
            rcases h hover with hnil | ⟨queued, hqueued, hrank⟩
            · rw [hnil] at hmem
              cases hmem
            · exact (hlowest queued hqueued).trans hrank
  · exact iff_of_true (fun _ hlost => absurd hlost.1 hover) fun h => absurd h hover

/-- A full queue of one envelope of the given priority. -/
def fullQueue (priority : IngestPriority) : IngestQueue :=
  ({ config := { maxPackets := 1, overflowPolicy := .dropLowestPriority } : IngestQueue }.push
    { packet := { device := 1, sequence := 1 }, priority }).2

/-- An envelope of low priority. -/
def unimportant : IngestEnvelope where
  packet := { device := 2, sequence := 1 }
  priority := .low

/-- An envelope of the same priority is there to be lost. -/
theorem loses_lowest_of_low : (fullQueue .low).LosesLowest unimportant :=
  (loses_lowest_iff (fullQueue .low) unimportant rfl).mpr
    fun _ => .inr ⟨_, List.mem_singleton_self _, by decide⟩

/-- A critical envelope is evicted for one of low priority. -/
theorem loses_critical : ∃ lost, (fullQueue .critical).Loses unimportant lost ∧
    unimportant.prioritised.priority.rank < lost.priority.rank ∧
    ¬(fullQueue .critical).LosesLowest unimportant := by
  have hloses : (fullQueue .critical).Loses unimportant
      { packet := { device := 1, sequence := 1 }, priority := .critical } :=
    ⟨by unfold Overflows; decide, by decide⟩
  refine ⟨_, hloses, by decide, fun hlowest => ?_⟩
  exact absurd (hlowest _ hloses unimportant.prioritised (by decide)) (by decide)

end IngestQueue

end Aethon.Runtime
