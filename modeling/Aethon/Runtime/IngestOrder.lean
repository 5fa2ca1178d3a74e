import Mathlib.Data.Prod.Lex
import Mathlib.Order.WithBot
import Aethon.Foundation.SelectionSort
import Aethon.Runtime.IngestConservation

/-!
# The order of a drain

`IngestDrainMode.key` says what a drain mode orders by, and `drainSequence` is the stable sort of
the queue by it. Every selection takes the head of that sequence and leaves its tail
(`drain_sequence_of_select_next`), so pops, drains and budgeted drains in any order return it from
front to back.
-/

namespace Aethon.Runtime

open Extremum StableSort SelectionSort

/-! ## The order of a mode -/

/-- The deadline as a time, where zero stands for none. -/
def IngestEnvelope.deadline (envelope : IngestEnvelope) : WithTop ℕ :=
  if envelope.deadlineNs = 0 then ⊤ else WithTop.some envelope.deadlineNs

/-- What a mode orders by: descending priority, ascending deadline, ascending arrival. What does not
count in the mode is the same for all envelopes. -/
def IngestDrainMode.key (mode : IngestDrainMode) (envelope : IngestEnvelope) :
    ℕᵒᵈ ×ₗ WithTop ℕ ×ₗ ℕ :=
  match mode with
  | .fifo => toLex (OrderDual.toDual 0, toLex (⊤, 0))
  | .highestPriorityFirst =>
      toLex (OrderDual.toDual envelope.priority.rank, toLex (⊤, envelope.arrivalTimeNs))
  | .earliestDeadlineFirst =>
      toLex (OrderDual.toDual 0, toLex (envelope.deadline, envelope.arrivalTimeNs))

/-- An envelope is popped before another one by its key. -/
def IngestDrainMode.before (mode : IngestDrainMode) (lhs rhs : IngestEnvelope) : Bool :=
  mode.key lhs < mode.key rhs

/-- The queue in the order of a mode, envelopes of the same key in the order they came in. -/
def drainSequence (mode : IngestDrainMode) (queue : List IngestEnvelope) : List IngestEnvelope :=
  stableSort mode.before queue

theorem compares_before (mode : IngestDrainMode) : Compares mode.before mode.key :=
  fun _ _ => decide_eq_true_iff

/-- Draining later is having the larger key. -/
theorem compares_drains_later :
    Compares (fun lhs rhs => drainsLater rhs lhs) (IngestDrainMode.key .highestPriorityFirst) := by
  intro lhs rhs
  simp only [drainsLater, IngestDrainMode.key, Prod.Lex.toLex_lt_toLex, OrderDual.toDual_lt_toDual,
    lt_irrefl, false_or, true_and, OrderDual.toDual_inj]
  split <;> rename_i hrank
  · rw [decide_eq_true_iff]
    omega
  · rw [decide_eq_true_iff]
    omega

/-- Deadlines are compared as they are, a missing one last. -/
theorem deadline_less_iff (lhs rhs : IngestEnvelope) :
    deadlineLess lhs rhs = true ↔ lhs.deadline < rhs.deadline := by
  unfold deadlineLess IngestEnvelope.deadline
  by_cases hlhs : lhs.deadlineNs = 0
  · simp [hlhs]
  · by_cases hrhs : rhs.deadlineNs = 0
    · simp [hlhs, hrhs]
    · simp [hlhs, hrhs]

/-- The earlier deadline comes first, as its key says. -/
theorem compares_earlier_deadline :
    Compares earlierDeadline (IngestDrainMode.key .earliestDeadlineFirst) := by
  intro lhs rhs
  simp only [earlierDeadline, IngestDrainMode.key, Prod.Lex.toLex_lt_toLex, lt_irrefl, false_or,
    true_and, deadline_less_iff]
  rcases lt_trichotomy lhs.deadline rhs.deadline with hless | heq | hgreater
  · simp [hless]
  · simp [heq]
  · simp [hgreater, hgreater.not_gt, hgreater.ne']

theorem drain_sequence_fifo (queue : List IngestEnvelope) : drainSequence .fifo queue = queue :=
  stable_sort_of_pairwise (compares_before .fifo) (List.pairwise_of_forall fun _ _ => le_refl _)

/-- The selected envelope heads the sequence, and the queue without it has the rest. -/
theorem drain_sequence_of_select_next {mode : IngestDrainMode} {queue : List IngestEnvelope}
    {selected : IngestEnvelope × Nat} (h : selectNext mode queue = some selected) :
    drainSequence mode queue =
      selected.1 :: drainSequence mode (queue.eraseIdx selected.2) := by
  cases mode with
  | fifo =>
      obtain ⟨envelope, hhead, rfl⟩ := Option.map_eq_some_iff.mp h
      obtain ⟨rest, rfl⟩ := List.head?_eq_some_iff.mp hhead
      rw [drain_sequence_fifo, drain_sequence_fifo, List.eraseIdx_cons_zero]
  | highestPriorityFirst =>
      have hsort := stable_sort_of_min_element compares_drains_later h
      rw [compares_drains_later.unique (compares_before _)] at hsort
      exact hsort
  | earliestDeadlineFirst =>
      have hsort := stable_sort_of_min_element compares_earlier_deadline h
      rw [compares_earlier_deadline.unique (compares_before _)] at hsort
      exact hsort

/-- A queue from which nothing is selected is drained. -/
theorem drain_sequence_of_none {mode : IngestDrainMode} {queue : List IngestEnvelope}
    (h : selectNext mode queue = none) : drainSequence mode queue = [] := by
  have hnil : queue = [] := by
    cases mode with
    | fifo => exact List.head?_eq_none_iff.mp (Option.map_eq_none_iff.mp h)
    | highestPriorityFirst =>
        have hnone : minElement (fun lhs rhs => drainsLater rhs lhs) queue = none := h
        exact min_element_eq_none hnone
    | earliestDeadlineFirst => exact min_element_eq_none h
  rw [hnil, drainSequence, stable_sort_nil]

/-- The envelopes that a drain takes out are the first of the sequence. -/
theorem drain_order_envelopes (mode : IngestDrainMode) (left : Nat)
    (queue : List IngestEnvelope) :
    (IngestQueue.drainOrder mode left queue).map Prod.snd =
      (drainSequence mode queue).take left := by
  induction left generalizing queue with
  | zero => rfl
  | succ left ih =>
      cases hselected : selectNext mode queue with
      | none =>
          rw [drain_sequence_of_none hselected, IngestQueue.drain_order_of_none hselected]
          rfl
      | some selected =>
          rw [drain_sequence_of_select_next hselected]
          simp only [IngestQueue.drainOrder, hselected, List.map_cons, List.take_succ_cons, ih]

/-! ## The longest prefix within a budget -/

/-- The longest prefix of a sequence whose payloads are within a budget. -/
structure LongestWithin (budget : Nat) (sequence packets : List IngestEnvelope) : Prop where
  prefixed : packets <+: sequence
  within : payloadSum packets ≤ budget
  longest : ∀ other, other <+: sequence → payloadSum other ≤ budget → other <+: packets

/-- Nothing fits where the first packet is too large. -/
theorem LongestWithin.nil_of_larger {budget : Nat} {envelope : IngestEnvelope}
    {sequence : List IngestEnvelope} (h : budget < envelope.payloadSize) :
    LongestWithin budget (envelope :: sequence) [] := by
  refine ⟨List.nil_prefix, Nat.zero_le _, fun other hother hwithin => ?_⟩
  rcases List.prefix_cons_iff.mp hother with rfl | ⟨rest, rfl, -⟩
  · exact List.prefix_rfl
  · rw [payload_sum_cons] at hwithin
    omega

/-- A packet that fits takes its bytes from the budget. -/
theorem LongestWithin.cons {budget : Nat} {envelope : IngestEnvelope}
    {sequence packets : List IngestEnvelope} (hfits : envelope.payloadSize ≤ budget)
    (h : LongestWithin (budget - envelope.payloadSize) sequence packets) :
    LongestWithin budget (envelope :: sequence) (envelope :: packets) := by
  refine ⟨List.cons_prefix_cons.mpr ⟨rfl, h.prefixed⟩, ?_, fun other hother hwithin => ?_⟩
  · have hrest := h.within
    rw [payload_sum_cons]
    omega
  · rcases List.prefix_cons_iff.mp hother with rfl | ⟨rest, rfl, hrest⟩
    · exact List.nil_prefix
    · rw [payload_sum_cons] at hwithin
      exact List.cons_prefix_cons.mpr ⟨rfl, h.longest rest hrest (by omega)⟩

/-- The removals that a budget covers are the longest prefix within it. -/
theorem within_budget_longest (budget : Nat)
    (removals : List (List IngestEnvelope × IngestEnvelope)) :
    LongestWithin budget (removals.map Prod.snd)
      ((IngestQueue.withinBudget budget removals).map Prod.snd) := by
  induction removals generalizing budget with
  | nil =>
      exact ⟨List.prefix_rfl, Nat.zero_le _, fun other hother _ => hother⟩
  | cons removal removals ih =>
      rw [IngestQueue.withinBudget, List.map_cons]
      split
      · rename_i hfits
        exact .cons hfits (ih _)
      · rename_i hlarger
        exact .nil_of_larger (Nat.lt_of_not_le hlarger)

namespace IngestQueue

/-! ## Draining -/

/-- What is still to be drained, in the order of the mode. -/
def order (q : IngestQueue) : List IngestEnvelope :=
  drainSequence q.config.drainMode q.queue

/-- A pop takes the head of the order, which is the envelope that `peek` shows. -/
theorem pop_order (q : IngestQueue) :
    q.pop.1.toList ++ q.pop.2.order = q.order ∧ q.peek = q.pop.1 ∧ q.pop.1 = q.order.head? := by
  unfold order
  cases hselected : selectNext q.config.drainMode q.queue with
  | none =>
      rw [pop_of_none hselected, peek, hselected, drain_sequence_of_none hselected]
      exact ⟨rfl, rfl, rfl⟩
  | some selected =>
      obtain ⟨envelope, position⟩ := selected
      obtain ⟨hqueue, -, hconfig, -⟩ := take_at_of_getElem? (getElem?_of_select_next hselected)
      rw [pop_of_some hselected, peek, hselected, drain_sequence_of_select_next hselected, hqueue,
        hconfig]
      exact ⟨rfl, rfl, rfl⟩

/-- What a drain returns, followed by what is left, is the order from before. -/
theorem drain_loop_order (q : IngestQueue) (left : Nat) :
    (q.drainLoop left).1 ++ (q.drainLoop left).2.order = q.order := by
  induction left generalizing q with
  | zero => rfl
  | succ left ih =>
      obtain ⟨hpop, -⟩ := q.pop_order
      rw [drainLoop]
      split
      · rename_i q' heq
        rw [heq] at hpop
        exact hpop
      · rename_i envelope q' heq
        rw [heq] at hpop
        rw [List.cons_append, ih]
        exact hpop

/-- What the loop takes and what it leaves are the whole order. -/
theorem drain_budget_loop_order (q : IngestQueue) (maxPayloadBytes used : Nat)
    (packets : List IngestEnvelope) :
    (q.drainBudgetLoop maxPayloadBytes used packets).1 ++
      (q.drainBudgetLoop maxPayloadBytes used packets).2.order = packets ++ q.order := by
  fun_induction q.drainBudgetLoop maxPayloadBytes used packets with
  | case1 | case2 | case3 => rfl
  | case4 q used packets next _ _ _ q' heq =>
      obtain ⟨hpop, -⟩ := q.pop_order
      rw [heq] at hpop
      exact congrArg (packets ++ ·) hpop
  | case5 q used packets next _ _ _ removed q' heq ih =>
      obtain ⟨hpop, -⟩ := q.pop_order
      rw [heq] at hpop
      rw [ih, List.append_assoc]
      exact congrArg (packets ++ ·) hpop

/-- **Drain order.** Whatever the queue holds, every way of draining it returns the next envelopes
of the stable sort by the mode's key and leaves the rest of it: `pop` the first, which `peek` shows,
`drain` as many as asked for, and `drain_payload_budget` the longest prefix within the budget. -/
theorem drains_in_stable_order (q : IngestQueue) :
    (q.peek = q.pop.1 ∧ q.pop.1 = q.order.head? ∧ q.pop.1.toList ++ q.pop.2.order = q.order) ∧
      (∀ maxPackets, (q.drain maxPackets).1.packets = q.order.take maxPackets ∧
        (q.drain maxPackets).1.packets ++ (q.drain maxPackets).2.order = q.order) ∧
      (q.drain q.queue.length).1.packets = q.order ∧
      ∀ budget, LongestWithin budget q.order (q.drainPayloadBudget budget).1.packets ∧
        (q.drainPayloadBudget budget).1.packets ++ (q.drainPayloadBudget budget).2.order =
          q.order := by
  have hlength : q.order.length = q.queue.length := (stable_sort_perm _ _).length_eq
  have hdrain : ∀ maxPackets, (q.drain maxPackets).1.packets = q.order.take maxPackets :=
    fun maxPackets => (q.drain_loop_drains maxPackets).2.trans (drain_order_envelopes _ _ _)
  refine ⟨?_, fun maxPackets => ⟨hdrain maxPackets, q.drain_loop_order maxPackets⟩, ?_,
    fun budget => ⟨?_, q.drain_budget_loop_order budget 0 []⟩⟩
  · obtain ⟨horder, hpeek, hhead⟩ := q.pop_order
    exact ⟨hpeek, hhead, horder⟩
  · rw [hdrain, ← hlength, List.take_length]
  · have hlongest := within_budget_longest budget
      (drainOrder q.config.drainMode q.queue.length q.queue)
    rw [drain_order_envelopes, ← hlength, order, List.take_length] at hlongest
    have hpackets := (q.drain_budget_loop_drains budget 0 [] (Nat.zero_le _) fun _ => rfl).2
    rw [Nat.sub_zero, List.nil_append, ← hlength, order] at hpackets
    show LongestWithin budget q.order (q.drainBudgetLoop budget 0 []).1
    rw [hpackets]
    exact hlongest

end IngestQueue

end Aethon.Runtime
