import Aethon.Control.AckTrackerStates
import Aethon.Control.JournalLifecycle
import Aethon.Foundation.Words

/-!
# Expectations and the outcome of commands

An expectation should be satisfied by as many acceptances as it requires, or by one rejection, from
its device and in time. The tracker counts an answer of a busy device as an acceptance.
`ack_agreement_iff` says what follows: every satisfied expectation of a run is earned exactly when
no busy answer is among those that complete an expectation, and for the answers to one command the
tracker is never ahead of the journal exactly when the first of them is not a busy one.
-/

namespace Aethon.Control

open Runs

/-! ## What completes an expectation -/

namespace AckRecord

/-- The acceptances from the device and in time. -/
def accepts (record : AckRecord) (acks : List CommandAck) : Nat :=
  acks.countP fun ack => record.InTime ack ∧ acceptedStatus ack.status

/-- The answers from the device and in time that do not reject the command. -/
def counted (record : AckRecord) (acks : List CommandAck) : List CommandAck :=
  acks.filter fun ack => record.InTime ack ∧ rejectedStatus ack.status = false

/-- The required acceptances came from the device and in time, or a rejection did. -/
def Earned (record : AckRecord) (acks : List CommandAck) : Prop :=
  record.expectation.requiredAccepts.toNat ≤ record.accepts acks ∨
    ∃ ack ∈ acks, record.InTime ack ∧ rejectedStatus ack.status

instance (record : AckRecord) (acks : List CommandAck) : Decidable (record.Earned acks) :=
  inferInstanceAs (Decidable (_ ∨ _))

theorem not_busy_iff {status : AckStatus} (h : rejectedStatus status = false) :
    status ≠ .busy ↔ acceptedStatus status := by
  cases status <;> simp_all [acceptedStatus, rejectedStatus]

/-- The acceptances are the answers counted that are acceptances. -/
theorem accepts_eq (record : AckRecord) (acks : List CommandAck) :
    record.accepts acks = (record.counted acks).countP fun ack => acceptedStatus ack.status := by
  rw [counted, List.countP_filter, accepts]
  refine List.countP_congr fun ack _ => ?_
  cases hstatus : ack.status <;> simp [acceptedStatus, rejectedStatus]

/-- When exactly the required answers are counted and none is a rejection, the expectation is
earned exactly when none is a busy one. -/
theorem earned_iff {record : AckRecord} {acks : List CommandAck}
    (hcounted : (record.counted acks).length = record.expectation.requiredAccepts.toNat)
    (hnone : ∀ ack ∈ acks, record.InTime ack → rejectedStatus ack.status = false) :
    record.Earned acks ↔ ∀ ack ∈ record.counted acks, ack.status ≠ .busy := by
  have hall : (∀ ack ∈ record.counted acks, ack.status ≠ .busy) ↔
      ∀ ack ∈ record.counted acks, acceptedStatus ack.status := by
    refine forall₂_congr fun ack hmem => not_busy_iff ?_
    exact (of_decide_eq_true (List.mem_filter.mp hmem).2).2
  rw [hall, ← List.countP_eq_length, ← accepts_eq, hcounted]
  have hle : record.accepts acks ≤ record.expectation.requiredAccepts.toNat := by
    rw [← hcounted, accepts_eq]
    exact List.countP_le_length
  constructor
  · intro h
    rcases h with henough | ⟨ack, hmem, hintime, hrejected⟩
    · omega
    · rw [hnone ack hmem hintime] at hrejected
      cases hrejected
  · intro h
    exact .inl (by omega)

/-- An earned expectation stays earned. -/
theorem Earned.append {record : AckRecord} {acks : List CommandAck} (h : record.Earned acks)
    (later : List CommandAck) : record.Earned (acks ++ later) := by
  rcases h with henough | ⟨ack, hmem, hrejection⟩
  · refine .inl ?_
    rw [accepts, List.countP_append]
    exact Nat.le_trans henough (Nat.le_add_right _ _)
  · exact .inr ⟨ack, List.mem_append_left later hmem, hrejection⟩

end AckRecord

namespace AckTracker

/-! ## Runs with a log -/

/-- For each identifier the acknowledgements observed since an expectation was last registered
under it. -/
abbrev AckLog := CommandId → List CommandAck

/-- The acknowledgements of a command in a call. -/
def acksOf (id : CommandId) : AckOp → List CommandAck
  | .observe ack => if ack.commandId = id then [ack] else []
  | _ => []

/-- A call, with the log it leaves. -/
def logStep (state : AckTracker × AckLog) (op : AckOp) : AckTracker × AckLog :=
  (state.1.step op, fun id =>
    if state.1.registers op = some id then [] else state.2 id ++ acksOf id op)

/-- Every satisfied expectation is earned. -/
def AllEarned (state : AckTracker × AckLog) : Prop :=
  ∀ id record, state.1.records.lookup id = some record → record.state = .satisfied →
    record.Earned (state.2 id)

/-- An acknowledgement that completes a waiting expectation, as the last of the answers it
requires, leaves no busy answer among them. -/
def NoBusyCompletes (state : AckTracker × AckLog) (op : AckOp) : Prop :=
  ∀ ack record, op = .observe ack → state.1.records.lookup ack.commandId = some record →
    record.state = .waiting → record.InTime ack → rejectedStatus ack.status = false →
    let acks := state.2 ack.commandId ++ [ack]
    (record.counted acks).length = record.expectation.requiredAccepts.toNat →
    ∀ other ∈ record.counted acks, other.status ≠ .busy

/-- The counters of a waiting record are those of the acknowledgements in its log. -/
structure Logged (record : AckRecord) (acks : List CommandAck) : Prop where
  valid : record.Valid
  acceptsSeen : record.state = .waiting →
    record.acceptsSeen.toNat = (record.counted acks).length
  rejections : record.state = .waiting →
    ∀ ack ∈ acks, record.InTime ack → rejectedStatus ack.status = false

theorem logged_registered {expectation : AckExpectation} (h : expectation.requiredAccepts ≠ 0) :
    Logged { expectation := expectation } [] :=
  ⟨AckRecord.valid_registered h, fun _ => rfl, fun _ => nofun⟩

/-- One more acknowledgement is counted, or it is not. -/
theorem counted_append (record : AckRecord) (acks : List CommandAck) (ack : CommandAck) :
    record.counted (acks ++ [ack]) = record.counted acks ++
      if record.InTime ack ∧ rejectedStatus ack.status = false then [ack] else [] := by
  simp only [AckRecord.counted, List.filter_append, List.filter_cons, List.filter_nil,
    decide_eq_true_eq]

/-- A record in which an acknowledgement is observed, with the acknowledgement in its log. -/
theorem Logged.observed {record : AckRecord} {acks : List CommandAck} (h : Logged record acks)
    (ack : CommandAck) :
    Logged (record.recordObservation (record.classify ack)) (acks ++ [ack]) := by
  refine ⟨h.valid.observed ack, ?_, ?_⟩
  all_goals
    rcases record.observation_cases ack with
      ⟨-, -, hmissed, hlogged⟩ | ⟨-, hactive, hintime, haccepts, hmatched⟩ | ⟨-, -, -, -, hrejected⟩
  · rw [hlogged]
    intro hwaiting
    have hlate := hmissed hwaiting (h.valid.waiting hwaiting).1
    show record.acceptsSeen.toNat = (record.counted (acks ++ [ack])).length
    rw [counted_append, if_neg fun hcounted => hlate hcounted.1, List.append_nil]
    exact h.acceptsSeen hwaiting
  · have hwaiting := AckRecord.waiting_of_active hactive
    rw [hmatched]
    intro _
    show (record.acceptsSeen + 1).toNat = (record.counted (acks ++ [ack])).length
    rw [counted_append, if_pos ⟨hintime, haccepts⟩, List.length_append, ← h.acceptsSeen hwaiting,
      List.length_singleton]
    exact Words.toNat_add_one (h.valid.waiting hwaiting).1
  · rw [hrejected]
    exact nofun
  · rw [hlogged]
    intro hwaiting other hmem hintime
    rcases List.mem_append.mp hmem with hold | hnew
    · exact h.rejections hwaiting other hold hintime
    · obtain rfl := List.mem_singleton.mp hnew
      exact absurd hintime (hmissed hwaiting (h.valid.waiting hwaiting).1)
  · rw [hmatched]
    intro _ other hmem hother
    rcases List.mem_append.mp hmem with hold | hnew
    · exact h.rejections (AckRecord.waiting_of_active hactive) other hold hother
    · obtain rfl := List.mem_singleton.mp hnew
      exact haccepts
  · rw [hrejected]
    exact nofun

/-- Every record and its log agree. -/
def AllLogged (state : AckTracker × AckLog) : Prop :=
  ∀ id record, state.1.records.lookup id = some record → Logged record (state.2 id)

/-- The log of a record that a call leaves as it is. -/
theorem log_kept {state : AckTracker × AckLog} {op : AckOp} {id : CommandId}
    (h : state.1.registers op ≠ some id)
    (hack : ∀ ack, op = .observe ack → ack.commandId ≠ id) :
    (logStep state op).2 id = state.2 id := by
  have hnone : acksOf id op = [] := by
    cases op with
    | observe ack => exact if_neg (hack ack rfl)
    | expect | timeouts | cancel | compactTerminal | reset => rfl
  simp [logStep, h, hnone]

theorem log_observed (state : AckTracker × AckLog) (ack : CommandAck) :
    (logStep state (.observe ack)).2 ack.commandId = state.2 ack.commandId ++ [ack] := by
  simp [logStep, registers, acksOf]

/-- An operation keeps every record in step with its log. -/
theorem AllLogged.step {state : AckTracker × AckLog} (h : AllLogged state) (op : AckOp) :
    AllLogged (logStep state op) := by
  intro id record hlookup
  have hchange := state.1.change_step op id
  have hbefore := h id
  have hafter : (state.1.step op).records.lookup id = some record := hlookup
  rw [hafter] at hchange
  generalize state.1.records.lookup id = before at hchange hbefore
  cases hchange with
  | kept hregisters hack =>
      rw [log_kept hregisters fun ack hop hid => by cases hack ack hop hid]
      exact hbefore record rfl
  | registered hregisters hrequired =>
      have hlog : (logStep state op).2 id = [] := if_pos hregisters
      rw [hlog]
      exact logged_registered hrequired
  | observed ack hop hid =>
      subst hop hid
      rw [log_observed]
      exact (hbefore _ rfl).observed ack
  | closed closing _ _ hwaiting hstate hkind =>
      have hclosed : closing ≠ .waiting := by
        intro hsame
        rw [hsame] at hstate
        rcases hstate with hstate | hstate <;> cases hstate
      have hvalid := (hbefore _ rfl).valid.closed hwaiting hstate hkind
      rw [AckRecord.close_eq hkind] at hvalid ⊢
      exact ⟨hvalid, fun hwaiting => absurd hwaiting hclosed,
        fun hwaiting => absurd hwaiting hclosed⟩

/-- An acknowledgement leaves a satisfied expectation earned, or makes it one, exactly when it does
not complete it with a busy answer. -/
theorem Logged.earned_iff {record : AckRecord} {acks : List CommandAck} (h : Logged record acks)
    (hearned : record.state = .satisfied → record.Earned acks) (ack : CommandAck) :
    let record' := record.recordObservation (record.classify ack)
    (record'.state = .satisfied → record'.Earned (acks ++ [ack])) ↔
      (record.state = .waiting → record.InTime ack → rejectedStatus ack.status = false →
        (record.counted (acks ++ [ack])).length = record.expectation.requiredAccepts.toNat →
        ∀ other ∈ record.counted (acks ++ [ack]), other.status ≠ .busy) := by
  intro record'
  have hrecord' : record' = record.recordObservation (record.classify ack) := rfl
  rcases record.observation_cases ack with
    ⟨-, -, hmissed, hlogged⟩ | ⟨-, hactive, hintime, haccepts, hmatched⟩ |
    ⟨-, -, hintime, hrejects, hrejected⟩
  · -- only logged: nothing new is satisfied, and what was earned stays earned
    rw [hrecord', hlogged]
    constructor
    · intro _ hwaiting hintime
      exact absurd hintime (hmissed hwaiting (h.valid.waiting hwaiting).1)
    · intro _ hsatisfied
      exact (hearned hsatisfied).append [ack]
  · have hwaiting := AckRecord.waiting_of_active hactive
    have hafter : Logged record' (acks ++ [ack]) := h.observed ack
    have hlength : (record.counted (acks ++ [ack])).length = record.acceptsSeen.toNat + 1 := by
      rw [counted_append, if_pos ⟨hintime, haccepts⟩, List.length_append,
        ← h.acceptsSeen hwaiting, List.length_singleton]
    have hnone : ∀ other ∈ acks ++ [ack], record.InTime other →
        rejectedStatus other.status = false := by
      intro other hmem hother
      rcases List.mem_append.mp hmem with hold | hnew
      · exact h.rejections hwaiting other hold hother
      · obtain rfl := List.mem_singleton.mp hnew
        exact haccepts
    have hroom := (h.valid.waiting hwaiting).1
    have hnext := Words.toNat_add_one hroom
    have hfull : record'.state = .satisfied ↔
        (record.counted (acks ++ [ack])).length = record.expectation.requiredAccepts.toNat := by
      rw [UInt32.lt_iff_toNat_lt] at hroom
      rw [hlength, hrecord', hmatched, hwaiting]
      show (if record.acceptsSeen + 1 ≥ record.expectation.requiredAccepts then _ else _) = _ ↔ _
      split_ifs with hfull
      · have hreached := UInt32.le_iff_toNat_le.mp hfull
        exact iff_of_true rfl (by omega)
      · have hmissing := mt UInt32.le_iff_toNat_le.mpr hfull
        exact iff_of_false nofun (by omega)
    have hsame : record'.Earned (acks ++ [ack]) ↔ record.Earned (acks ++ [ack]) := by
      rw [hrecord', hmatched]
      rfl
    rw [hfull, hsame]
    constructor
    · intro hearned _ _ _ hcounted
      exact (AckRecord.earned_iff hcounted hnone).mp (hearned hcounted)
    · intro hbusy hcounted
      exact (AckRecord.earned_iff hcounted hnone).mpr (hbusy hwaiting hintime haccepts hcounted)
  · -- a rejection in time earns the expectation
    rw [hrecord', hrejected]
    constructor
    · intro _ _ _ haccepts
      rw [hrejects] at haccepts
      cases haccepts
    · intro _ _
      exact .inr ⟨ack, List.mem_append_right acks (List.mem_singleton_self ack), hintime, hrejects⟩

/-- From a state in which every satisfied expectation is earned, a call reaches one exactly when no
busy answer completes an expectation. -/
theorem all_earned_step {state : AckTracker × AckLog} (h : AllLogged state)
    (hearned : AllEarned state) (op : AckOp) :
    AllEarned (logStep state op) ↔ NoBusyCompletes state op := by
  constructor
  · intro hafter ack record hop hlookup
    subst hop
    have hnext : (logStep state (.observe ack)).1.records.lookup ack.commandId =
        some (record.recordObservation (record.classify ack)) := by
      show (state.1.observe ack).2.records.lookup ack.commandId = _
      simp [observe, hlookup, SortedTable.lookup_insert]
    have hrecord := hafter ack.commandId _ hnext
    rw [log_observed] at hrecord
    exact ((h _ record hlookup).earned_iff (hearned _ record hlookup) ack).mp hrecord
  · intro hbusy id record hlookup hsatisfied
    have hchange := state.1.change_step op id
    have hbefore := h id
    have hearned := hearned id
    have hafter : (state.1.step op).records.lookup id = some record := hlookup
    rw [hafter] at hchange
    generalize hheld : state.1.records.lookup id = before at hchange hbefore hearned
    cases hchange with
    | kept hregisters hack =>
        rw [log_kept hregisters fun ack hop hid => by cases hack ack hop hid]
        exact hearned record rfl hsatisfied
    | registered => cases hsatisfied
    | @observed held ack hop hid =>
        subst hop hid
        rw [log_observed]
        refine ((hbefore held rfl).earned_iff (hearned held rfl) ack).mpr ?_ hsatisfied
        exact hbusy ack held rfl hheld
    | closed closing _ _ _ hstate hkind =>
        rw [AckRecord.close_eq hkind] at hsatisfied
        have hclosing : closing = .satisfied := hsatisfied
        rw [hclosing] at hstate
        rcases hstate with hstate | hstate <;> cases hstate

end AckTracker

/-! ## One command in the journal and in the tracker -/

/-- An acknowledgement that both components see. -/
def ackStep (state : CommandJournal × AckTracker) (ack : CommandAck) :
    CommandJournal × AckTracker :=
  ((state.1.acknowledge ack).2, (state.2.observe ack).2)

/-- The expectation of a command is not satisfied while the journal keeps the command active. -/
def Agrees (id : CommandId) (state : CommandJournal × AckTracker) : Prop :=
  ∀ entry record, state.1.entries.lookup id = some entry →
    state.2.records.lookup id = some record → record.state = .satisfied → entry.state.terminal

/-- Acknowledgements leave a finished entry as it is. -/
theorem CommandJournal.Holds.acks {id : CommandId} {entry : JournalEntry}
    {state : CommandJournal × AckTracker} (h : state.1.Holds id entry) (acks : List CommandAck) :
    (Runs.run ackStep state acks).1.Holds id entry := by
  refine run_invariant (fun (state : CommandJournal × AckTracker) ack
    (h : state.1.Holds id entry) => ?_) h acks
  rcases state.1.acknowledge_cases ack with hsame | ⟨event, -, hmoved⟩
  · show (state.1.acknowledge ack).2.Holds id entry
    rwa [hsame]
  · exact h.moved hmoved

/-- The journal keeps a command active after an acknowledgement from its device exactly when the
device is busy. -/
theorem CommandJournal.acknowledge_active {j : CommandJournal} {ack : CommandAck}
    {entry : JournalEntry} (hentry : j.entries.lookup ack.commandId = some entry)
    (hactive : entry.state.terminal = false) (hdevice : ack.device = entry.command.device) :
    ∃ entry', (j.acknowledge ack).2.entries.lookup ack.commandId = some entry' ∧
      (entry'.state.terminal ↔ ack.status ≠ .busy) := by
  unfold acknowledge
  simp only [hentry, hdevice, hactive, ne_eq, not_true_eq_false, if_false, Bool.false_eq_true]
  cases hstatus : ack.status
  all_goals
    refine ⟨_, (SortedTable.lookup_insert _ _ _ _).trans (if_pos rfl), ?_⟩
    simp [JournalEntry.note, CommandState.terminal]

/-- An expectation that requires one acceptance is satisfied by whatever its device answers in
time. -/
theorem AckTracker.observe_single {t : AckTracker} {ack : CommandAck}
    {expectation : AckExpectation}
    (hrecord : t.records.lookup ack.commandId = some { expectation := expectation })
    (hintime : AckRecord.InTime { expectation := expectation } ack)
    (hrequired : expectation.requiredAccepts = 1) :
    ∃ record, (t.observe ack).2.records.lookup ack.commandId = some record ∧
      record.state = .satisfied := by
  unfold observe
  simp only [hrecord, SortedTable.lookup_insert, if_true]
  refine ⟨_, rfl, ?_⟩
  rcases AckRecord.observation_cases { expectation := expectation } ack with
    ⟨-, -, hmissed, -⟩ | ⟨-, -, -, -, hmatched⟩ | ⟨-, -, -, -, hrejected⟩
  · refine absurd hintime (hmissed rfl ?_)
    rw [hrequired]
    exact (by decide : (0 : UInt32) < 1)
  · rw [hmatched, hrequired]
    rfl
  · rw [hrejected]

/-- The expectation of an active command is never ahead of the journal exactly when the first
acknowledgement is not a busy one. -/
theorem entry_agreement_iff {j : CommandJournal} {t : AckTracker} {entry : JournalEntry}
    {timeoutNs : UInt64} {acks : List CommandAck}
    (hentry : j.entries.lookup entry.command.id = some entry)
    (hactive : entry.state.terminal = false)
    (hexpect : (t.expect (expectationFromEntry entry timeoutNs)).1 = true)
    (hacks : ∀ ack ∈ acks, ack.commandId = entry.command.id ∧
      AckRecord.InTime { expectation := expectationFromEntry entry timeoutNs } ack) :
    let state := (j, (t.expect (expectationFromEntry entry timeoutNs)).2)
    (∀ n, Agrees entry.command.id (run ackStep state (acks.take n))) ↔
      ∀ ack ∈ acks.head?, ack.status ≠ .busy := by
  intro state
  have hrecord : state.2.records.lookup entry.command.id =
      some { expectation := expectationFromEntry entry timeoutNs } := by
    rcases t.expect_cases (expectationFromEntry entry timeoutNs) with
      hrefused | ⟨registered, -, -, hsame, -, haccepted⟩
    · rw [hrefused] at hexpect
      cases hexpect
    · show (t.expect (expectationFromEntry entry timeoutNs)).2.records.lookup _ = _
      rw [haccepted, hsame (by decide : (1 : UInt32) ≠ 0)]
      exact (SortedTable.lookup_insert _ _ _ _).trans (if_pos rfl)
  have hstart : Agrees entry.command.id state := by
    intro held record _ hlookup hsatisfied
    obtain rfl := Option.some.inj (hrecord.symm.trans hlookup)
    cases hsatisfied
  cases acks with
  | nil => simpa using hstart
  | cons ack acks =>
      obtain ⟨hid, hintime⟩ := hacks ack List.mem_cons_self
      rw [← hid] at hentry hrecord hstart ⊢
      obtain ⟨entry', hentry', hterminal⟩ := CommandJournal.acknowledge_active hentry hactive
        hintime.1
      obtain ⟨record', hrecord', hsatisfied⟩ := AckTracker.observe_single hrecord hintime rfl
      have hhead : (∀ first ∈ (ack :: acks).head?, first.status ≠ .busy) ↔
          entry'.state.terminal := by
        rw [hterminal]
        simp
      rw [hhead]
      constructor
      · intro hall
        exact hall 1 entry' record' hentry' hrecord' hsatisfied
      · -- a command that is finished stays finished
        intro hfinished n
        cases n with
        | zero => exact hstart
        | succ n =>
            intro held record hheld _ _
            have hdone : (ackStep state ack).1.Holds ack.commandId entry' :=
              ⟨hentry', hfinished⟩
            have hkept := hdone.acks (acks.take n)
            obtain rfl := Option.some.inj (hkept.1.symm.trans hheld)
            exact hfinished

/-- In every run every satisfied expectation is earned exactly when no busy answer completes an
expectation, and for the answers to a command from its device and in time its expectation is never
satisfied while the journal keeps the command active exactly when the first is not a busy one. -/
theorem ack_agreement_iff (ops : List AckOp) :
    ((∀ n, AckTracker.AllEarned (run AckTracker.logStep ({}, fun _ => []) (ops.take n))) ↔
      Along AckTracker.logStep AckTracker.NoBusyCompletes ({}, fun _ => []) ops) ∧
    ∀ (j : CommandJournal) (t : AckTracker) (entry : JournalEntry) (timeoutNs : UInt64)
      (acks : List CommandAck),
      j.entries.lookup entry.command.id = some entry → entry.state.terminal = false →
      (t.expect (expectationFromEntry entry timeoutNs)).1 = true →
      (∀ ack ∈ acks, ack.commandId = entry.command.id ∧
        AckRecord.InTime { expectation := expectationFromEntry entry timeoutNs } ack) →
      let state := (j, (t.expect (expectationFromEntry entry timeoutNs)).2)
      (∀ n, Agrees entry.command.id (run ackStep state (acks.take n))) ↔
        ∀ ack ∈ acks.head?, ack.status ≠ .busy := by
  refine ⟨?_, fun j t entry timeoutNs acks hentry hactive hexpect hacks =>
    entry_agreement_iff hentry hactive hexpect hacks⟩
  have hlogged : AckTracker.AllLogged ({}, fun _ => []) := fun _ _ hlookup => by cases hlookup
  have hearned : AckTracker.AllEarned ({}, fun _ => []) := fun _ _ hlookup => by cases hlookup
  exact states_iff_along
    (fun (state : AckTracker × AckTracker.AckLog) op (h : AckTracker.AllLogged state) => h.step op)
    (fun (state : AckTracker × AckTracker.AckLog) op _ h
        (hearned : AckTracker.AllEarned state) =>
      AckTracker.all_earned_step h hearned op) hlogged hearned

/-- The entry of a command as it is sent once, to device 7 at time 10. -/
def sentEntry : JournalEntry where
  command := { id := 1, device := 7, createdTimeNs := 10, expiresTimeNs := 30000000010 }
  state := .sent
  attempts := 1
  lastSendTimeNs := 10
  nextAttemptTimeNs := 1000010
  notes := ["command appended", "command dispatched"]

/-- The journal that has appended and dispatched it. -/
def sentJournal : CommandJournal :=
  Runs.run CommandJournal.step {} [.append { device := 7, createdTimeNs := 10 }, .due 10 1]

/-- A busy answer that comes after an acceptance finds both components done. -/
theorem ack_agreement_accepted :
    let acks : List CommandAck := [{ commandId := 1, device := 7, timeNs := 20 },
      { commandId := 1, device := 7, status := .busy, timeNs := 30 }]
    let state := (sentJournal, (({} : AckTracker).expect (expectationFromEntry sentEntry 1000)).2)
    ∀ n, Agrees 1 (run ackStep state (acks.take n)) := by
  intro acks state
  refine ((ack_agreement_iff []).2 sentJournal {} sentEntry 1000 acks ?_ ?_ ?_ ?_).mpr ?_
  all_goals decide +kernel

/-- One busy answer satisfies the expectation of a command that the journal keeps for another
attempt. -/
theorem busy_satisfies_expectation :
    let ack : CommandAck := { commandId := 1, device := 7, status := .busy, timeNs := 20 }
    let expectation := expectationFromEntry sentEntry 1000
    ¬ Agrees 1 (ackStep (sentJournal, (({} : AckTracker).expect expectation).2) ack) ∧
      ¬ AckTracker.AllEarned (run AckTracker.logStep ({}, fun _ => [])
        [.expect expectation, .observe ack]) := by
  intro ack expectation
  constructor
  · intro hagrees
    let state := ackStep (sentJournal, (({} : AckTracker).expect expectation).2) ack
    have hpending : (state.1.entries.lookup 1).map (·.state) = some .pending := by decide +kernel
    have hsatisfied : (state.2.records.lookup 1).map (·.state) = some .satisfied := by
      decide +kernel
    obtain ⟨entry, hentry, hentryState⟩ := Option.map_eq_some_iff.mp hpending
    obtain ⟨record, hrecord, hrecordState⟩ := Option.map_eq_some_iff.mp hsatisfied
    have hterminal := hagrees entry record hentry hrecord hrecordState
    rw [hentryState] at hterminal
    cases hterminal
  · intro hearned
    let state := run AckTracker.logStep ({}, fun _ => []) [.expect expectation, .observe ack]
    have hunearned : (state.1.records.lookup 1).map (fun record =>
        (record.state, decide (record.Earned (state.2 1)))) = some (.satisfied, false) := by
      decide +kernel
    obtain ⟨record, hrecord, hresult⟩ := Option.map_eq_some_iff.mp hunearned
    obtain ⟨hstate, hfalse⟩ := Prod.mk.inj hresult
    exact of_decide_eq_false hfalse (hearned 1 record hrecord hstate)

end Aethon.Control
