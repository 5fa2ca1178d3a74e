import Aethon.Control.AckTracker

/-!
# The states of expectations

`change_step` says what a call can do to the record under an identifier, once for all calls; what
holds of the records follows from it record by record. `tracker_states`: in every run the state of
a record agrees with its counters, a terminal record keeps state and counters until it is replaced
or dropped, an acknowledgement that does not count is only logged, and a compaction drops the
terminal records with the lowest identifiers and as many as it should.
-/

namespace Aethon.Control

open Runs

/-! ## Observations -/

namespace AckRecord

/-- The acknowledgement is from the expected device and not after the deadline. -/
def InTime (record : AckRecord) (ack : CommandAck) : Prop :=
  ack.device = record.expectation.device ∧
    (record.expectation.deadlineNs ≠ 0 → ack.timeNs ≤ record.expectation.deadlineNs)

instance (record : AckRecord) (ack : CommandAck) : Decidable (record.InTime ack) :=
  inferInstanceAs (Decidable (_ ∧ _))

/-- An acknowledgement is only logged, which one in time is not while acceptances are missing, or
it counts for an expectation that is not terminal. -/
theorem observation_cases (record : AckRecord) (ack : CommandAck) :
    let observation := record.classify ack
    (observation.kind ≠ .matched ∧ observation.kind ≠ .rejected ∧
        (record.state = .waiting → record.acceptsSeen < record.expectation.requiredAccepts →
          ¬ record.InTime ack) ∧
        record.recordObservation observation = record.log observation) ∨
      (observation.kind = .matched ∧ record.state.terminal = false ∧ record.InTime ack ∧
        rejectedStatus ack.status = false ∧
        record.recordObservation observation = { record.log observation with
          acceptsSeen := record.acceptsSeen + 1
          state := if record.acceptsSeen + 1 ≥ record.expectation.requiredAccepts then .satisfied
            else record.state }) ∨
      (observation.kind = .rejected ∧ record.state.terminal = false ∧ record.InTime ack ∧
        rejectedStatus ack.status ∧
        record.recordObservation observation = { record.log observation with
          rejectsSeen := record.rejectsSeen + 1
          state := .satisfied }) := by
  intro observation
  have hobservation : observation = record.classify ack := rfl
  unfold classify at hobservation
  split_ifs at hobservation with hterminal hdevice hlate haccepted hspent hrejected
  · refine .inl (hobservation ▸ ⟨nofun, nofun, fun hwaiting _ => ?_, rfl⟩)
    rw [hwaiting] at hterminal
    cases hterminal
  · exact .inl (hobservation ▸ ⟨nofun, nofun, fun _ _ hintime => hdevice hintime.1, rfl⟩)
  · refine .inl (hobservation ▸ ⟨nofun, nofun, fun _ _ hintime => ?_, rfl⟩)
    exact UInt64.not_le.mpr hlate.2 (hintime.2 hlate.1)
  · refine .inl (hobservation ▸ ⟨nofun, nofun, fun _ hroom => ?_, rfl⟩)
    exact absurd hspent (UInt32.not_le.mpr hroom)
  all_goals
    have hactive : record.state.terminal = false := by simpa using hterminal
    have hintime : record.InTime ack := ⟨by simpa using hdevice, by simpa using hlate⟩
  · have haccepts : rejectedStatus ack.status = false := by
      cases hstatus : ack.status <;> simp_all [acceptedStatus, rejectedStatus]
    exact .inr (.inl (hobservation ▸ ⟨rfl, hactive, hintime, haccepts, rfl⟩))
  · exact .inr (.inr (hobservation ▸ ⟨rfl, hactive, hintime, hrejected, rfl⟩))
  · exact .inr (.inl (hobservation ▸ ⟨rfl, hactive, hintime, by simpa using hrejected, rfl⟩))

theorem waiting_of_active {state : AckExpectationState} (h : state.terminal = false) :
    state = .waiting := by
  cases state <;> first | rfl | cases h

/-- A stale observation of a closed record is only logged. -/
theorem close_eq {record : AckRecord} {state : AckExpectationState}
    {observation : AckObservation} (h : observation.kind = .stale) :
    record.close state observation = { record.log observation with state := state } := by
  unfold close recordObservation
  rw [h]
  rfl

end AckRecord

/-! ## Calls -/

namespace AckTracker

/-- The identifier under which a call registers an expectation. -/
def registers (t : AckTracker) : AckOp → Option CommandId
  | .expect expectation =>
      if (t.expect expectation).1 then some expectation.commandId else none
  | _ => none

end AckTracker

/-- The calls that neither register nor observe. -/
def AckOp.quiet : AckOp → Bool
  | .expect _ | .observe _ => false
  | _ => true

namespace AckTracker

/-- What a call can do to the record under an identifier. -/
inductive Change (t : AckTracker) (op : AckOp) (id : CommandId) :
    Option AckRecord → Option AckRecord → Prop where
  | kept {record} (h : t.registers op ≠ some id)
      (hack : ∀ ack, op = .observe ack → ack.commandId = id → record = none) :
      Change t op id record record
  | registered {record expectation} (h : t.registers op = some id)
      (hrequired : expectation.requiredAccepts ≠ 0) (hid : expectation.commandId = id)
      (hreplaced : ∀ old, record = some old → old.state.terminal) :
      Change t op id record (some { expectation := expectation })
  | observed {record} (ack : CommandAck) (h : op = .observe ack) (hid : ack.commandId = id) :
      Change t op id (some record) (some (record.recordObservation (record.classify ack)))
  | closed {record} (state : AckExpectationState) (observation : AckObservation)
      (h : op.quiet) (hwaiting : record.state = .waiting)
      (hstate : state = .timedOut ∨ state = .cancelled) (hkind : observation.kind = .stale) :
      Change t op id (some record) (some (record.close state observation))
  | compacted {record} (keepRecent : Nat) (h : op = .compactTerminal keepRecent)
      (hterminal : record.state.terminal) : Change t op id (some record) none
  | cleared {record} (h : op = .reset) : Change t op id record none

/-- A call that neither registers nor observes may leave a record. -/
theorem Change.quiet {t : AckTracker} {op : AckOp} {id : CommandId} {record : Option AckRecord}
    (h : op.quiet) : Change t op id record record := by
  cases op with
  | expect | observe => cases h
  | timeouts | cancel | compactTerminal | reset =>
      exact .kept (Option.some_ne_none id).symm fun ack hop => by cases hop

/-- An expectation is refused, or it replaces at most a terminal record and requires at least one
acceptance. -/
theorem expect_cases (t : AckTracker) (expectation : AckExpectation) :
    t.expect expectation = (false, t) ∨
      ∃ registered : AckExpectation, registered.commandId = expectation.commandId ∧
        registered.requiredAccepts ≠ 0 ∧
        (expectation.requiredAccepts ≠ 0 → registered = expectation) ∧
        (∀ old, t.records.lookup expectation.commandId = some old → old.state.terminal) ∧
        t.expect expectation = (true, { t with
          records := t.records.insert expectation.commandId { expectation := registered }
          stats.registered := t.stats.registered + 1 }) := by
  unfold expect
  split_ifs with hzero hactive hrequired
  · exact .inl rfl
  · exact .inl rfl
  all_goals
    have hreplaced : ∀ old, t.records.lookup expectation.commandId = some old →
        old.state.terminal := fun old hold => by simpa [hold] using hactive
  · refine .inr ⟨{ expectation with requiredAccepts := 1 }, rfl, ?_, fun h => absurd hrequired h,
      hreplaced, rfl⟩
    exact (by decide : (1 : UInt32) ≠ 0)
  · exact .inr ⟨_, rfl, hrequired, fun _ => rfl, hreplaced, rfl⟩

/-- An expectation changes a record as the operation allows. -/
theorem expect_change (t : AckTracker) (expectation : AckExpectation) (id : CommandId) :
    Change t (.expect expectation) id (t.records.lookup id)
      ((t.expect expectation).2.records.lookup id) := by
  have hregisters : t.registers (.expect expectation) =
      if (t.expect expectation).1 then some expectation.commandId else none := rfl
  rcases t.expect_cases expectation with
    hrefused | ⟨registered, hcommand, hrequired, -, hreplaced, haccepted⟩
  · rw [hrefused] at hregisters ⊢
    exact .kept (by simp [hregisters]) fun ack hop => by cases hop
  · rw [haccepted] at hregisters ⊢
    simp only [SortedTable.lookup_insert]
    split_ifs with hid
    · exact .registered (hid ▸ hregisters) hrequired (hid ▸ hcommand) (hid ▸ hreplaced)
    · refine .kept ?_ fun ack hop => by cases hop
      rw [hregisters, if_pos rfl]
      exact fun hsame => hid (Option.some.inj hsame).symm

/-- An acknowledgement changes a record as the operation allows. -/
theorem observe_change (t : AckTracker) (ack : CommandAck) (id : CommandId) :
    Change t (.observe ack) id (t.records.lookup id) ((t.observe ack).2.records.lookup id) := by
  unfold observe
  split
  · rename_i hlookup
    refine .kept (Option.some_ne_none id).symm fun other hother hid => ?_
    cases hother
    rw [← hid, hlookup]
  · rename_i record hlookup
    simp only [SortedTable.lookup_insert]
    split_ifs with hid
    · subst hid
      rw [hlookup]
      exact .observed ack rfl rfl
    · refine .kept (Option.some_ne_none id).symm fun other hother hsame => ?_
      cases hother
      exact absurd hsame.symm hid

/-- What the passes of `timeouts` keep, the loop keeps. -/
theorem timeouts_invariant (inv : List AckRecord × AckTracker → Prop) {nowNs : UInt64}
    (hpass : ∀ loop id, inv loop → inv (timeoutRecord nowNs loop id)) {t : AckTracker}
    (h : inv ([], t)) : inv (t.timeouts nowNs) :=
  run_invariant hpass h t.records.keys

/-- The passes of `timeouts` time a waiting record out, and leave it then. -/
theorem timeouts_change (t : AckTracker) (nowNs : UInt64) (id : CommandId) :
    Change t (.timeouts nowNs) id (t.records.lookup id)
      ((t.timeouts nowNs).2.records.lookup id) := by
  have hloop : (t.timeouts nowNs).2.records.lookup id = t.records.lookup id ∨
      ∃ record observation, t.records.lookup id = some record ∧ record.state = .waiting ∧
        observation.kind = .stale ∧
        (t.timeouts nowNs).2.records.lookup id = some (record.close .timedOut observation) := by
    refine timeouts_invariant (fun loop => loop.2.records.lookup id = t.records.lookup id ∨
      ∃ record observation, t.records.lookup id = some record ∧ record.state = .waiting ∧
        observation.kind = .stale ∧
        loop.2.records.lookup id = some (record.close .timedOut observation))
      (fun loop other h => ?_) (.inl rfl)
    unfold timeoutRecord
    simp only
    split
    · exact h
    rename_i record hlookup
    split_ifs with hstate hlate
    · exact h
    · simp only [SortedTable.lookup_insert]
      split_ifs with hid
      · have hwaiting : record.state = .waiting := by simpa using hstate
        subst hid
        rcases h with hsame | ⟨old, observation, -, -, hkind, hclosed⟩
        · exact .inr ⟨record, _, hsame.symm.trans hlookup, hwaiting, rfl, rfl⟩
        · rw [hlookup] at hclosed
          obtain rfl := Option.some.inj hclosed
          rw [AckRecord.close_eq hkind] at hwaiting
          cases hwaiting
      · exact h
    · exact h
  rcases hloop with hsame | ⟨record, observation, hlookup, hwaiting, hkind, hclosed⟩
  · rw [hsame]
    exact .quiet rfl
  · rw [hclosed, hlookup]
    exact .closed .timedOut observation rfl hwaiting (.inl rfl) hkind

/-- A cancellation changes a record as the operation allows. -/
theorem cancel_change (t : AckTracker) (commandId : CommandId) (message : String)
    (id : CommandId) :
    Change t (.cancel commandId message) id (t.records.lookup id)
      ((t.cancel commandId message).2.records.lookup id) := by
  unfold cancel
  split
  · exact .quiet rfl
  rename_i record hlookup
  split_ifs with hterminal
  · exact .quiet rfl
  · simp only [SortedTable.lookup_insert]
    split_ifs with hid
    · rw [hid, hlookup]
      exact .closed .cancelled _ rfl (AckRecord.waiting_of_active (by simpa using hterminal))
        (.inr rfl) rfl
    · exact .quiet rfl

/-- A compaction drops terminal records, those with the lowest identifiers, and as many as there
are too many records. -/
theorem compact_terminal_drops (t : AckTracker) (keepRecent : Nat) :
    SortedTable.DropsLowest (·.state.terminal)
      (min (t.records.count (·.state.terminal)) (t.records.size - keepRecent)) t.records
      (t.compactTerminal keepRecent).records := by
  have hdrops := t.records.dropFirst_to_size (·.state.terminal) keepRecent
  unfold compactTerminal
  split_ifs at hdrops ⊢ <;> exact hdrops

/-- A compaction changes a record as the operation allows. -/
theorem compact_change (t : AckTracker) (keepRecent : Nat) (id : CommandId) :
    Change t (.compactTerminal keepRecent) id (t.records.lookup id)
      ((t.compactTerminal keepRecent).records.lookup id) := by
  obtain ⟨removed, -, -, hterminal, -, hlookups⟩ := t.compact_terminal_drops keepRecent
  rw [hlookups]
  split_ifs with hremoved
  · obtain ⟨record, hlookup, hdone⟩ := hterminal id hremoved
    rw [hlookup]
    exact .compacted keepRecent rfl hdone
  · exact .quiet rfl

/-- Every call changes the record under an identifier in one of these ways. -/
theorem change_step (t : AckTracker) (op : AckOp) (id : CommandId) :
    Change t op id (t.records.lookup id) ((t.step op).records.lookup id) := by
  cases op with
  | expect expectation => exact t.expect_change expectation id
  | observe ack => exact t.observe_change ack id
  | timeouts nowNs => exact t.timeouts_change nowNs id
  | cancel commandId message => exact t.cancel_change commandId message id
  | compactTerminal keepRecent => exact t.compact_change keepRecent id
  | reset => exact .cleared rfl

end AckTracker

/-! ## States and counters -/

namespace AckRecord

/-- The state of a record agrees with its counters. -/
structure Valid (record : AckRecord) : Prop where
  waiting : record.state = .waiting →
    record.acceptsSeen < record.expectation.requiredAccepts ∧ record.rejectsSeen = 0
  satisfied : record.state = .satisfied ↔
    record.acceptsSeen = record.expectation.requiredAccepts ∨ record.rejectsSeen ≥ 1
  bound : record.acceptsSeen ≤ record.expectation.requiredAccepts

/-- A new record is valid. -/
theorem valid_registered {expectation : AckExpectation} (h : expectation.requiredAccepts ≠ 0) :
    Valid { expectation := expectation } := by
  have hpositive : (0 : UInt32) < expectation.requiredAccepts := by grind
  refine ⟨fun _ => ⟨hpositive, rfl⟩, ⟨nofun, fun hcounted => ?_⟩, UInt32.le_of_lt hpositive⟩
  rcases hcounted with hzero | hrejected
  · exact absurd hzero.symm h
  · exact absurd hrejected (by decide : ¬(0 : UInt32) ≥ 1)

/-- The log is no part of what a valid record is. -/
theorem Valid.log {record : AckRecord} (h : record.Valid) (observation : AckObservation) :
    (record.log observation).Valid :=
  ⟨h.waiting, h.satisfied, h.bound⟩

/-- An observation keeps a record valid. -/
theorem Valid.observed {record : AckRecord} (h : record.Valid) (ack : CommandAck) :
    (record.recordObservation (record.classify ack)).Valid := by
  rcases record.observation_cases ack with
    ⟨-, -, -, hlogged⟩ | ⟨-, hactive, -, -, hmatched⟩ | ⟨-, hactive, -, -, hrejected⟩
  · rw [hlogged]
    exact h.log _
  · obtain ⟨hroom, hnone⟩ := h.waiting (waiting_of_active hactive)
    have hbound : record.acceptsSeen + 1 ≤ record.expectation.requiredAccepts := by grind
    rw [hmatched, waiting_of_active hactive]
    refine ⟨fun hwaiting => ?_, ?_, hbound⟩
    · simp only at hwaiting ⊢
      split_ifs at hwaiting with hfull
      exact ⟨UInt32.not_le.mp hfull, hnone⟩
    · have hzero : ¬ record.rejectsSeen ≥ 1 := by rw [hnone]; decide
      show (if _ then _ else _) = AckExpectationState.satisfied ↔
        record.acceptsSeen + 1 = record.expectation.requiredAccepts ∨ record.rejectsSeen ≥ 1
      split_ifs with hfull
      · exact ⟨fun _ => .inl (UInt32.le_antisymm hbound hfull), fun _ => rfl⟩
      · refine ⟨nofun, fun hcounted => ?_⟩
        rcases hcounted with hsame | hrejected
        · exact absurd (UInt32.le_of_eq hsame.symm) hfull
        · exact absurd hrejected hzero
  · obtain ⟨hroom, hnone⟩ := h.waiting (waiting_of_active hactive)
    rw [hrejected]
    refine ⟨nofun, ⟨fun _ => .inr ?_, fun _ => rfl⟩, h.bound⟩
    show record.rejectsSeen + 1 ≥ 1
    rw [hnone]
    decide

/-- A record closed before it was satisfied has neither enough acceptances nor a rejection. -/
theorem Valid.closed {record : AckRecord} (h : record.Valid) {state : AckExpectationState}
    {observation : AckObservation} (hwaiting : record.state = .waiting)
    (hstate : state = .timedOut ∨ state = .cancelled) (hkind : observation.kind = .stale) :
    (record.close state observation).Valid := by
  obtain ⟨hroom, hnone⟩ := h.waiting hwaiting
  rw [close_eq hkind]
  have hwaitingNot : state ≠ .waiting := by rcases hstate with rfl | rfl <;> decide
  have hsatisfiedNot : state ≠ .satisfied := by rcases hstate with rfl | rfl <;> decide
  refine ⟨fun hstate => absurd hstate hwaitingNot,
    ⟨fun hstate => absurd hstate hsatisfiedNot, fun hcounted => ?_⟩, h.bound⟩
  rcases hcounted with hfull | hrejected
  · exact absurd hfull (UInt32.ne_of_lt hroom)
  · simp only [AckRecord.log, hnone] at hrejected
    exact absurd hrejected (by decide)

/-- The record has the expectation, the state and the counters of an earlier one. -/
structure Keeps (record' record : AckRecord) : Prop where
  expectation : record'.expectation = record.expectation
  state : record'.state = record.state
  acceptsSeen : record'.acceptsSeen = record.acceptsSeen
  rejectsSeen : record'.rejectsSeen = record.rejectsSeen

theorem Keeps.trans {first second third : AckRecord} (h : third.Keeps second)
    (h' : second.Keeps first) : third.Keeps first :=
  ⟨h.expectation.trans h'.expectation, h.state.trans h'.state,
    h.acceptsSeen.trans h'.acceptsSeen, h.rejectsSeen.trans h'.rejectsSeen⟩

end AckRecord

/-- The calls that drop records. -/
def AckOp.drops : AckOp → Bool
  | .compactTerminal _ | .reset => true
  | _ => false

namespace AckTracker

/-- Every record of a tracker is valid. -/
def Valid (t : AckTracker) : Prop :=
  ∀ id record, t.records.lookup id = some record → record.Valid

/-- An operation keeps the tracker valid. -/
theorem Valid.step {t : AckTracker} (h : t.Valid) (op : AckOp) : (t.step op).Valid := by
  intro id record hlookup
  have hchange := t.change_step op id
  have hbefore := h id
  rw [hlookup] at hchange
  generalize t.records.lookup id = before at hchange hbefore
  cases hchange with
  | kept => exact hbefore record rfl
  | registered _ hrequired => exact AckRecord.valid_registered hrequired
  | observed ack => exact (hbefore _ rfl).observed ack
  | closed _ _ _ hwaiting hstate hkind => exact (hbefore _ rfl).closed hwaiting hstate hkind

/-! ## Terminal records -/

/-- An identifier is registered by an expectation of the command. -/
theorem of_registers {t : AckTracker} {op : AckOp} {id : CommandId}
    (h : t.registers op = some id) : ∃ expectation, op = .expect expectation ∧
      expectation.commandId = id := by
  cases op with
  | expect expectation =>
      simp only [registers] at h
      split_ifs at h
      exact ⟨expectation, rfl, Option.some.inj h⟩
  | observe | timeouts | cancel | compactTerminal | reset => cases h

/-- Under the identifier is what is left of a terminal record: the record with its state and
counters, unless a call that drops records has dropped it. -/
def Settled (id : CommandId) (record : AckRecord) (ops : List AckOp) (t : AckTracker) : Prop :=
  (∃ record', t.records.lookup id = some record' ∧ record'.Keeps record) ∨
    t.records.lookup id = none ∧ ∃ op ∈ ops, op.drops

/-- A settled record stays settled, unless its command is expected again. -/
theorem Settled.step {id : CommandId} {record : AckRecord} {ops : List AckOp} {t : AckTracker}
    (h : t.Settled id record ops) (hterminal : record.state.terminal) {op : AckOp}
    (hexpect : ∀ expectation, op = .expect expectation → expectation.commandId ≠ id) :
    (t.step op).Settled id record (op :: ops) := by
  have hregisters : t.registers op ≠ some id := by
    intro hsome
    obtain ⟨expectation, hop, hid⟩ := of_registers hsome
    exact hexpect expectation hop hid
  have hchange := t.change_step op id
  unfold Settled at h ⊢
  generalize t.records.lookup id = before at h hchange
  generalize (t.step op).records.lookup id = after at hchange
  cases hchange with
  | kept =>
      rcases h with hkept | ⟨hnone, dropping, hmem, hdrops⟩
      · exact .inl hkept
      · exact .inr ⟨hnone, dropping, List.mem_cons_of_mem op hmem, hdrops⟩
  | registered hsome => exact absurd hsome hregisters
  | @observed held ack =>
      obtain ⟨record', hsame, hkeeps⟩ := h.resolve_right (by simp)
      obtain rfl := Option.some.inj hsame
      have hdone : held.state.terminal := hkeeps.state ▸ hterminal
      rcases held.observation_cases ack with
        ⟨-, -, -, hlogged⟩ | ⟨-, hactive, -⟩ | ⟨-, hactive, -⟩
      · rw [hlogged]
        exact .inl ⟨_, rfl, hkeeps.expectation, hkeeps.state, hkeeps.acceptsSeen,
          hkeeps.rejectsSeen⟩
      all_goals
        rw [hdone] at hactive
        cases hactive
  | @closed held _ _ _ hwaiting =>
      obtain ⟨record', hsame, hkeeps⟩ := h.resolve_right (by simp)
      obtain rfl := Option.some.inj hsame
      rw [← hkeeps.state, hwaiting] at hterminal
      cases hterminal
  | compacted keepRecent hop => exact .inr ⟨rfl, op, List.mem_cons_self, hop ▸ rfl⟩
  | cleared hop => exact .inr ⟨rfl, op, List.mem_cons_self, hop ▸ rfl⟩

/-- A record that is settled stays settled until an expectation of its command comes. -/
theorem Settled.run {id : CommandId} {record : AckRecord} {ops : List AckOp} {t : AckTracker}
    (h : t.Settled id record ops) (hterminal : record.state.terminal) (later : List AckOp)
    (hexpect : ∀ expectation, .expect expectation ∈ later → expectation.commandId ≠ id) :
    (Runs.run AckTracker.step t later).Settled id record (later.reverse ++ ops) := by
  induction later generalizing t ops with
  | nil => exact h
  | cons op later ih =>
      have hstep := h.step hterminal fun expectation hop =>
        hexpect expectation (hop ▸ List.mem_cons_self)
      have := ih hstep fun expectation hmem =>
        hexpect expectation (List.mem_cons_of_mem op hmem)
      simpa using this

/-! ## Acknowledgements that do not count -/

/-- An acknowledgement that does not count is only logged, in the record it names. -/
theorem observe_logged (t : AckTracker) (ack : CommandAck)
    (hmatched : (t.observe ack).1.kind ≠ .matched)
    (hrejected : (t.observe ack).1.kind ≠ .rejected) (id : CommandId) :
    (t.observe ack).2.records.lookup id = (t.records.lookup id).map fun record =>
      if id = ack.commandId then record.log (t.observe ack).1 else record := by
  unfold observe at *
  split
  · rename_i hlookup
    split_ifs with hid
    · rw [hid, hlookup, Option.map_none]
    · simp
  · rename_i record hlookup
    simp only [hlookup] at hmatched hrejected
    rcases record.observation_cases ack with ⟨-, -, -, hlogged⟩ | ⟨hkind, -⟩ | ⟨hkind, -⟩
    · simp only [SortedTable.lookup_insert]
      split_ifs with hid
      · rw [hid, hlookup, hlogged, Option.map_some]
      · simp
    · exact absurd hkind hmatched
    · exact absurd hkind hrejected

/-- An acknowledgement is counted once, under its kind. -/
theorem stats_observe (t : AckTracker) (ack : CommandAck) :
    (t.observe ack).2.stats = t.stats.count (t.observe ack).1.kind := by
  unfold observe
  split <;> rfl

/-- In every run the states of the records agree with their counters, a terminal record is settled
until an expectation of its command comes, an acknowledgement that does not count is only logged in
the record it names and counted under its kind, and a compaction drops terminal records only: the
ones with the lowest identifiers, as many as there are records too many. -/
theorem tracker_states (ops : List AckOp) :
    let t := Runs.run step {} ops
    t.Valid ∧
      (∀ later id record, t.records.lookup id = some record → record.state.terminal →
        (∀ expectation, .expect expectation ∈ later → expectation.commandId ≠ id) →
        (Runs.run step t later).Settled id record later) ∧
      (∀ ack, (t.observe ack).1.kind ≠ .matched → (t.observe ack).1.kind ≠ .rejected →
        (t.observe ack).2.stats = t.stats.count (t.observe ack).1.kind ∧
        ∀ id, (t.observe ack).2.records.lookup id = (t.records.lookup id).map fun record =>
          if id = ack.commandId then record.log (t.observe ack).1 else record) ∧
      ∀ keepRecent, SortedTable.DropsLowest (·.state.terminal)
        (min (t.records.count (·.state.terminal)) (t.records.size - keepRecent)) t.records
        (t.compactTerminal keepRecent).records := by
  intro t
  have hvalid : t.Valid :=
    run_invariant (fun (t : AckTracker) op (h : t.Valid) => h.step op)
      (fun _ _ hlookup => by cases hlookup) ops
  refine ⟨hvalid, fun later id record hlookup hterminal hexpect => ?_,
    fun ack hmatched hrejected => ⟨t.stats_observe ack, t.observe_logged ack hmatched hrejected⟩,
    t.compact_terminal_drops⟩
  have hsettled : t.Settled id record [] := .inl ⟨record, hlookup, rfl, rfl, rfl, rfl⟩
  simpa [Settled] using hsettled.run hterminal later hexpect

end AckTracker

end Aethon.Control
