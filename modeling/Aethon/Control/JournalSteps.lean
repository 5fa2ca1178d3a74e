import Aethon.Control.CommandJournal

/-!
# What the journal operations can do

Besides appending and compacting, every operation moves single entries that are not terminal from
one state to another. `EntryEvent` names the six moves and what each does to the counters.
`due_entry_cases` to `expire_entry_cases` say which moves an operation makes, and `step_rule` is
the rule that follows for a property of the journal: it is enough that moves keep it, besides what
`append_cases` and a compaction do.
-/

namespace Aethon.Control

open Protocol Runs

/-- The moves of an entry between states. -/
inductive EntryEvent where
  | dispatched
  | rescheduled
  | acknowledged
  | failed
  | expired
  | cancelled
  deriving DecidableEq, Repr

namespace EntryEvent

/-- The state that an entry enters. -/
def after : EntryEvent → CommandState
  | dispatched => .sent
  | rescheduled => .pending
  | acknowledged => .acknowledged
  | failed => .failed
  | expired => .expired
  | cancelled => .cancelled

/-- The counters after the move. -/
def count (stats : CommandJournalStats) : EntryEvent → CommandJournalStats
  | dispatched => { stats with dispatched := stats.dispatched + 1 }
  | rescheduled => stats
  | acknowledged => { stats with acknowledged := stats.acknowledged + 1 }
  | failed => { stats with failed := stats.failed + 1 }
  | expired => { stats with expired := stats.expired + 1 }
  | cancelled => { stats with cancelled := stats.cancelled + 1 }

end EntryEvent

/-- `Moved event j j' id` says that `j'` is `j` with the entry under the identifier moved. Only a
dispatch counts an attempt, and only while attempts are left. -/
structure Moved (event : EntryEvent) (j j' : CommandJournal) (id : CommandId) : Prop where
  entries : ∃ entry entry', j.entries.lookup id = some entry ∧
    j'.entries = j.entries.insert id entry' ∧ entry.state.terminal = false ∧
    entry'.state = event.after ∧ entry'.command = entry.command ∧
    entry'.attempts = (if event = .dispatched then entry.attempts + 1 else entry.attempts) ∧
    (event = .dispatched → entry.attempts < j.config.retry.maxAttempts)
  config : j'.config = j.config
  stats : j'.stats = event.count j.stats
  nextId : j'.nextId = j.nextId

/-- An entry is moved without an attempt when it is put back in a new state. -/
theorem moved_of_insert {event : EntryEvent} {j j' : CommandJournal} {id : CommandId}
    {entry entry' : JournalEntry} (hevent : event ≠ .dispatched)
    (hlookup : j.entries.lookup id = some entry) (hactive : entry.state.terminal = false)
    (hentries : j'.entries = j.entries.insert id entry') (hstate : entry'.state = event.after)
    (hcommand : entry'.command = entry.command) (hattempts : entry'.attempts = entry.attempts)
    (hconfig : j'.config = j.config) (hstats : j'.stats = event.count j.stats)
    (hnextId : j'.nextId = j.nextId) : Moved event j j' id := by
  refine ⟨⟨entry, entry', hlookup, hentries, hactive, hstate, hcommand, ?_, fun h =>
    absurd h hevent⟩, hconfig, hstats, hnextId⟩
  rw [if_neg hevent]
  exact hattempts

namespace CommandJournal

/-! ## Due commands -/

/-- The entry of a dispatch may be sent at a time, and the dispatch is its next attempt. -/
def Sendable (j : CommandJournal) (nowNs : UInt64) (dispatch : JournalDispatch) : Prop :=
  ∃ entry, j.entries.lookup dispatch.id = some entry ∧ entry.state.terminal = false ∧
    entry.nextAttemptTimeNs ≤ nowNs ∧
    (entry.command.expiresTimeNs ≠ 0 → nowNs < entry.command.expiresTimeNs) ∧
    entry.attempts < j.config.retry.maxAttempts ∧ dispatch.attempt = entry.attempts + 1

/-- A pass of `due` leaves the journal, closes the entry, or dispatches it. -/
theorem due_entry_cases (nowNs : UInt64) (maxCount : Nat) (dispatches : List JournalDispatch)
    (j : CommandJournal) (id : CommandId) :
    dueEntry nowNs maxCount (dispatches, j) id = (dispatches, j) ∨
      (∃ j' event, dueEntry nowNs maxCount (dispatches, j) id = (dispatches, j') ∧
        (event = .expired ∨ event = .failed) ∧ Moved event j j' id) ∨
      ∃ j' dispatch, dueEntry nowNs maxCount (dispatches, j) id = (dispatches ++ [dispatch], j') ∧
        dispatches.length < maxCount ∧ dispatch.id = id ∧ j.Sendable nowNs dispatch ∧
        Moved .dispatched j j' id := by
  unfold dueEntry
  simp only
  split_ifs with hfull
  · exact .inl rfl
  split
  · exact .inl rfl
  rename_i entry hlookup
  split_ifs with hterminal hexpired hearly hspent
  · exact .inl rfl
  · exact .inr (.inl ⟨_, .expired, rfl, .inl rfl, moved_of_insert (by decide) hlookup
      (by simpa using hterminal) rfl rfl rfl rfl rfl rfl rfl⟩)
  · exact .inl rfl
  · exact .inr (.inl ⟨_, .failed, rfl, .inr rfl, moved_of_insert (by decide) hlookup
      (by simpa using hterminal) rfl rfl rfl rfl rfl rfl rfl⟩)
  · have hroom : entry.attempts < j.config.retry.maxAttempts := by simpa using hspent
    have hactive : entry.state.terminal = false := by simpa using hterminal
    refine .inr (.inr ⟨_, _, rfl, by omega, rfl, ⟨entry, hlookup, hactive, ?_, fun hzero => ?_,
      hroom, rfl⟩, ⟨⟨entry, _, hlookup, rfl, hactive, rfl, rfl, rfl, fun _ => hroom⟩, rfl, rfl,
      rfl⟩⟩)
    · simpa using hearly
    · simpa [JournalEntry.expiresBy, hzero] using hexpired

/-! ## Acknowledgements, cancellations and expiry -/

/-- An acknowledgement moves its entry, or changes nothing. -/
theorem acknowledge_cases (j : CommandJournal) (ack : CommandAck) :
    (j.acknowledge ack).2 = j ∨ ∃ event, event ≠ .dispatched ∧
      Moved event j (j.acknowledge ack).2 ack.commandId := by
  unfold acknowledge
  split
  · exact .inl rfl
  rename_i entry hlookup
  split_ifs with hdevice hterminal
  · exact .inl rfl
  · exact .inl rfl
  · have hactive : entry.state.terminal = false := by simpa using hterminal
    split
    · exact .inr ⟨.acknowledged, by decide,
        moved_of_insert (by decide) hlookup hactive rfl rfl rfl rfl rfl rfl rfl⟩
    · exact .inr ⟨.rescheduled, by decide,
        moved_of_insert (by decide) hlookup hactive rfl rfl rfl rfl rfl rfl rfl⟩
    all_goals
      exact .inr ⟨.failed, by decide,
        moved_of_insert (by decide) hlookup hactive rfl rfl rfl rfl rfl rfl rfl⟩

/-- A cancellation moves its entry, or changes nothing. -/
theorem cancel_cases (j : CommandJournal) (id : CommandId) (reason : String) :
    (j.cancel id reason).2 = j ∨ Moved .cancelled j (j.cancel id reason).2 id := by
  unfold cancel
  split
  · exact .inl rfl
  rename_i entry hlookup
  split_ifs with hterminal
  · exact .inl rfl
  · exact .inr (moved_of_insert (by decide) hlookup (by simpa using hterminal) rfl rfl rfl rfl rfl
      rfl rfl)

/-- The body of the loop expires an entry, or changes nothing. -/
theorem expire_entry_cases (nowNs : UInt64) (expired : List JournalEntry) (j : CommandJournal)
    (id : CommandId) :
    (expireEntry nowNs (expired, j) id).2 = j ∨
      Moved .expired j (expireEntry nowNs (expired, j) id).2 id := by
  unfold expireEntry
  simp only
  split
  · exact .inl rfl
  rename_i entry hlookup
  split_ifs with hterminal hexpired
  · exact .inl rfl
  · exact .inr (moved_of_insert (by decide) hlookup (by simpa using hterminal) rfl rfl rfl rfl rfl
      rfl rfl)
  · exact .inl rfl

/-! ## Additions -/

/-- An accepted command gets its own identifier or the next one, and the counter moves past it. -/
theorem append_cases (j : CommandJournal) (command : ControlCommand) :
    ((j.append command).1.appended = false ∧ (j.append command).2.entries = j.entries ∧
        (j.append command).2.config = j.config ∧ (j.append command).2.nextId = j.nextId ∧
        ∃ n, (j.append command).2.stats = { j.stats with duplicateRejections := n }) ∨
      ∃ id nextId entry, (j.append command).1 = ⟨true, id, "appended"⟩ ∧
        (j.append command).2 = { j with
          entries := j.entries.insert id entry
          stats.appended := j.stats.appended + 1
          nextId := nextId } ∧
        entry.state = .pending ∧ entry.attempts = 0 ∧
        sameActiveIntent entry.command command = true ∧
        j.entries.size < j.config.maxEntries ∧ j.duplicateActiveCommand command = false ∧
        (id = j.nextId ∧ nextId = j.nextId + 1 ∨
          j.entries.lookup id = none ∧ nextId = max j.nextId (id + 1)) := by
  unfold append
  split_ifs with hfull hduplicate hknown
  · exact .inl ⟨rfl, rfl, rfl, rfl, _, rfl⟩
  · exact .inl ⟨rfl, rfl, rfl, rfl, _, rfl⟩
  · exact .inl ⟨rfl, rfl, rfl, rfl, _, rfl⟩
  all_goals
    refine .inr ⟨_, _, _, rfl, rfl, rfl, rfl, ?_, by omega, by simpa using hduplicate, ?_⟩
    · simp [sameActiveIntent, JournalEntry.note]
    · unfold assignId
      split_ifs with hzero
      · exact .inl ⟨rfl, rfl⟩
      · exact .inr ⟨by simpa [hzero] using hknown, rfl⟩

/-! ## Compactions -/

/-- A compaction drops finished entries, those with the lowest identifiers, and as many as there
are too many entries. -/
theorem compact_completed_drops (j : CommandJournal) (keepRecent : Nat) :
    SortedTable.DropsLowest (·.state.terminal)
      (min (j.entries.count (·.state.terminal)) (j.entries.size - keepRecent)) j.entries
      (j.compactCompleted keepRecent).entries := by
  have hdrops := j.entries.dropFirst_to_size (·.state.terminal) keepRecent
  unfold compactCompleted
  split_ifs at hdrops ⊢ <;> exact hdrops

/-- What a compaction leaves was there before. -/
theorem lookup_of_compact {j : CommandJournal} {keepRecent : Nat} {id : CommandId}
    {entry : JournalEntry}
    (h : (j.compactCompleted keepRecent).entries.lookup id = some entry) :
    j.entries.lookup id = some entry := by
  obtain ⟨removed, -, -, -, -, hlookups⟩ := j.compact_completed_drops keepRecent
  rw [hlookups] at h
  split_ifs at h
  exact h

theorem config_compact (j : CommandJournal) (keepRecent : Nat) :
    (j.compactCompleted keepRecent).config = j.config := by
  unfold compactCompleted
  split_ifs <;> rfl

/-! ## Calls -/

/-- What the passes of a loop keep, the loop keeps. -/
theorem due_invariant (inv : List JournalDispatch × CommandJournal → Prop) {nowNs : UInt64}
    {maxCount : Nat}
    (hpass : ∀ loop id, inv loop → inv (dueEntry nowNs maxCount loop id)) {j : CommandJournal}
    (h : inv ([], j)) : inv (j.due nowNs maxCount) :=
  run_invariant hpass h j.entries.keys

theorem expire_invariant (inv : List JournalEntry × CommandJournal → Prop) {nowNs : UInt64}
    (hpass : ∀ loop id, inv loop → inv (expireEntry nowNs loop id)) {j : CommandJournal}
    (h : inv ([], j)) : inv (j.expire nowNs) :=
  run_invariant hpass h j.entries.keys

/-- What holds before a call and is kept by every move holds after the call, whatever call it
is. -/
theorem step_rule (inv : CommandJournal → Prop)
    (hmoved : ∀ event j j' id, inv j → Moved event j j' id → inv j')
    {j : CommandJournal} {op : JournalOp} (h : inv j)
    (happend : ∀ command, op = .append command → inv (j.append command).2)
    (hcompact : ∀ keepRecent, op = .compactCompleted keepRecent →
      inv (j.compactCompleted keepRecent)) :
    inv (j.step op) := by
  cases op with
  | append command => exact happend command rfl
  | due nowNs maxCount =>
      refine due_invariant (fun loop => inv loop.2) (fun loop id h => ?_) h
      rcases due_entry_cases nowNs maxCount loop.1 loop.2 id with
        hsame | ⟨j', event, hclosed, -, hmove⟩ | ⟨j', dispatch, hsent, -, -, -, hmove⟩
      · rwa [hsame]
      · rw [hclosed]
        exact hmoved event loop.2 j' id h hmove
      · rw [hsent]
        exact hmoved .dispatched loop.2 j' id h hmove
  | acknowledge ack =>
      rcases j.acknowledge_cases ack with hsame | ⟨event, -, hmove⟩
      · show inv (j.acknowledge ack).2
        rwa [hsame]
      · exact hmoved event j _ _ h hmove
  | cancel id reason =>
      rcases j.cancel_cases id reason with hsame | hmove
      · show inv (j.cancel id reason).2
        rwa [hsame]
      · exact hmoved .cancelled j _ id h hmove
  | expire nowNs =>
      refine expire_invariant (fun loop => inv loop.2) (fun loop id h => ?_) h
      rcases expire_entry_cases nowNs loop.1 loop.2 id with hsame | hmove
      · rwa [hsame]
      · exact hmoved .expired loop.2 _ id h hmove
  | compactCompleted keepRecent => exact hcompact keepRecent rfl

/-- No call changes the configuration. -/
theorem config_step (j : CommandJournal) (op : JournalOp) : (j.step op).config = j.config := by
  refine step_rule (fun j' => j'.config = j.config)
    (fun event j' j'' id h hmoved => hmoved.config.trans h) rfl (fun command _ => ?_)
    fun keepRecent _ => j.config_compact keepRecent
  rcases j.append_cases command with ⟨-, -, hconfig, -⟩ | ⟨_, _, _, -, happended, -⟩
  · exact hconfig
  · rw [happended]

end CommandJournal

end Aethon.Control
