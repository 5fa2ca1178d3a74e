import Aethon.Control.JournalSteps
import Aethon.Foundation.IdCounter

/-!
# The lifecycle of commands

`journal_lifecycle`: in every run in which the identifier counter does not wrap, the journal is
within its bound, no two active commands have the same intent, every appended command is active or
counted once as finished, and a finished entry stays as it is until it is compacted. A compaction
drops the finished entries with the lowest identifiers and as many as it should.
-/

namespace Aethon.Control

open IdCounter Runs

namespace CommandJournal

/-- How many entries are not terminal. -/
def nonTerminal (j : CommandJournal) : Nat :=
  j.entries.count fun entry => !entry.state.terminal

/-- No two entries that are not terminal share device, kind, label and payload. -/
def UniqueIntents (entries : SortedTable CommandId JournalEntry) : Prop :=
  ∀ id id' entry entry', entries.lookup id = some entry → entries.lookup id' = some entry' →
    id ≠ id' → entry.state.terminal = false → entry'.state.terminal = false →
    sameActiveIntent entry.command entry'.command = false

/-- What holds of every journal. -/
structure Consistent (j : CommandJournal) : Prop where
  intents : UniqueIntents j.entries
  capacity : j.entries.size ≤ j.config.maxEntries
  appended : j.stats.appended =
    j.nonTerminal + j.stats.acknowledged + j.stats.failed + j.stats.expired + j.stats.cancelled
  known : ∀ id entry, j.entries.lookup id = some entry → Below j.nextId id

theorem consistent_init (config : CommandJournalConfig) : Consistent { config := config } where
  intents := fun _ _ _ _ hone => by cases hone
  capacity := Nat.zero_le _
  appended := rfl
  known := fun _ _ hone => by cases hone

/-! ## Intents -/

theorem same_active_intent_comm (lhs rhs : ControlCommand) :
    sameActiveIntent lhs rhs = sameActiveIntent rhs lhs := by
  simp only [sameActiveIntent, eq_comm]

/-- Intents stay unique when the entry put into the table shares its intent with no active one. -/
theorem UniqueIntents.insert {entries : SortedTable CommandId JournalEntry} {id : CommandId}
    {entry : JournalEntry} (h : UniqueIntents entries)
    (hnew : ∀ other held, entries.lookup other = some held → other ≠ id →
      entry.state.terminal = false → held.state.terminal = false →
      sameActiveIntent entry.command held.command = false) :
    UniqueIntents (entries.insert id entry) := by
  intro first second one other hone hother hne honeActive hotherActive
  rw [SortedTable.lookup_insert] at hone hother
  split_ifs at hone hother with hfirst hsecond hsecond
  · exact absurd (hfirst.trans hsecond.symm) hne
  · obtain rfl := Option.some.inj hone
    exact hnew second other hother hsecond honeActive hotherActive
  · obtain rfl := Option.some.inj hother
    rw [same_active_intent_comm]
    exact hnew first one hone hfirst hotherActive honeActive
  · exact h first second one other hone hother hne honeActive hotherActive

/-! ## Moves, additions and compactions -/

/-- A moved entry keeps the journal consistent. -/
theorem Consistent.moved {event : EntryEvent} {j j' : CommandJournal} {id : CommandId}
    (h : j.Consistent) (hmoved : Moved event j j' id) : j'.Consistent := by
  obtain ⟨⟨entry, entry', hlookup, hentries, hactive, hafter, hcommand, -⟩, hconfig, hstats,
    hnextId⟩ := hmoved
  have hcount := j.entries.count_insert id entry' fun entry => !entry.state.terminal
  have hsize := j.entries.size_insert id entry'
  rw [hlookup, Option.elim_some, ← hentries] at hcount hsize
  refine ⟨?_, ?_, ?_, fun other held hother => ?_⟩
  · rw [hentries]
    refine h.intents.insert fun other held hother hne _ hheld => ?_
    rw [hcommand]
    exact h.intents id other entry held hlookup hother hne.symm hactive hheld
  · rw [hconfig]
    have := h.capacity
    omega
  · -- the entry stays active or one counter takes it over
    have hnonTerminal : j'.nonTerminal + 1 =
        j.nonTerminal + if event.after.terminal = false then 1 else 0 := by
      simpa [nonTerminal, hactive, hafter] using hcount
    rw [hstats]
    have := h.appended
    cases event <;> simp [EntryEvent.count, EntryEvent.after, CommandState.terminal]
      at hnonTerminal ⊢ <;> omega
  · rw [hnextId]
    rw [hentries, SortedTable.lookup_insert] at hother
    split_ifs at hother with hkey
    · exact hkey ▸ h.known id entry hlookup
    · exact h.known other held hother

/-- A new entry keeps the journal consistent, as long as the counter does not wrap. -/
theorem Consistent.append {j : CommandJournal} (h : j.Consistent) (command : ControlCommand)
    (hwrap : j.nextId ≤ (j.append command).2.nextId) : (j.append command).2.Consistent := by
  rcases j.append_cases command with ⟨-, hentries, hconfig, hnextId, n, hstats⟩ |
    ⟨id, nextId, entry, -, happended, hstate, -, hintent, hroom, hactive, hid⟩
  · obtain ⟨intents, capacity, appended, known⟩ := h
    generalize (j.append command).2 = j' at *
    obtain ⟨_, _, _, _⟩ := j'
    simp only at hentries hconfig hnextId hstats
    subst hentries hconfig hnextId hstats
    exact ⟨intents, capacity, appended, known⟩
  · rw [happended] at hwrap ⊢
    obtain ⟨hfresh, hbelow⟩ := fresh h.known hwrap hid
    have hcount := j.entries.count_insert id entry fun entry => !entry.state.terminal
    have hsize := j.entries.size_insert id entry
    rw [hfresh, Option.elim_none] at hcount hsize
    refine ⟨?_, ?_, ?_, fun other held hother => ?_⟩
    · refine h.intents.insert fun other held hother _ _ hheld => ?_
      rw [duplicateActiveCommand, List.any_eq_false] at hactive
      have hdifferent := hactive held (SortedTable.mem_values_iff.mpr ⟨other, hother⟩)
      simp only [sameActiveIntent, Bool.and_eq_true, decide_eq_true_eq] at hintent
      obtain ⟨⟨⟨hdevice, hkind⟩, hlabel⟩, hpayload⟩ := hintent
      rw [same_active_intent_comm]
      simpa [hheld, sameActiveIntent, hdevice, hkind, hlabel, hpayload] using hdifferent
    · show (j.entries.insert id entry).size ≤ j.config.maxEntries
      omega
    · have hnonTerminal : nonTerminal { j with entries := j.entries.insert id entry } =
          j.nonTerminal + 1 := by
        simpa [nonTerminal, hstate, CommandState.terminal] using hcount
      have := h.appended
      show j.stats.appended + 1 = nonTerminal { j with entries := j.entries.insert id entry } +
        j.stats.acknowledged + j.stats.failed + j.stats.expired + j.stats.cancelled
      omega
    · rw [SortedTable.lookup_insert] at hother
      split_ifs at hother with hkey
      · exact hkey ▸ hbelow
      · exact (h.known other held hother).mono hwrap

/-- A compaction keeps the journal consistent. -/
theorem Consistent.compactCompleted {j : CommandJournal} (h : j.Consistent) (keepRecent : Nat) :
    (j.compactCompleted keepRecent).Consistent := by
  refine ⟨fun id id' entry entry' hone hother => h.intents id id' entry entry'
    (lookup_of_compact hone) (lookup_of_compact hother), ?_, ?_, fun id entry hlookup => ?_⟩
  · unfold CommandJournal.compactCompleted
    split_ifs
    · exact h.capacity
    · exact Nat.le_trans (j.entries.size_dropFirst_le _ _) h.capacity
  · have hnonTerminal : (j.compactCompleted keepRecent).nonTerminal = j.nonTerminal := by
      unfold CommandJournal.compactCompleted
      split_ifs
      · rfl
      · exact SortedTable.count_dropFirst fun entry hterminal => by rw [hterminal]; rfl
    rw [hnonTerminal]
    unfold CommandJournal.compactCompleted
    split_ifs <;> exact h.appended
  · unfold CommandJournal.compactCompleted
    split_ifs <;> exact h.known id entry (lookup_of_compact hlookup)

/-! ## Runs -/

/-- The identifier counter does not wrap in a call. -/
def CounterKept (j : CommandJournal) (op : JournalOp) : Prop :=
  j.nextId ≤ (j.step op).nextId

instance (j : CommandJournal) (op : JournalOp) : Decidable (j.CounterKept op) :=
  inferInstanceAs (Decidable (_ ≤ _))

/-- An operation keeps the journal consistent, as long as the counter does not wrap. -/
theorem Consistent.step {j : CommandJournal} (h : j.Consistent) (op : JournalOp)
    (hwrap : j.CounterKept op) : (j.step op).Consistent := by
  refine step_rule Consistent (fun event j j' id h => h.moved) h (fun command hop => ?_)
    fun keepRecent _ => h.compactCompleted keepRecent
  subst hop
  exact h.append command hwrap

/-! ## Finished entries -/

/-- A finished entry under an identifier. -/
def Holds (id : CommandId) (entry : JournalEntry) (j : CommandJournal) : Prop :=
  j.entries.lookup id = some entry ∧ entry.state.terminal

/-- Only active entries are moved. -/
theorem Holds.moved {id : CommandId} {entry : JournalEntry} {j j' : CommandJournal}
    (h : j.Holds id entry) {event : EntryEvent} {other : CommandId}
    (hmoved : Moved event j j' other) : j'.Holds id entry := by
  obtain ⟨hlookup, hterminal⟩ := h
  obtain ⟨held, held', hother, hentries, hactive, -⟩ := hmoved.entries
  refine ⟨?_, hterminal⟩
  rw [hentries, SortedTable.lookup_insert, if_neg]
  · exact hlookup
  · intro hkey
    rw [← hkey, hlookup] at hother
    obtain rfl := Option.some.inj hother
    rw [hterminal] at hactive
    cases hactive

/-- A finished entry stays as it is in every call but a compaction. -/
theorem Holds.step {id : CommandId} {entry : JournalEntry} {j : CommandJournal}
    (h : j.Holds id entry) (hj : j.Consistent) (op : JournalOp) (hwrap : j.CounterKept op)
    (hcompact : ∀ keepRecent, op ≠ .compactCompleted keepRecent) : (j.step op).Holds id entry := by
  refine step_rule (Holds id entry) (fun event j j' other h => h.moved) h (fun command hop => ?_)
    fun keepRecent hop => absurd hop (hcompact keepRecent)
  subst hop
  rcases j.append_cases command with ⟨-, hentries, -⟩ |
    ⟨other, nextId, added, -, happended, -, -, -, -, -, hid⟩
  · exact ⟨hentries ▸ h.1, h.2⟩
  · rw [CounterKept, CommandJournal.step, happended] at hwrap
    obtain ⟨hfresh, -⟩ := fresh hj.known hwrap hid
    rw [happended]
    exact ⟨SortedTable.lookup_insert_of_fresh hfresh h.1, h.2⟩

theorem Consistent.run {j : CommandJournal} (h : j.Consistent) (ops : List JournalOp)
    (hwrap : Along CommandJournal.step CounterKept j ops) :
    (Runs.run CommandJournal.step j ops).Consistent :=
  run_invariant_along (fun (j : CommandJournal) op (h : j.Consistent) hkept => h.step op hkept) h
    hwrap

/-- A finished entry stays as it is in every run, unless it is compacted away. -/
theorem Holds.run {id : CommandId} {entry : JournalEntry} {j : CommandJournal}
    (h : j.Holds id entry) (hj : j.Consistent) (ops : List JournalOp)
    (hwrap : Along CommandJournal.step CounterKept j ops)
    (hcompact : ∀ keepRecent, .compactCompleted keepRecent ∉ ops) :
    (Runs.run CommandJournal.step j ops).Holds id entry := by
  induction ops generalizing j with
  | nil => exact h
  | cons op ops ih =>
      refine ih (h.step hj op hwrap.1 fun keepRecent hop => ?_) (hj.step op hwrap.1) hwrap.2
        fun keepRecent hmem => hcompact keepRecent (List.mem_cons_of_mem op hmem)
      exact hcompact keepRecent (hop ▸ List.mem_cons_self)

/-- No run changes the configuration. -/
theorem config_run (j : CommandJournal) (ops : List JournalOp) :
    (Runs.run step j ops).config = j.config :=
  run_invariant (fun (j' : CommandJournal) op (h : j'.config = j.config) =>
    (j'.config_step op).trans h) rfl ops

/-- In every run from an empty journal in which the identifier counter does not wrap, the journal
is consistent, a finished entry stays as it is until a compaction, and a compaction drops finished
entries only: the ones with the lowest identifiers, as many as there are entries too many. -/
theorem journal_lifecycle (config : CommandJournalConfig) (ops : List JournalOp)
    (hwrap : Along step CounterKept { config := config } ops) :
    let j := Runs.run step { config := config } ops
    j.config = config ∧ j.Consistent ∧
      (∀ later, Along step CounterKept j later →
        (∀ keepRecent, .compactCompleted keepRecent ∉ later) →
        ∀ id entry, j.entries.lookup id = some entry → entry.state.terminal →
          (Runs.run step j later).entries.lookup id = some entry) ∧
      ∀ keepRecent, SortedTable.DropsLowest (·.state.terminal)
        (min (j.entries.count (·.state.terminal)) (j.entries.size - keepRecent)) j.entries
        (j.compactCompleted keepRecent).entries := by
  intro j
  have hj : j.Consistent := (consistent_init config).run ops hwrap
  refine ⟨config_run _ ops, hj, fun later hlater hcompact id entry hlookup hterminal => ?_,
    j.compact_completed_drops⟩
  exact (Holds.run ⟨hlookup, hterminal⟩ hj later hlater hcompact).1

/-- A command that is sent, put off by a busy device, sent again and acknowledged. -/
theorem journal_lifecycle_busy :
    let ops : List JournalOp := [.append { device := 7, label := "tune" }, .due 0 4,
      .acknowledge { commandId := 1, device := 7, status := .busy }, .due 5000000 4,
      .acknowledge { commandId := 1, device := 7 }]
    (Runs.run step {} ops).Consistent := by
  intro ops
  exact (journal_lifecycle {} ops (by decide +kernel)).2.1

end CommandJournal

end Aethon.Control
