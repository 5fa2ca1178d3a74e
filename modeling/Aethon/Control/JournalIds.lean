import Aethon.Foundation.IdCounter
import Aethon.Control.JournalSteps

/-!
# The identifiers of the journal

The journal hands out identifiers as the scheduler does: an explicit one is looked up first, an
automatic one comes from the counter unchecked. A compaction removes entries and leaves the counter
where it is, so it takes nothing away from the bound. `never_overwrites_iff` says what is left to
ask of a run.
-/

namespace Aethon.Control

open IdCounter Runs

namespace CommandJournal

/-- `clear` starts the identifiers again. -/
def clear (j : CommandJournal) : CommandJournal :=
  { j with entries := ∅, stats := {}, nextId := 1 }

/-! ## What an append does -/

/-- The journal has room for the command, no active entry has the same intent, and the command's own
identifier, if it has one, is not in the journal. -/
def Admits (j : CommandJournal) (command : ControlCommand) : Prop :=
  j.entries.size < j.config.maxEntries ∧ j.duplicateActiveCommand command = false ∧
    (command.id = 0 ∨ j.entries.lookup command.id = none)

/-- A successful append returns an identifier that was not in the journal, stores the command under
it, and leaves every other entry as it was. -/
def NeverOverwrites (j : CommandJournal) (command : ControlCommand) : Prop :=
  (j.append command).1.appended = true →
    (j.append command).1.id ≠ 0 ∧ j.entries.lookup (j.append command).1.id = none ∧
      (∃ entry, (j.append command).2.entries.lookup (j.append command).1.id = some entry ∧
        entry.command.id = (j.append command).1.id ∧
        sameActiveIntent entry.command command = true) ∧
      ∀ other entry, j.entries.lookup other = some entry →
        (j.append command).2.entries.lookup other = some entry

/-- A successful append is one of an admitted command, under the assigned identifier. -/
theorem appended_iff (j : CommandJournal) (command : ControlCommand) :
    (j.append command).1.appended = true ↔ j.Admits command := by
  unfold append Admits
  split_ifs with hfull hduplicate hknown
  · simp [Nat.not_lt.mpr hfull]
  · simp [hduplicate]
  · have hlookup : j.entries.lookup command.id ≠ none := by
      rw [← Option.isSome_iff_ne_none]
      exact hknown.2
    simp [hknown.1, hlookup]
  all_goals
    refine iff_of_true rfl ⟨by omega, by simpa using hduplicate, ?_⟩
    by_cases hzero : command.id = 0
    · exact .inl hzero
    · exact .inr (by simpa [hzero] using hknown)

/-- A command that is admitted gets an entry under its id. -/
theorem append_of_admits {j : CommandJournal} {command : ControlCommand} (h : j.Admits command) :
    ∃ entry, j.append command = (⟨true, (j.assignId command).1, "appended"⟩, { j with
        entries := j.entries.insert (j.assignId command).1 entry
        stats.appended := j.stats.appended + 1
        nextId := (j.assignId command).2 }) ∧
      entry.command.id = (j.assignId command).1 ∧
      sameActiveIntent entry.command command = true := by
  obtain ⟨hroom, hactive, hid⟩ := h
  unfold append
  rw [if_neg (by omega), if_neg (by simp [hactive]), if_neg]
  · exact ⟨_, rfl, rfl, by simp [sameActiveIntent, JournalEntry.note]⟩
  · rintro ⟨hexplicit, hknown⟩
    rw [hid.resolve_left hexplicit] at hknown
    cases hknown

/-- An explicit identifier is safe, and an automatic one is safe if the counter is free. -/
theorem never_overwrites_iff_free (j : CommandJournal) (command : ControlCommand) :
    j.NeverOverwrites command ↔
      (j.Admits command → command.id = 0 → Free j.entries.lookup j.nextId) := by
  unfold NeverOverwrites
  rw [appended_iff]
  refine imp_congr_right fun hadmits => ?_
  obtain ⟨entry, happend, hcommand, hintent⟩ := append_of_admits hadmits
  rw [happend]
  constructor
  · rintro ⟨hpositive, hnone, -⟩ hzero
    unfold assignId at hpositive hnone
    rw [if_pos hzero] at hpositive hnone
    exact ⟨hpositive, hnone⟩
  · intro h
    have hfree : Free j.entries.lookup (j.assignId command).1 := by
      unfold assignId
      split_ifs with hzero
      · exact h hzero
      · exact ⟨hzero, hadmits.2.2.resolve_left hzero⟩
    refine ⟨hfree.1, hfree.2, ⟨entry, (SortedTable.lookup_insert ..).trans (if_pos rfl), hcommand,
      hintent⟩, fun other held hlookup => ?_⟩
    exact SortedTable.lookup_insert_of_fresh hfree.2 hlookup

end CommandJournal

/-! ## Runs -/

/-- Any call of the journal that changes it. -/
inductive JournalCall where
  | op (op : JournalOp)
  | clear

/-- The journal after a call, and whether its counter has wrapped since it was last cleared. -/
def CommandJournal.call (j : CommandJournal × Bool) : JournalCall → CommandJournal × Bool
  | .op op => (j.1.step op, j.2 || !decide (j.1.nextId ≤ (j.1.step op).nextId))
  | .clear => (j.1.clear, false)

namespace CommandJournal

/-- A successful append of the call overwrites nothing. -/
def CallSafe (j : CommandJournal × Bool) : JournalCall → Prop
  | .op (.append command) => j.1.NeverOverwrites command
  | _ => True

/-- Where the counter has wrapped or stands at the largest identifier, an automatic identifier is
asked for only while the counter is free. -/
def CounterFree (j : CommandJournal × Bool) : JournalCall → Prop
  | .op (.append command) => j.1.Admits command → command.id = 0 →
      j.2 = true ∨ j.1.nextId = -1 → Free j.1.entries.lookup j.1.nextId
  | _ => True

/-- The counter is ahead of the journal. -/
def CounterAhead (j : CommandJournal × Bool) : Prop :=
  Ahead j.1.entries.lookup j.1.nextId j.2

/-- Every call but an append leaves the counter alone and adds nothing to the journal. -/
theorem step_adds_nothing (j : CommandJournal) {op : JournalOp}
    (hop : ∀ command, op ≠ .append command) : (j.step op).nextId = j.nextId ∧
      ∀ id entry, (j.step op).entries.lookup id = some entry →
        ∃ held, j.entries.lookup id = some held := by
  refine step_rule (fun j' => j'.nextId = j.nextId ∧ ∀ id entry,
      j'.entries.lookup id = some entry → ∃ held, j.entries.lookup id = some held)
    (fun event j' j'' moved h hmoved => ?_) ⟨rfl, fun id entry hlookup => ⟨entry, hlookup⟩⟩
    (fun command happend => absurd happend (hop command)) fun keepRecent _ => ⟨?_, ?_⟩
  · obtain ⟨hnext, hkeys⟩ := h
    obtain ⟨before, after, hbefore, hentries, -⟩ := hmoved.entries
    refine ⟨hmoved.nextId.trans hnext, fun id entry hlookup => ?_⟩
    rw [hentries, SortedTable.lookup_insert] at hlookup
    split_ifs at hlookup with hkey
    · exact hkey ▸ hkeys moved before hbefore
    · exact hkeys id entry hlookup
  · unfold compactCompleted
    split_ifs <;> rfl
  · exact fun id entry hlookup => ⟨entry, lookup_of_compact hlookup⟩

/-- Every call keeps the counter ahead of the journal, or makes it wrap. -/
theorem counter_ahead_call (j : CommandJournal × Bool) (call : JournalCall) (h : CounterAhead j) :
    CounterAhead (CommandJournal.call j call) := by
  obtain ⟨j, wrapped⟩ := j
  cases call with
  | clear => exact Ahead.new fun _ => rfl
  | op op =>
      by_cases hop : ∃ command, op = .append command
      · obtain ⟨command, rfl⟩ := hop
        rcases j.append_cases command with ⟨-, hentries, -, hnext, -⟩ |
          ⟨id, nextId, entry, -, hadded, -, -, -, -, -, hid⟩
        · refine h.keep hnext fun other held hlookup => ⟨held, ?_⟩
          rw [← hentries]
          exact hlookup
        · have hadd : CounterAhead ((j.append command).2,
              wrapped || !decide (j.nextId ≤ (j.append command).2.nextId)) := by
            rw [hadded]
            exact h.insert hid entry
          exact hadd
      · obtain ⟨hnext, hkeys⟩ := j.step_adds_nothing fun command heq => hop ⟨command, heq⟩
        exact h.keep hnext hkeys

/-- **No overwriting.** In every run of a new journal, no successful append overwrites an entry if
and only if every automatic identifier that is asked for once the counter has wrapped, or while it
stands at the largest identifier, finds the counter free. -/
theorem never_overwrites_iff (config : CommandJournalConfig) (calls : List JournalCall) :
    Along CommandJournal.call CallSafe ({ config }, false) calls ↔
      Along CommandJournal.call CounterFree ({ config }, false) calls := by
  have hnew : CounterAhead ({ config }, false) := Ahead.new fun _ => rfl
  refine along_congr counter_ahead_call (fun j call hj => ?_) hnew calls
  obtain ⟨j, wrapped⟩ := j
  cases call with
  | clear => exact Iff.rfl
  | op op =>
      cases op with
      | append command =>
          show j.NeverOverwrites command ↔ (j.Admits command → command.id = 0 →
            wrapped = true ∨ j.nextId = -1 → Free j.entries.lookup j.nextId)
          rw [never_overwrites_iff_free]
          exact imp_congr_right fun _ => imp_congr_right fun _ => Ahead.free_iff hj
      | _ => exact Iff.rfl

/-- The largest identifier is chosen for a command that is then sent, and the counter is moved up to
it: the next automatic identifier is that of the live command, which is lost. -/
theorem overwrites_live :
    let calls : List JournalCall := [.op (.append { id := 0xffffffffffffffff, label := "start" }),
      .op (.due 0 1), .op (.append { id := 0xfffffffffffffffe, label := "configure" })]
    let j := (run CommandJournal.call ({}, false) calls).1
    ((j.entries.lookup 0xffffffffffffffff).map JournalEntry.state = some .sent) ∧
      (j.append {}).1.appended = true ∧
      ((j.append {}).2.entries.lookup 0xffffffffffffffff).map JournalEntry.state =
        some .pending ∧
      ¬j.NeverOverwrites {} := by
  intro calls j
  have happended : (j.append {}).1.appended = true := by decide +kernel
  refine ⟨by decide +kernel, happended, by decide +kernel, fun hsafe => ?_⟩
  have hnone := (hsafe happended).2.1
  exact absurd hnone (by decide +kernel)

end CommandJournal

end Aethon.Control
