import Aethon.Control.JournalSteps
import Aethon.Foundation.Words

/-!
# Dispatch safety

`dispatch_safety`: the attempts dispatched for a command since it was appended are numbered from
one without gap or repeat, up to the limit of the retry policy; every dispatch is of a command that
may be sent at its time; a call of `due` dispatches no command twice and no more than it should;
and a finished command is never dispatched again. The retry delay plays no part, so its
floating-point arithmetic may be any function.
-/

namespace Aethon.Control

open Runs

namespace CommandJournal

/-- What a call dispatches. -/
def dispatches (j : CommandJournal) : JournalOp → List JournalDispatch
  | .due nowNs maxCount => (j.due nowNs maxCount).1
  | _ => []

/-- The identifier under which a call appends a command. -/
def appends (j : CommandJournal) : JournalOp → Option CommandId
  | .append command =>
      if (j.append command).1.appended then some (j.append command).1.id else none
  | _ => none

/-- The attempts of an identifier in a list of dispatches, in order. -/
def attemptsOf (id : CommandId) (dispatches : List JournalDispatch) : List UInt32 :=
  (dispatches.filter (·.id = id)).map (·.attempt)

/-- For each identifier the attempts dispatched since a command was last appended under it. -/
abbrev AttemptLog := CommandId → List UInt32

/-- A call, with the log it leaves. -/
def logStep (state : CommandJournal × AttemptLog) (op : JournalOp) : CommandJournal × AttemptLog :=
  (state.1.step op, fun id =>
    if state.1.appends op = some id then []
    else state.2 id ++ attemptsOf id (state.1.dispatches op))

/-- The attempts one to `n`. -/
def attemptsTo (n : UInt32) : List UInt32 :=
  (List.range n.toNat).map fun i => UInt32.ofNat (i + 1)

/-- The log of every command in the table holds its attempts so far, within the limit. -/
def Logged (j : CommandJournal) (log : AttemptLog) : Prop :=
  ∀ id entry, j.entries.lookup id = some entry →
    log id = attemptsTo entry.attempts ∧ entry.attempts ≤ j.config.retry.maxAttempts

/-- One attempt more is the next number. -/
theorem attempts_to_succ {n limit : UInt32} (h : n < limit) :
    attemptsTo (n + 1) = attemptsTo n ++ [n + 1] ∧ n + 1 ≤ limit := by
  have hlimit : n.toNat < limit.toNat := UInt32.lt_iff_toNat_lt.mp h
  have hnext : (n + 1).toNat = n.toNat + 1 := Words.toNat_add_one h
  refine ⟨?_, UInt32.le_iff_toNat_le.mpr (by omega)⟩
  rw [attemptsTo, hnext, List.range_succ, List.map_append, List.map_singleton, ← hnext,
    UInt32.ofNat_toNat]
  rfl

/-- What is no dispatch keeps the log as it is. -/
theorem Logged.moved {event : EntryEvent} {j j' : CommandJournal} {id : CommandId}
    {log : AttemptLog} (h : j.Logged log) (hmoved : Moved event j j' id)
    (hevent : event ≠ .dispatched) : j'.Logged log := by
  obtain ⟨⟨entry, entry', hlookup, hentries, -, -, -, hattempts, -⟩, hconfig, -, -⟩ := hmoved
  rw [if_neg hevent] at hattempts
  intro other held hother
  rw [hentries, SortedTable.lookup_insert] at hother
  rw [hconfig]
  split_ifs at hother with hkey
  · obtain rfl := Option.some.inj hother
    rw [hattempts, hkey]
    exact h id entry hlookup
  · exact h other held hother

/-- A dispatch appends the next attempt to the log of its command. -/
theorem Logged.dispatched {j j' : CommandJournal} {nowNs : UInt64} {dispatch : JournalDispatch}
    {log : AttemptLog} (h : j.Logged log) (hsendable : j.Sendable nowNs dispatch)
    (hmoved : Moved .dispatched j j' dispatch.id) :
    j'.Logged fun id => log id ++ attemptsOf id [dispatch] := by
  obtain ⟨⟨entry, entry', hlookup, hentries, -, -, -, hattempts, hroom⟩, hconfig, -, -⟩ := hmoved
  obtain ⟨held, hheld, -, -, -, -, hattempt⟩ := hsendable
  obtain rfl : entry = held := Option.some.inj (hlookup.symm.trans hheld)
  rw [if_pos rfl] at hattempts
  intro other later hother
  rw [hentries, SortedTable.lookup_insert] at hother
  rw [hconfig]
  split_ifs at hother with hkey
  · obtain rfl := Option.some.inj hother
    obtain ⟨hlog, -⟩ := h dispatch.id entry hlookup
    obtain ⟨hnext, hlimit⟩ := attempts_to_succ (hroom rfl)
    rw [hattempts, hnext, hkey]
    exact ⟨by simp [attemptsOf, hattempt, hlog], hlimit⟩
  · obtain ⟨hlog, hlimit⟩ := h other later hother
    exact ⟨by simp [attemptsOf, hlog, Ne.symm hkey], hlimit⟩

/-! ## A call of `due` -/

/-- What a move of another entry leaves sendable was sendable before. -/
theorem Sendable.of_moved {event : EntryEvent} {j j' : CommandJournal} {id : CommandId}
    {nowNs : UInt64} {dispatch : JournalDispatch} (hmoved : Moved event j j' id)
    (hother : dispatch.id ≠ id) (h : j'.Sendable nowNs dispatch) : j.Sendable nowNs dispatch := by
  obtain ⟨_, _, -, hentries, -⟩ := hmoved.entries
  obtain ⟨entry, hlookup, hrest⟩ := h
  rw [hentries, SortedTable.lookup_insert, if_neg hother] at hlookup
  rw [hmoved.config] at hrest
  exact ⟨entry, hlookup, hrest⟩

/-- The passes over different identifiers dispatch in their order, each at most once, what was
sendable when the loop began. -/
theorem due_loop (nowNs : UInt64) (maxCount : Nat) (ids : List CommandId) (hids : ids.Nodup)
    (dispatched : List JournalDispatch) (j : CommandJournal) :
    ∃ new, (ids.foldl (dueEntry nowNs maxCount) (dispatched, j)).1 = dispatched ++ new ∧
      (new.map (·.id)).Sublist ids ∧ (∀ dispatch ∈ new, j.Sendable nowNs dispatch) ∧
      (dispatched ++ new).length ≤ max dispatched.length maxCount := by
  induction ids generalizing dispatched j with
  | nil =>
      refine ⟨[], by simp, by simp, by simp, ?_⟩
      rw [List.append_nil]
      exact Nat.le_max_left _ _
  | cons id ids ih =>
      obtain ⟨hid, hrest⟩ := List.nodup_cons.mp hids
      -- the later passes see the entries that they look at as they were
      have hback {event : EntryEvent} {j' : CommandJournal} {new : List JournalDispatch}
          (hmove : Moved event j j' id) (hsub : (new.map (·.id)).Sublist ids)
          (hnew : ∀ dispatch ∈ new, j'.Sendable nowNs dispatch) :
          ∀ dispatch ∈ new, j.Sendable nowNs dispatch := by
        intro dispatch hmem
        have hmemIds : dispatch.id ∈ ids := hsub.subset (List.mem_map_of_mem hmem)
        exact (hnew dispatch hmem).of_moved hmove fun hsame => hid (hsame ▸ hmemIds)
      rw [List.foldl_cons]
      rcases due_entry_cases nowNs maxCount dispatched j id with
        hsame | ⟨j', event, hclosed, -, hmove⟩ | ⟨j', dispatch, hsent, hroom, rfl, hsendable, hmove⟩
      · rw [hsame]
        obtain ⟨new, hnew, hsub, hall, hlength⟩ := ih hrest dispatched j
        exact ⟨new, hnew, hsub.cons id, hall, hlength⟩
      · rw [hclosed]
        obtain ⟨new, hnew, hsub, hall, hlength⟩ := ih hrest dispatched j'
        exact ⟨new, hnew, hsub.cons id, hback hmove hsub hall, hlength⟩
      · rw [hsent]
        obtain ⟨new, hnew, hsub, hall, hlength⟩ := ih hrest (dispatched ++ [dispatch]) j'
        refine ⟨dispatch :: new, by rw [hnew]; simp, hsub.cons_cons dispatch.id,
          List.forall_mem_cons.mpr ⟨hsendable, hback hmove hsub hall⟩, ?_⟩
        simp only [List.length_append, List.length_cons, List.length_nil] at hlength ⊢
        omega

/-- A call of `due` dispatches sendable commands, none twice and no more than it should. -/
theorem due_dispatches (j : CommandJournal) (nowNs : UInt64) (maxCount : Nat) :
    (j.due nowNs maxCount).1.length ≤ maxCount ∧ ((j.due nowNs maxCount).1.map (·.id)).Nodup ∧
      ∀ dispatch ∈ (j.due nowNs maxCount).1, j.Sendable nowNs dispatch := by
  have hkeys := j.entries.nodup_keys
  obtain ⟨new, hnew, hsub, hall, hlength⟩ := due_loop nowNs maxCount j.entries.keys hkeys [] j
  have hdue : (j.due nowNs maxCount).1 = new := hnew
  rw [hdue]
  exact ⟨by simpa using hlength, hkeys.sublist hsub, hall⟩

/-- The log follows a call of `due`. -/
theorem Logged.due {j : CommandJournal} {log : AttemptLog} (h : j.Logged log) (nowNs : UInt64)
    (maxCount : Nat) :
    (j.due nowNs maxCount).2.Logged fun id => log id ++ attemptsOf id (j.due nowNs maxCount).1 := by
  refine due_invariant (fun loop => loop.2.Logged fun id => log id ++ attemptsOf id loop.1)
    (fun loop id hloop => ?_) (by simpa [attemptsOf] using h)
  rcases due_entry_cases nowNs maxCount loop.1 loop.2 id with
    hsame | ⟨j', event, hclosed, hevent, hmove⟩ | ⟨j', dispatch, hsent, -, rfl, hsendable, hmove⟩
  · rwa [hsame]
  · rw [hclosed]
    refine hloop.moved hmove fun hdispatched => ?_
    rw [hdispatched] at hevent
    rcases hevent with hevent | hevent <;> cases hevent
  · rw [hsent]
    simpa [attemptsOf] using hloop.dispatched hsendable hmove

/-! ## Runs -/

/-- A call that appends and dispatches nothing leaves the log. -/
theorem log_step_of_none {j : CommandJournal} {log : AttemptLog} {op : JournalOp}
    (happends : j.appends op = none) (hdispatches : j.dispatches op = []) :
    (logStep (j, log) op).2 = log := by
  funext id
  simp [logStep, happends, hdispatches, attemptsOf]

/-- An operation keeps the journal in step with its log. -/
theorem Logged.step {j : CommandJournal} {log : AttemptLog} (h : j.Logged log) (op : JournalOp) :
    (logStep (j, log) op).1.Logged (logStep (j, log) op).2 := by
  cases op with
  | append command =>
      rcases j.append_cases command with ⟨hrejected, hentries, hconfig, -⟩ |
        ⟨id, nextId, entry, hresult, happended, -, hattempts, -⟩
      · have happends : j.appends (.append command) = none := by simp [appends, hrejected]
        rw [log_step_of_none happends rfl]
        show (j.append command).2.Logged log
        unfold Logged
        rw [hentries, hconfig]
        exact h
      · intro other held hother
        have hlookup : (j.entries.insert id entry).lookup other = some held := by
          simpa [logStep, CommandJournal.step, happended] using hother
        have happends : j.appends (.append command) = some id := by simp [appends, hresult]
        simp only [logStep, happends, CommandJournal.step, happended]
        rw [SortedTable.lookup_insert] at hlookup
        split_ifs at hlookup with hkey
        · obtain rfl := Option.some.inj hlookup
          rw [hattempts, hkey, if_pos rfl]
          exact ⟨rfl, UInt32.le_iff_toNat_le.mpr (Nat.zero_le _)⟩
        · rw [if_neg fun hsame => hkey (Option.some.inj hsame).symm]
          simpa [dispatches, attemptsOf] using h other held hlookup
  | due nowNs maxCount =>
      have hlog : (logStep (j, log) (.due nowNs maxCount)).2 =
          fun id => log id ++ attemptsOf id (j.due nowNs maxCount).1 := rfl
      rw [hlog]
      exact h.due nowNs maxCount
  | acknowledge ack =>
      rw [log_step_of_none rfl rfl]
      show (j.acknowledge ack).2.Logged log
      rcases j.acknowledge_cases ack with hsame | ⟨event, hevent, hmove⟩
      · rwa [hsame]
      · exact h.moved hmove hevent
  | cancel id reason =>
      rw [log_step_of_none rfl rfl]
      show (j.cancel id reason).2.Logged log
      rcases j.cancel_cases id reason with hsame | hmove
      · rwa [hsame]
      · exact h.moved hmove (by decide)
  | expire nowNs =>
      rw [log_step_of_none rfl rfl]
      refine expire_invariant (fun loop => loop.2.Logged log) (fun loop id hloop => ?_) h
      rcases expire_entry_cases nowNs loop.1 loop.2 id with hsame | hmove
      · rwa [hsame]
      · exact hloop.moved hmove (by decide)
  | compactCompleted keepRecent =>
      rw [log_step_of_none rfl rfl]
      show (j.compactCompleted keepRecent).Logged log
      intro id entry hlookup
      rw [config_compact]
      exact h id entry (lookup_of_compact hlookup)

/-- No command under the identifier is active. -/
def Idle (id : CommandId) (j : CommandJournal) : Prop :=
  ∀ entry, j.entries.lookup id = some entry → entry.state.terminal

/-- An idle identifier stays idle and is not dispatched until a command is appended under it. -/
theorem Idle.step {id : CommandId} {j : CommandJournal} (h : j.Idle id) (op : JournalOp)
    (happend : j.appends op ≠ some id) :
    (j.step op).Idle id ∧ attemptsOf id (j.dispatches op) = [] := by
  constructor
  · refine step_rule (Idle id) (fun event j j' other h hmove => ?_) h (fun command hop => ?_)
      fun keepRecent _ entry hlookup => h entry (lookup_of_compact hlookup)
    · obtain ⟨held, held', hother, hentries, hactive, -⟩ := hmove.entries
      intro entry hlookup
      rw [hentries, SortedTable.lookup_insert] at hlookup
      split_ifs at hlookup with hkey
      · have := h held (hkey ▸ hother)
        rw [hactive] at this
        cases this
      · exact h entry hlookup
    · subst hop
      rcases j.append_cases command with ⟨-, hentries, -⟩ | ⟨other, _, _, hresult, happended, -⟩
      · exact fun entry hlookup => h entry (hentries ▸ hlookup)
      · have hne : id ≠ other := fun hsame => happend (by simp [appends, hresult, hsame])
        intro entry hlookup
        rw [happended, SortedTable.lookup_insert, if_neg hne] at hlookup
        exact h entry hlookup
  · have hnone : ∀ dispatch ∈ j.dispatches op, dispatch.id ≠ id := by
      cases op with
      | due nowNs maxCount =>
          intro dispatch hmem hid
          obtain ⟨-, -, hall⟩ := j.due_dispatches nowNs maxCount
          obtain ⟨entry, hlookup, hactive, -⟩ := hall dispatch hmem
          have := h entry (hid ▸ hlookup)
          rw [hactive] at this
          cases this
      | append | acknowledge | cancel | expire | compactCompleted =>
          exact fun dispatch hmem => by cases hmem
    rw [attemptsOf, List.filter_eq_nil_iff.mpr (by simpa using hnone), List.map_nil]

/-- An idle identifier sees no attempt until a command is appended under it. -/
theorem Idle.run {id : CommandId} (later : List JournalOp) {state : CommandJournal × AttemptLog}
    (h : state.1.Idle id)
    (happend : Along logStep (fun state op => state.1.appends op ≠ some id) state later) :
    (Runs.run logStep state later).2 id = state.2 id := by
  induction later generalizing state with
  | nil => rfl
  | cons op later ih =>
      obtain ⟨hidle, hnone⟩ := h.step op happend.1
      rw [run_cons, ih hidle happend.2]
      simp [logStep, happend.1, hnone]

theorem log_run_config (state : CommandJournal × AttemptLog) (ops : List JournalOp) :
    (Runs.run logStep state ops).1.config = state.1.config :=
  run_invariant (fun (state' : CommandJournal × AttemptLog) op
    (h : state'.1.config = state.1.config) => (state'.1.config_step op).trans h) rfl ops

/-- In every run, the attempts dispatched for a command since it was appended are numbered from
one on and stay within the limit, a call of `due` dispatches only what may be sent, none twice
and no more than it should, and a finished command is dispatched no more. -/
theorem dispatch_safety (config : CommandJournalConfig) (ops : List JournalOp) :
    let state := run logStep ({ config := config }, fun _ => []) ops
    (∀ id entry, state.1.entries.lookup id = some entry →
        state.2 id = attemptsTo entry.attempts ∧ entry.attempts ≤ config.retry.maxAttempts) ∧
      (∀ nowNs maxCount,
        (state.1.due nowNs maxCount).1.length ≤ maxCount ∧
        ((state.1.due nowNs maxCount).1.map (·.id)).Nodup ∧
        ∀ dispatch ∈ (state.1.due nowNs maxCount).1, state.1.Sendable nowNs dispatch) ∧
      ∀ id entry, state.1.entries.lookup id = some entry → entry.state.terminal →
        ∀ later, Along logStep (fun state op => state.1.appends op ≠ some id) state later →
          (run logStep state later).2 id = state.2 id := by
  intro state
  have hlogged : state.1.Logged state.2 :=
    run_invariant (fun (state : CommandJournal × AttemptLog) op (h : state.1.Logged state.2) =>
      h.step op) (fun _ _ hlookup => by cases hlookup) ops
  have hconfig : state.1.config = config := log_run_config _ ops
  refine ⟨fun id entry hlookup => hconfig ▸ hlogged id entry hlookup, state.1.due_dispatches,
    fun id entry hlookup hterminal later => ?_⟩
  refine Idle.run later fun held hheld => ?_
  obtain rfl : entry = held := Option.some.inj (hlookup.symm.trans hheld)
  exact hterminal

end CommandJournal

end Aethon.Control
