import Mathlib.Data.List.Iterate
import Aethon.Stream.SessionRuns

/-!
# Expected sequences

What becomes of a packet that carries the sequence number that the tracker expects next of its
device. The expectation wraps around at 32 bits, but the comparison with the last sequence number
does not. `observe_expected_iff` says for one session when the expected packet is accepted: unless
the last sequence number is the greatest one. `expected_sequences_iff` says it of the sessions of
every run, and of a device that counts from any first number.
-/

namespace Aethon.Stream

open Protocol

/-- The greatest sequence number. -/
def maxSequence : UInt32 := 0xffffffff

/-- The sequence number that the events about a session report as the expected one. -/
def SessionState.expectedSequence (state : SessionState) : UInt32 :=
  state.lastSequence + 1

/-- An event that takes the packet for a repeated one or for one behind a gap. -/
def SessionEvent.Irregular (event : SessionEvent) : Prop :=
  event.kind = .duplicateSequence ∨ event.kind = .sequenceGap

/-- The packet is neither taken for a duplicate nor for one behind a gap and becomes the last one
of its session. -/
structure SessionState.Accepted (before : Option SessionState) (packet : Packet)
    (events : List SessionEvent) (after : SessionState) : Prop where
  regular : ∀ event ∈ events, ¬ event.Irregular
  counters : ∀ state ∈ before, after.duplicates = state.duplicates ∧ after.gaps = state.gaps
  last : after.lastSequence = packet.sequence

/-- `observe` accepts the packet. -/
def SessionTracker.Accepts (tracker : SessionTracker) (packet : Packet) (arrivalTimeNs : UInt64) :
    Prop :=
  ∃ after ∈ (tracker.observe packet arrivalTimeNs).2.find packet.device,
    SessionState.Accepted (tracker.find packet.device) packet
      (tracker.observe packet arrivalTimeNs).1 after

/-! ## One session -/

/-- The next sequence is larger by one, but at the largest. -/
theorem toNat_succ_of_ne {sequence : UInt32} (h : sequence ≠ maxSequence) :
    (sequence + 1).toNat = sequence.toNat + 1 := by
  have hlt : sequence.toNat < 2 ^ 32 := sequence.toNat_lt
  have hne : sequence.toNat ≠ 2 ^ 32 - 1 := fun heq => h (UInt32.toNat_inj.mp heq)
  rw [UInt32.toNat_add]
  show (sequence.toNat + 1) % 2 ^ 32 = sequence.toNat + 1
  omega

theorem lt_succ_of_ne {sequence : UInt32} (h : sequence ≠ maxSequence) :
    sequence < sequence + 1 := by
  rw [UInt32.lt_iff_toNat_lt, toNat_succ_of_ne h]
  exact Nat.lt_succ_self _

namespace SessionState

variable (options : SessionTrackerOptions) (state : SessionState) (packet : Packet)
  (arrivalTimeNs : UInt64)

theorem event_regular {kind : SessionEventKind} (hduplicate : kind ≠ .duplicateSequence)
    (hgap : kind ≠ .sequenceGap) (message : String) :
    ¬ (state.event kind packet message).Irregular :=
  fun hkind => hkind.elim hduplicate hgap

variable {packet} in
/-- The expected packet, behind any but the greatest sequence number, is not remarked on. -/
theorem observe_sequence_expected (hexpected : packet.sequence = state.expectedSequence)
    (hmax : state.lastSequence ≠ maxSequence) :
    state.observeSequence options packet =
      ([], { state with lastSequence := packet.sequence }) := by
  have hlt : state.lastSequence < packet.sequence := hexpected ▸ lt_succ_of_ne hmax
  have hne : packet.sequence ≠ state.lastSequence := (UInt32.ne_of_lt hlt).symm
  have hgap : sequenceGap packet.sequence state.lastSequence = 0 :=
    if_pos (hexpected ▸ UInt32.le_refl _)
  have hquiet :
      ¬ sequenceGap packet.sequence state.lastSequence > options.maxGapWithoutWarning := by
    rw [hgap]
    exact UInt32.not_lt_zero
  unfold observeSequence sequenceAfter
  rw [if_neg hne, if_pos (decide_eq_true hlt)]
  exact if_neg hquiet

/-- Reopening reports nothing irregular. -/
theorem reopen_regular : ∀ event ∈ (state.reopen packet arrivalTimeNs).1, ¬ event.Irregular := by
  intro event hevent
  rw [reopen_eq] at hevent
  cases hopen : state.isOpen with
  | true =>
      rw [hopen] at hevent
      exact absurd hevent List.not_mem_nil
  | false =>
      rw [hopen] at hevent
      rw [List.mem_singleton.mp hevent]
      exact event_regular _ packet SessionEventKind.noConfusion SessionEventKind.noConfusion _

/-- The check of the time reports nothing irregular. -/
theorem observe_timestamp_regular : ∀ event ∈ (state.observeTimestamp packet).1,
    ¬ event.Irregular := by
  intro event hevent
  unfold observeTimestamp at hevent
  split at hevent
  case isTrue =>
    rw [List.mem_singleton.mp hevent]
    exact event_regular _ packet SessionEventKind.noConfusion SessionEventKind.noConfusion _
  case isFalse => exact absurd hevent List.not_mem_nil

/-- What follows in `observe` on the sequence number reports nothing irregular and leaves the
sequence number and its counters. -/
theorem accepted_of_sequenced {before : Option SessionState}
    (hcounters : ∀ earlier ∈ before,
      state.duplicates = earlier.duplicates ∧ state.gaps = earlier.gaps)
    (hlast : state.lastSequence = packet.sequence) :
    Accepted before packet
      ((state.observeTimestamp packet).1 ++
        ((state.observeTimestamp packet).2.see packet arrivalTimeNs).1)
      ((state.observeTimestamp packet).2.see packet arrivalTimeNs).2 := by
  have hregular := state.observe_timestamp_regular packet
  obtain ⟨timed, regressions, htimestamp, -⟩ := state.observe_timestamp_spec packet
  rw [htimestamp] at hregular ⊢
  refine ⟨fun event hevent => ?_, hcounters, hlast⟩
  rcases List.mem_append.mp hevent with htimed | hseen
  · exact hregular event htimed
  · rw [List.mem_singleton.mp hseen]
    exact event_regular _ packet SessionEventKind.noConfusion SessionEventKind.noConfusion _

/-- The first packet of a device is accepted. -/
theorem first_accepted :
    Accepted none packet (observeDevice options none packet arrivalTimeNs).1
      (observeDevice options none packet arrivalTimeNs).2 where
  regular event hevent := by
    rcases List.mem_pair.mp hevent with rfl | rfl
    all_goals
      exact event_regular _ packet SessionEventKind.noConfusion SessionEventKind.noConfusion _
  counters state hstate := absurd hstate (Option.not_mem_none _)
  last := rfl

/-- A session accepts the packet that it expects next unless its last sequence number is the
greatest one. -/
theorem observe_expected_iff (hexpected : packet.sequence = state.expectedSequence) :
    Accepted (some state) packet (state.observe options packet arrivalTimeNs).1
        (state.observe options packet arrivalTimeNs).2 ↔ state.lastSequence ≠ maxSequence := by
  constructor
  · intro haccepted hmax
    obtain ⟨remarks, seen, gaps, regressions, hobserve, -⟩ :=
      state.observe_spec options packet arrivalTimeNs
    have hsequence : packet.sequence = 0 := by
      rw [hexpected, expectedSequence, hmax]
      rfl
    have hlast := haccepted.last
    rw [hobserve, hsequence] at hlast
    have hkept : (if state.lastSequence < 0 then 0 else state.lastSequence) = 0 := hlast
    rw [if_neg UInt32.not_lt_zero, hmax] at hkept
    exact absurd hkept (by decide)
  · intro hmax
    have hreopen := state.reopen_eq packet arrivalTimeNs
    have hsequence : (state.reopen packet arrivalTimeNs).2.observeSequence options packet =
        ([], { (state.reopen packet arrivalTimeNs).2 with lastSequence := packet.sequence }) := by
      apply observe_sequence_expected
      · rw [hreopen]
        exact hexpected
      · rw [hreopen]
        exact hmax
    have hcounters : ∀ before ∈ some state,
        (state.reopen packet arrivalTimeNs).2.duplicates = before.duplicates ∧
          (state.reopen packet arrivalTimeNs).2.gaps = before.gaps := by
      intro before hbefore
      rw [← Option.some.inj hbefore, hreopen]
      exact ⟨rfl, rfl⟩
    have haccepted := accepted_of_sequenced
      { (state.reopen packet arrivalTimeNs).2 with lastSequence := packet.sequence } packet
      arrivalTimeNs hcounters rfl
    unfold observe
    dsimp only
    rw [hsequence]
    refine ⟨fun event hevent => ?_, haccepted.counters, haccepted.last⟩
    rw [List.append_nil, List.append_assoc] at hevent
    exact (List.mem_append.mp hevent).elim (state.reopen_regular packet arrivalTimeNs event)
      (haccepted.regular event)

end SessionState

/-! ## Any run -/

/-- The last event that is reported of a device carries the sequence number that its session
expects. -/
def DeviceHistory.Reported (history : DeviceHistory) : Prop :=
  history.events.getLast?.map SessionEvent.expectedSequence =
    history.session.map SessionState.expectedSequence

/-- A call reports nothing and leaves the session as it is, or its last event carries what the
session that it leaves expects. -/
theorem device_call_reported (options : SessionTrackerOptions) (session : Option SessionState)
    (call : SessionCall) :
    deviceCall options session call = ([], session) ∨
      ∃ front last, (deviceCall options session call).1 = front ++ [last] ∧
        (deviceCall options session call).2.map SessionState.expectedSequence =
          some last.expectedSequence := by
  cases call with
  | observe packet arrivalTimeNs =>
      cases session with
      | none => exact .inr ⟨[_], _, rfl, rfl⟩
      | some state => exact .inr ⟨_ ++ _ ++ _, _, rfl, rfl⟩
  | expireIdle nowNs =>
      cases session with
      | none => exact .inl rfl
      | some state =>
          unfold deviceCall SessionState.expireIdle
          dsimp only
          split
          case isTrue => exact .inl rfl
          case isFalse =>
            split
            case isTrue => exact .inl rfl
            case isFalse =>
              split
              case isTrue => exact .inl rfl
              case isFalse => exact .inr ⟨[_], _, rfl, rfl⟩

/-- A call keeps the irregular sequences reported. -/
theorem DeviceHistory.reported_step (options : SessionTrackerOptions) (history : DeviceHistory)
    (call : SessionCall) (h : history.Reported) : (history.step options call).Reported := by
  unfold Reported step
  obtain hskip | ⟨front, last, hevents, hsession⟩ :=
    device_call_reported options history.session call
  · rw [hskip, List.append_nil]
    exact h
  · rw [hevents, hsession, ← List.append_assoc, List.getLast?_concat]
    rfl

/-- A session that the tracker holds was reported with the sequence number that it expects. -/
theorem SessionHistory.reported_after (options : SessionTrackerOptions) (calls : List SessionCall)
    (device : DeviceId) : ((after options calls).part device).Reported := by
  rw [part_after]
  have hstep : ∀ (history : DeviceHistory) call,
      history.Reported → (history.step options call).Reported :=
    fun history call hreported => history.reported_step options call hreported
  have hstart : DeviceHistory.Reported {} := rfl
  exact Runs.run_invariant hstep hstart _

namespace SessionTracker

variable {tracker : SessionTracker} {packet : Packet}

/-- A packet is accepted as the session of its device accepts it. -/
theorem accepts_iff (arrivalTimeNs : UInt64) : tracker.Accepts packet arrivalTimeNs ↔
    SessionState.Accepted (tracker.find packet.device) packet
      (observeDevice tracker.options (tracker.find packet.device) packet arrivalTimeNs).1
      (observeDevice tracker.options (tracker.find packet.device) packet arrivalTimeNs).2 := by
  unfold Accepts
  rw [find_observe, if_pos rfl, observe_eq]
  refine ⟨?_, fun haccepted => ⟨_, rfl, haccepted⟩⟩
  rintro ⟨after, hafter, haccepted⟩
  rw [← Option.some.inj hafter] at haccepted
  exact haccepted

/-- The tracker accepts the packet that it expects next of a device, and the first one, unless the
last sequence number is the greatest one. -/
theorem accepts_expected_iff (arrivalTimeNs : UInt64)
    (hexpected : ∀ state ∈ tracker.find packet.device,
      state.expectedSequence = packet.sequence) :
    tracker.Accepts packet arrivalTimeNs ↔
      ∀ state ∈ tracker.find packet.device, state.lastSequence ≠ maxSequence := by
  rw [accepts_iff]
  cases hfind : tracker.find packet.device with
  | none =>
      refine iff_of_true (SessionState.first_accepted tracker.options packet arrivalTimeNs) ?_
      exact fun state hstate => absurd hstate (Option.not_mem_none _)
  | some state =>
      have hsequence : packet.sequence = state.expectedSequence := (hexpected state hfind).symm
      refine (state.observe_expected_iff tracker.options packet arrivalTimeNs hsequence).trans ?_
      exact ⟨fun hmax found hfound => Option.some.inj hfound ▸ hmax, fun hall => hall state rfl⟩

end SessionTracker

/-! ## A device that counts -/

/-- The sequence number of the packet of the device that a call observes. -/
def SessionCall.sequenceOf (device : DeviceId) : SessionCall → Option UInt32
  | .observe packet _ => if packet.device = device then some packet.sequence else none
  | .expireIdle _ => none

/-- A call that observes a packet of the device accepts it. -/
def SessionHistory.Tracks (device : DeviceId) (history : SessionHistory) : SessionCall → Prop
  | .observe packet arrivalTimeNs =>
      packet.device = device → history.tracker.Accepts packet arrivalTimeNs
  | .expireIdle _ => True

namespace SessionHistory

variable {options : SessionTrackerOptions} {device : DeviceId}

/-- The last sequence number of the device's session. -/
def last (device : DeviceId) (history : SessionHistory) : Option UInt32 :=
  (history.tracker.find device).map SessionState.lastSequence

/-- A call that observes no packet of the device leaves its last sequence number. -/
theorem other_step {history : SessionHistory} (hkeyed : history.Keyed options)
    {call : SessionCall} (hcall : call.sequenceOf device = none) :
    history.Tracks device call ∧ (history.step call).last device = history.last device := by
  have hfind := (call_part hkeyed device call).1
  cases call with
  | observe packet arrivalTimeNs =>
      have hdevice : packet.device ≠ device := by
        intro heq
        rw [SessionCall.sequenceOf, if_pos heq] at hcall
        exact Option.some_ne_none _ hcall
      rw [SessionCall.concerns, decide_eq_false hdevice, if_neg Bool.false_ne_true] at hfind
      exact ⟨fun heq => absurd heq hdevice, congrArg (Option.map SessionState.lastSequence) hfind⟩
  | expireIdle nowNs =>
      rw [SessionCall.concerns, if_pos rfl] at hfind
      refine ⟨trivial, (congrArg (Option.map SessionState.lastSequence) hfind).trans ?_⟩
      unfold last
      cases history.tracker.find device with
      | none => rfl
      | some state =>
          show some (state.expireIdle options nowNs).2.lastSequence = some state.lastSequence
          obtain hskip | ⟨-, -, -, timeout, closing, hexpire, -⟩ :=
            state.expire_idle_spec options nowNs
          · rw [hskip]
          · rw [hexpire]

/-- There is room for `count + 1` numbers from `next` on exactly when there is room for `count`
behind it, and `next` is not the greatest unless it is the last of them. -/
theorem room_iff {next : UInt32} {count : Nat} :
    (next + 1).toNat + count ≤ 2 ^ 32 ∧ (count ≠ 0 → next ≠ maxSequence) ↔
      next.toNat + (count + 1) ≤ 2 ^ 32 := by
  by_cases hmax : next = maxSequence
  · rw [hmax]
    show 0 + count ≤ 2 ^ 32 ∧ (count ≠ 0 → maxSequence ≠ maxSequence) ↔
      2 ^ 32 - 1 + (count + 1) ≤ 2 ^ 32
    constructor
    · intro ⟨_, hzero⟩
      have hcount : count = 0 := by
        by_contra hne
        exact hzero hne rfl
      omega
    · intro hroom
      exact ⟨by omega, fun hne => absurd hroom (by omega)⟩
  · rw [toNat_succ_of_ne hmax]
    exact ⟨fun hroom => by omega, fun hroom => ⟨by omega, fun _ => hmax⟩⟩

/-- What a call does that observes the packet of the device that is expected next. -/
theorem expected_step {history : SessionHistory} {call : SessionCall} {next : UInt32}
    (hnext : ∀ sequence ∈ history.last device, sequence + 1 = next)
    (hcall : call.sequenceOf device = some next) :
    (history.Tracks device call ↔ ∀ sequence ∈ history.last device, sequence ≠ maxSequence) ∧
      (history.Tracks device call → (history.step call).last device = some next) := by
  cases call with
  | observe packet arrivalTimeNs =>
      by_cases hdevice : packet.device = device
      · subst hdevice
        rw [SessionCall.sequenceOf, if_pos rfl] at hcall
        have hsequence : packet.sequence = next := Option.some.inj hcall
        have hexpected : ∀ state ∈ history.tracker.find packet.device,
            state.expectedSequence = packet.sequence := by
          intro state hstate
          rw [hsequence]
          exact hnext _ (Option.mem_map_of_mem _ hstate)
        have haccepts := SessionTracker.accepts_expected_iff arrivalTimeNs hexpected
        refine ⟨⟨fun htracks => ?_, fun hmax _ => haccepts.mpr fun state hstate => ?_⟩, ?_⟩
        · intro sequence hlast
          obtain ⟨state, hstate, rfl⟩ := Option.mem_map.mp hlast
          exact haccepts.mp (htracks rfl) state hstate
        · exact hmax _ (Option.mem_map_of_mem _ hstate)
        · intro htracks
          obtain ⟨after, hafter, haccepted⟩ := htracks rfl
          have hfound : (history.step (.observe packet arrivalTimeNs)).tracker.find
            packet.device = some after := hafter
          rw [last, hfound, ← hsequence, ← haccepted.last]
          rfl
      · rw [SessionCall.sequenceOf, if_neg hdevice] at hcall
        exact absurd hcall.symm (Option.some_ne_none _)
  | expireIdle nowNs => exact absurd hcall.symm (Option.some_ne_none _)

/-- A device that counts on from the number that is expected of it is tracked as far as the
numbers do not wrap around. -/
theorem tracks_along_iff {calls : List SessionCall} {history : SessionHistory}
    (hkeyed : history.Keyed options) {next : UInt32} {count : Nat}
    (hnext : ∀ sequence ∈ history.last device, sequence + 1 = next)
    (hcalls : calls.filterMap (SessionCall.sequenceOf device) = List.iterate (· + 1) next count) :
    Runs.Along step (Tracks device) history calls ↔ next.toNat + count ≤ 2 ^ 32 ∧
      (count ≠ 0 → ∀ sequence ∈ history.last device, sequence ≠ maxSequence) := by
  induction calls generalizing history next count with
  | nil =>
      have hcount : count = 0 := List.iterate_eq_nil.mp hcalls.symm
      subst hcount
      exact iff_of_true trivial ⟨Nat.le_of_lt next.toNat_lt, fun hne => absurd rfl hne⟩
  | cons call calls ih =>
      have hkeyed' := keyed_step hkeyed call
      cases hcall : call.sequenceOf device with
      | none =>
          obtain ⟨htracks, hsame⟩ := other_step hkeyed hcall
          rw [List.filterMap_cons_none hcall] at hcalls
          rw [← hsame] at hnext ⊢
          exact (and_iff_right htracks).trans (ih hkeyed' hnext hcalls)
      | some sequence =>
          rw [List.filterMap_cons_some hcall] at hcalls
          cases count with
          | zero => exact absurd hcalls (List.cons_ne_nil _ _)
          | succ count =>
              obtain ⟨rfl, hrest⟩ := List.cons.inj hcalls
              obtain ⟨htracks, hlast⟩ := expected_step hnext hcall
              have hroom : history.Tracks device call →
                  (Runs.Along step (Tracks device) (history.step call) calls ↔
                    sequence.toNat + (count + 1) ≤ 2 ^ 32) := by
                intro htracked
                have hnext' : ∀ later ∈ (history.step call).last device,
                    later + 1 = sequence + 1 := by
                  rw [hlast htracked]
                  exact fun later hlater => congrArg (· + 1) (Option.some.inj hlater).symm
                rw [ih hkeyed' hnext' hrest, hlast htracked, ← room_iff]
                simp only [Option.mem_some_iff, forall_eq']
              show history.Tracks device call ∧ _ ↔ _
              rw [and_congr_right hroom, htracks, and_comm]
              exact and_congr_right' ⟨fun hmax _ => hmax, fun hmax => hmax (Nat.succ_ne_zero _)⟩

end SessionHistory

/-- Expected sequence numbers over every run: the last event that is reported of a device that has
a session carries the number behind its last one, and the packet with this number is accepted
exactly when the last one is not the greatest. A device that counts from a first number is tracked
without interruption exactly when its numbers do not wrap around. -/
theorem expected_sequences_iff (options : SessionTrackerOptions) (calls : List SessionCall)
    (device : DeviceId) :
    let history := SessionHistory.after options calls
    (∀ state ∈ history.tracker.find device,
      (∃ event ∈ (history.events.filter fun event => event.device = device).getLast?,
        event.expectedSequence = state.lastSequence + 1) ∧
      ∀ packet : Packet, packet.device = device → packet.sequence = state.lastSequence + 1 →
        ∀ arrivalTimeNs, history.tracker.Accepts packet arrivalTimeNs ↔
          state.lastSequence ≠ maxSequence) ∧
    ∀ first count,
      calls.filterMap (SessionCall.sequenceOf device) = List.iterate (· + 1) first count →
      (Runs.Along SessionHistory.step (SessionHistory.Tracks device) ⟨{ options }, []⟩ calls ↔
        first.toNat + count ≤ 2 ^ 32) := by
  intro history
  refine ⟨fun state hstate => ⟨?_, ?_⟩, fun first count hcalls => ?_⟩
  · have hreported : (history.events.filter fun event => event.device = device).getLast?.map
        SessionEvent.expectedSequence =
          (history.tracker.find device).map SessionState.expectedSequence :=
      SessionHistory.reported_after options calls device
    rw [show history.tracker.find device = some state from hstate] at hreported
    exact Option.map_eq_some_iff.mp hreported
  · rintro packet rfl hsequence arrivalTimeNs
    have hfind : history.tracker.find packet.device = some state := hstate
    have hexpected : ∀ found ∈ history.tracker.find packet.device,
        found.expectedSequence = packet.sequence := by
      rw [hfind]
      exact fun found hfound => Option.some.inj hfound ▸ hsequence.symm
    rw [SessionTracker.accepts_expected_iff arrivalTimeNs hexpected, hfind]
    simp only [Option.mem_some_iff, forall_eq']
  · have hnone : SessionHistory.last device ⟨{ options }, []⟩ = none := rfl
    have hnext : ∀ sequence ∈ SessionHistory.last device ⟨{ options }, []⟩,
        sequence + 1 = first := by
      rw [hnone]
      exact fun sequence hlast => absurd hlast (Option.not_mem_none _)
    rw [SessionHistory.tracks_along_iff SessionHistory.keyed_start hnext hcalls, hnone]
    exact and_iff_left fun _ sequence hlast => absurd hlast (Option.not_mem_none _)

/-- Behind the greatest sequence number the tracker reports that it expects 0 and takes the packet
with this number for a repeated one. -/
theorem expected_sequence_rejected :
    let greatest : Packet := { device := 7, sequence := 0xffffffff }
    let expected : Packet := { device := 7, sequence := 0 }
    let tracker := (SessionHistory.after {} [.observe greatest 0]).tracker
    ∃ state ∈ tracker.find 7, expected.sequence = state.lastSequence + 1 ∧
      (∃ event ∈ (tracker.observe expected 1).1,
        event.kind = .duplicateSequence ∧ event.expectedSequence = expected.sequence) ∧
      ∃ later ∈ (tracker.observe expected 1).2.find 7, later.lastSequence ≠ expected.sequence := by
  intro greatest expected tracker
  have hfind : tracker.find 7 = some (newSession greatest 0) := by
    show ((SessionTracker.observe {} greatest 0).2.find 7) = _
    rw [SessionTracker.find_observe]
    rfl
  have hobserve := tracker.observe_eq expected 1
  have hlater := tracker.find_observe expected 1 7
  rw [show tracker.find expected.device = _ from hfind] at hobserve hlater
  refine ⟨newSession greatest 0, hfind, by decide, ?_, ?_⟩
  · rw [hobserve]
    exact ⟨_, List.mem_cons_self, rfl, by decide⟩
  · rw [hlater]
    exact ⟨_, rfl, by decide⟩

end Aethon.Stream
