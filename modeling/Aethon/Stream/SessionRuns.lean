import Mathlib.Data.List.Chain
import Mathlib.Data.UInt
import Aethon.Foundation.OrderedMap
import Aethon.Foundation.Runs
import Aethon.Stream.SessionTracker

/-!
# Sessions over whole runs

What a run of `observe` and `expire_idle` does to the session of one device and what it reports of
it. A history is a tracker with all the events that it has reported. `part_step` says that the part
of a history that concerns one device is changed by the device's own packets and by the expiries,
each by a function of the part, so that the part runs on its own (`part_after`). What holds of a
session in every run is then proved of the part.
-/

namespace Aethon.Stream

open Protocol

/-! ## Histories -/

/-- The calls that change a tracker. -/
inductive SessionCall where
  | observe (packet : Packet) (arrivalTimeNs : UInt64)
  | expireIdle (nowNs : UInt64)

/-- One call of the tracker. -/
def SessionTracker.call (tracker : SessionTracker) :
    SessionCall → List SessionEvent × SessionTracker
  | .observe packet arrivalTimeNs => tracker.observe packet arrivalTimeNs
  | .expireIdle nowNs => tracker.expireIdle nowNs

/-- A tracker and the events that it has reported. -/
structure SessionHistory where
  tracker : SessionTracker
  events : List SessionEvent := []

namespace SessionHistory

/-- A call of the tracker, whose events go behind those before. -/
def step (history : SessionHistory) (call : SessionCall) : SessionHistory where
  tracker := (history.tracker.call call).2
  events := history.events ++ (history.tracker.call call).1

/-- A new tracker after the calls. -/
def after (options : SessionTrackerOptions) (calls : List SessionCall) : SessionHistory :=
  Runs.run step ⟨{ options }, []⟩ calls

end SessionHistory

/-- The call is an expiry or observes a packet of the device. -/
def SessionCall.concerns (device : DeviceId) : SessionCall → Bool
  | .observe packet _ => packet.device = device
  | .expireIdle _ => true

/-! ## One device -/

/-- What a history holds of one device. -/
structure DeviceHistory where
  session : Option SessionState := none
  events : List SessionEvent := []

/-- What a history says of one device. -/
def SessionHistory.part (device : DeviceId) (history : SessionHistory) : DeviceHistory where
  session := history.tracker.find device
  events := history.events.filter fun event => event.device = device

/-- What a packet of the device does to its session. -/
def observeDevice (options : SessionTrackerOptions) (session : Option SessionState)
    (packet : Packet) (arrivalTimeNs : UInt64) : List SessionEvent × SessionState :=
  match session with
  | none =>
      let state := newSession packet arrivalTimeNs
      ([state.event .opened packet "session opened",
        state.event .packetSeen packet "first packet observed"], state)
  | some state => state.observe options packet arrivalTimeNs

/-- What a call that concerns the device does to its session. -/
def deviceCall (options : SessionTrackerOptions) (session : Option SessionState) :
    SessionCall → List SessionEvent × Option SessionState
  | .observe packet arrivalTimeNs =>
      ((observeDevice options session packet arrivalTimeNs).1,
        some (observeDevice options session packet arrivalTimeNs).2)
  | .expireIdle nowNs =>
      match session with
      | none => ([], none)
      | some state => ((state.expireIdle options nowNs).1, some (state.expireIdle options nowNs).2)

/-- The calls as one device sees them. -/
def DeviceHistory.step (options : SessionTrackerOptions) (history : DeviceHistory)
    (call : SessionCall) : DeviceHistory where
  session := (deviceCall options history.session call).2
  events := history.events ++ (deviceCall options history.session call).1

/-- The openings and closings among the events, in order. -/
def marks (events : List SessionEvent) : List SessionEventKind :=
  (events.map SessionEvent.kind).filter fun kind => kind = .opened ∨ kind = .closed

/-- The mark that a session was left with. -/
def SessionState.mark (state : SessionState) : SessionEventKind :=
  if state.isOpen then .opened else .closed

theorem marks_append (first second : List SessionEvent) :
    marks (first ++ second) = marks first ++ marks second := by
  rw [marks, List.map_append, List.filter_append]
  rfl

theorem marks_eq_nil {events : List SessionEvent}
    (h : ∀ event ∈ events, event.kind ≠ .opened ∧ event.kind ≠ .closed) : marks events = [] := by
  refine List.filter_eq_nil_iff.mpr fun kind hkind => ?_
  obtain ⟨event, hevent, rfl⟩ := List.mem_map.mp hkind
  simpa using h event hevent

/-! ## One session

What each of the steps of `observe` and the body of `expire_idle` do to a session and which events
they report. -/

namespace SessionState

variable (options : SessionTrackerOptions) (state : SessionState) (packet : Packet)
  (arrivalTimeNs nowNs : UInt64)

/-- A session that is not open is opened by a packet. -/
theorem reopen_eq : state.reopen packet arrivalTimeNs =
    (if state.isOpen then [] else
        [{ state with isOpen := true, openedAtNs := arrivalTimeNs }.event .opened packet
          "session reopened"],
      { state with
        isOpen := true
        openedAtNs := if state.isOpen then state.openedAtNs else arrivalTimeNs }) := by
  unfold reopen
  cases hopen : state.isOpen with
  | true =>
      show ([], state) = _
      cases state
      subst hopen
      rfl
  | false => rfl

/-- An event about the session that neither opens nor closes it nor is the packet itself. -/
def Remark (event : SessionEvent) : Prop :=
  event.device = state.device ∧
    (event.kind = .duplicateSequence ∨ event.kind = .sequenceGap ∨
      event.kind = .timestampRegression)

/-- The check of the sequence changes the last sequence and the counts only. -/
theorem observe_sequence_spec : ∃ remarks gaps,
    state.observeSequence options packet = (remarks, { state with
      lastSequence :=
        if state.lastSequence < packet.sequence then packet.sequence else state.lastSequence
      duplicates :=
        if state.lastSequence < packet.sequence then state.duplicates else state.duplicates + 1
      gaps := gaps }) ∧
    ∀ event ∈ remarks, state.Remark event := by
  unfold observeSequence sequenceAfter
  by_cases heq : packet.sequence = state.lastSequence
  · rw [if_pos heq, heq, if_neg (UInt32.lt_irrefl _), if_neg (UInt32.lt_irrefl _)]
    exact ⟨_, state.gaps, rfl, List.forall_mem_singleton.mpr ⟨rfl, .inl rfl⟩⟩
  · rw [if_neg heq]
    by_cases hlt : state.lastSequence < packet.sequence
    · rw [if_pos (decide_eq_true hlt), if_pos hlt, if_pos hlt]
      by_cases hgap : sequenceGap packet.sequence state.lastSequence > options.maxGapWithoutWarning
      · rw [if_pos hgap]
        exact ⟨_, state.gaps + 1, rfl, List.forall_mem_singleton.mpr ⟨rfl, .inr (.inl rfl)⟩⟩
      · rw [if_neg hgap]
        exact ⟨[], state.gaps, rfl, List.forall_mem_nil _⟩
    · rw [if_neg (by simpa using hlt), if_neg hlt, if_neg hlt]
      exact ⟨_, state.gaps, rfl, List.forall_mem_singleton.mpr ⟨rfl, .inl rfl⟩⟩

/-- The check of the time changes the last time and the count of regressions only. -/
theorem observe_timestamp_spec : ∃ remarks regressions,
    state.observeTimestamp packet = (remarks, { state with
      lastPacketTimeNs :=
        if packet.timestampNs < state.lastPacketTimeNs then state.lastPacketTimeNs
        else packet.timestampNs
      timestampRegressions := regressions }) ∧
    ∀ event ∈ remarks, state.Remark event := by
  unfold observeTimestamp
  by_cases hlt : packet.timestampNs < state.lastPacketTimeNs
  · rw [if_pos hlt, if_pos hlt]
    exact ⟨_, state.timestampRegressions + 1, rfl,
      List.forall_mem_singleton.mpr ⟨rfl, .inr (.inr rfl)⟩⟩
  · rw [if_neg hlt, if_neg hlt]
    exact ⟨[], state.timestampRegressions, rfl, List.forall_mem_nil _⟩

/-- What an observation does: it opens a session that was closed, remarks on the packet, and
reports the packet last. -/
theorem observe_spec : ∃ remarks seen gaps regressions,
    state.observe options packet arrivalTimeNs =
      ((state.reopen packet arrivalTimeNs).1 ++ remarks ++ [seen], { state with
        isOpen := true
        openedAtNs := if state.isOpen then state.openedAtNs else arrivalTimeNs
        lastSeenNs := arrivalTimeNs
        lastSequence :=
          if state.lastSequence < packet.sequence then packet.sequence else state.lastSequence
        duplicates :=
          if state.lastSequence < packet.sequence then state.duplicates else state.duplicates + 1
        lastPacketTimeNs :=
          if packet.timestampNs < state.lastPacketTimeNs then state.lastPacketTimeNs
          else packet.timestampNs
        packets := state.packets + 1
        gaps := gaps
        timestampRegressions := regressions }) ∧
    (∀ event ∈ remarks, state.Remark event) ∧
    seen.kind = .packetSeen ∧ seen.device = state.device ∧ seen.sequence = packet.sequence ∧
      seen.timestampNs = packet.timestampNs := by
  obtain ⟨sequenced, gaps, hsequence, hsequenced⟩ := observe_sequence_spec options
    (state.reopen packet arrivalTimeNs).2 packet
  obtain ⟨timed, regressions, htimestamp, htimed⟩ := observe_timestamp_spec
    ((state.reopen packet arrivalTimeNs).2.observeSequence options packet).2 packet
  have hremarks : ∀ event ∈ sequenced ++ timed, state.Remark event := by
    intro event hevent
    rw [hsequence] at htimed
    rw [reopen_eq] at hsequenced htimed
    exact (List.mem_append.mp hevent).elim (hsequenced event) (htimed event)
  unfold observe
  dsimp only
  rw [htimestamp, hsequence]
  let expected :=
    (if state.lastSequence < packet.sequence then packet.sequence else state.lastSequence) + 1
  refine ⟨sequenced ++ timed,
    ⟨.packetSeen, state.device, packet.sequence, packet.timestampNs, expected, "packet observed"⟩,
    gaps, regressions, ?_, hremarks, rfl, rfl, rfl, rfl⟩
  rw [reopen_eq, ← List.append_assoc]
  rfl

/-- What an expiry does to a session: nothing, or it closes one that is open and has been idle for
as long as the timeout. -/
theorem expire_idle_spec :
    state.expireIdle options nowNs = ([], state) ∨
      state.isOpen ∧ state.lastSeenNs ≤ nowNs ∧
        options.idleTimeoutNs ≤ nowNs - state.lastSeenNs ∧
        ∃ timeout closing,
          state.expireIdle options nowNs = ([timeout, closing], { state with isOpen := false }) ∧
          timeout.kind = .idleTimeout ∧ timeout.device = state.device ∧
          closing.kind = .closed ∧ closing.device = state.device := by
  unfold expireIdle
  by_cases hopen : state.isOpen
  · rw [if_neg (not_not_intro hopen)]
    by_cases hearly : nowNs < state.lastSeenNs
    · rw [if_pos hearly]
      exact .inl rfl
    · rw [if_neg hearly]
      by_cases hbusy : nowNs - state.lastSeenNs < options.idleTimeoutNs
      · rw [if_pos hbusy]
        exact .inl rfl
      · rw [if_neg hbusy]
        exact .inr ⟨hopen, UInt64.not_lt.mp hearly, UInt64.not_lt.mp hbusy, _, _, rfl, rfl, rfl,
          rfl, rfl⟩
  · rw [if_pos hopen]
    exact .inl rfl

/-- Reopening leaves a mark where the session was not open. -/
theorem marks_reopen : marks (state.reopen packet arrivalTimeNs).1 =
    if state.isOpen then [] else [.opened] := by
  rw [reopen_eq]
  cases state.isOpen with
  | true => rfl
  | false => rfl

/-- Reopening speaks of the session's own device. -/
theorem reopen_device : ∀ event ∈ (state.reopen packet arrivalTimeNs).1,
    event.device = state.device := by
  intro event hevent
  rw [reopen_eq] at hevent
  cases hopen : state.isOpen with
  | true =>
      rw [hopen] at hevent
      exact absurd hevent List.not_mem_nil
  | false =>
      rw [hopen] at hevent
      rw [List.mem_singleton.mp hevent]
      rfl

/-- An observation reports events of the device of the session and leaves it the device. -/
theorem observe_device :
    (state.observe options packet arrivalTimeNs).2.device = state.device ∧
      ∀ event ∈ (state.observe options packet arrivalTimeNs).1, event.device = state.device := by
  obtain ⟨remarks, seen, gaps, regressions, hobserve, hremarks, -, hseen, -⟩ :=
    state.observe_spec options packet arrivalTimeNs
  rw [hobserve]
  refine ⟨rfl, fun event hevent => ?_⟩
  rcases List.mem_append.mp hevent with hfront | hlast
  · rcases List.mem_append.mp hfront with hopened | hremark
    · exact state.reopen_device packet arrivalTimeNs event hopened
    · exact (hremarks event hremark).1
  · rw [List.mem_singleton.mp hlast]
    exact hseen

/-- Expiry speaks of the session's own device, and keeps it. -/
theorem expire_idle_device :
    (state.expireIdle options nowNs).2.device = state.device ∧
      ∀ event ∈ (state.expireIdle options nowNs).1, event.device = state.device := by
  obtain hskip | ⟨-, -, -, timeout, closing, hexpire, -, htimeout, -, hclosing⟩ :=
    state.expire_idle_spec options nowNs
  · rw [hskip]
    exact ⟨rfl, fun event hevent => absurd hevent List.not_mem_nil⟩
  · rw [hexpire]
    refine ⟨rfl, fun event hevent => ?_⟩
    rcases List.mem_pair.mp hevent with rfl | rfl
    · exact htimeout
    · exact hclosing

/-- An observation opens a session that is closed. -/
theorem marks_observe :
    marks (state.observe options packet arrivalTimeNs).1 =
        (if state.isOpen then [] else [.opened]) ∧
      (state.observe options packet arrivalTimeNs).2.mark = .opened := by
  obtain ⟨remarks, seen, gaps, regressions, hobserve, hremarks, hseen, -⟩ :=
    state.observe_spec options packet arrivalTimeNs
  have hquiet : marks remarks = [] := by
    refine marks_eq_nil fun event hevent => ?_
    obtain ⟨-, hkind | hkind | hkind⟩ := hremarks event hevent
    all_goals
      rw [hkind]
      exact ⟨SessionEventKind.noConfusion, SessionEventKind.noConfusion⟩
  have hlast : marks [seen] = [] := by
    refine marks_eq_nil (List.forall_mem_singleton.mpr ?_)
    rw [hseen]
    exact ⟨SessionEventKind.noConfusion, SessionEventKind.noConfusion⟩
  rw [hobserve]
  refine ⟨?_, rfl⟩
  rw [marks_append, marks_append, hquiet, hlast, List.append_nil, List.append_nil,
    state.marks_reopen]

/-- An expiry leaves a session as it is or closes one that is open. -/
theorem marks_expire_idle :
    marks (state.expireIdle options nowNs).1 = [] ∧
        (state.expireIdle options nowNs).2.mark = state.mark ∨
      state.mark = .opened ∧ marks (state.expireIdle options nowNs).1 = [.closed] ∧
        (state.expireIdle options nowNs).2.mark = .closed := by
  obtain hskip | ⟨hopen, -, -, timeout, closing, hexpire, htimeout, -, hclosing, -⟩ :=
    state.expire_idle_spec options nowNs
  · rw [hskip]
    exact .inl ⟨rfl, rfl⟩
  · refine .inr ⟨if_pos hopen, ?_, ?_⟩
    · rw [hexpire, marks, List.map_cons, List.map_cons, htimeout, hclosing]
      rfl
    · rw [hexpire]
      rfl

end SessionState

theorem SessionTracker.observe_eq (tracker : SessionTracker) (packet : Packet)
    (arrivalTimeNs : UInt64) :
    let session := tracker.find packet.device
    let observed := observeDevice tracker.options session packet arrivalTimeNs
    tracker.observe packet arrivalTimeNs =
      (observed.1,
        { tracker with sessions := tracker.sessions.insert packet.device observed.2 }) := by
  unfold observe find observeDevice
  cases tracker.sessions[packet.device]? with
  | none => rfl
  | some state => rfl

/-- A packet changes the session of its device only. -/
theorem SessionTracker.find_observe (tracker : SessionTracker) (packet : Packet)
    (arrivalTimeNs : UInt64) (device : DeviceId) :
    (tracker.observe packet arrivalTimeNs).2.find device =
      if device = packet.device then
        some (observeDevice tracker.options (tracker.find packet.device) packet arrivalTimeNs).2
      else tracker.find device := by
  rw [observe_eq]
  exact OrderedMap.getElem?_insert _ _ _ _

theorem SessionTracker.find_expire_idle (tracker : SessionTracker) (nowNs : UInt64)
    (device : DeviceId) :
    (tracker.expireIdle nowNs).2.find device =
      (tracker.find device).map fun state => (state.expireIdle tracker.options nowNs).2 :=
  Std.ExtTreeMap.getElem?_map

/-- A call that concerns a device leaves a session of this device and reports events of it. -/
theorem device_call_device {options : SessionTrackerOptions} {device : DeviceId}
    {session : Option SessionState} {call : SessionCall} (hcall : call.concerns device = true)
    (hsession : ∀ state ∈ session, state.device = device) :
    (∀ state ∈ (deviceCall options session call).2, state.device = device) ∧
      ∀ event ∈ (deviceCall options session call).1, event.device = device := by
  cases call with
  | observe packet arrivalTimeNs =>
      have hdevice : packet.device = device := of_decide_eq_true hcall
      cases session with
      | none =>
          refine ⟨fun state hstate => ?_, fun event hevent => ?_⟩
          · rw [← Option.some.inj hstate]
            exact hdevice
          · rcases List.mem_pair.mp hevent with rfl | rfl
            · exact hdevice
            · exact hdevice
      | some state =>
          have hstate : state.device = device := hsession state rfl
          obtain ⟨hafter, hevents⟩ := state.observe_device options packet arrivalTimeNs
          rw [hstate] at hafter hevents
          exact ⟨fun after hsome => Option.some.inj hsome ▸ hafter, hevents⟩
  | expireIdle nowNs =>
      cases session with
      | none => exact ⟨hsession, fun event hevent => absurd hevent List.not_mem_nil⟩
      | some state =>
          have hstate : state.device = device := hsession state rfl
          obtain ⟨hafter, hevents⟩ := state.expire_idle_device options nowNs
          rw [hstate] at hafter hevents
          exact ⟨fun after hsome => Option.some.inj hsome ▸ hafter, hevents⟩

/-- The tracker has the options, and every session is stored under its own device. -/
structure SessionHistory.Keyed (options : SessionTrackerOptions) (history : SessionHistory) :
    Prop where
  options : history.tracker.options = options
  device : ∀ device, ∀ state ∈ history.tracker.find device, state.device = device

namespace SessionHistory

variable {options : SessionTrackerOptions} {history : SessionHistory}

/-- A new tracker is keyed. -/
theorem keyed_start : Keyed options ⟨{ options }, []⟩ where
  options := rfl
  device device state hstate := by
    have hfind : (∅ : Std.ExtTreeMap DeviceId SessionState)[device]? = some state := hstate
    rw [Std.ExtTreeMap.getElem?_empty] at hfind
    exact absurd hfind.symm (Option.some_ne_none _)

/-- What a call does to the session that is found under a device and which events of the device it
reports. -/
theorem call_part (hkeyed : history.Keyed options) (device : DeviceId) (call : SessionCall) :
    (history.tracker.call call).2.find device =
        (if call.concerns device then
          (deviceCall options (history.tracker.find device) call).2
        else history.tracker.find device) ∧
      ((history.tracker.call call).1.filter fun event => event.device = device) =
        if call.concerns device then
          (deviceCall options (history.tracker.find device) call).1
        else [] := by
  cases call with
  | observe packet arrivalTimeNs =>
      have hown : ∀ event ∈ (history.tracker.observe packet arrivalTimeNs).1,
          event.device = packet.device := by
        rw [SessionTracker.observe_eq]
        have hcall : (SessionCall.observe packet arrivalTimeNs).concerns packet.device = true :=
          decide_eq_true rfl
        exact (device_call_device hcall (hkeyed.device packet.device)).2
      show (history.tracker.observe packet arrivalTimeNs).2.find device = _ ∧
        ((history.tracker.observe packet arrivalTimeNs).1.filter _) = _
      rw [SessionTracker.find_observe]
      by_cases hdevice : packet.device = device
      · subst hdevice
        rw [if_pos rfl, SessionCall.concerns, decide_eq_true rfl, if_pos rfl, if_pos rfl,
          List.filter_eq_self.mpr fun event hevent => decide_eq_true (hown event hevent),
          SessionTracker.observe_eq, ← hkeyed.options]
        exact ⟨rfl, rfl⟩
      · have hnone : ((history.tracker.observe packet arrivalTimeNs).1.filter fun event =>
            event.device = device) = [] := by
          refine List.filter_eq_nil_iff.mpr fun event hevent => ?_
          rw [hown event hevent]
          simpa using hdevice
        rw [if_neg (Ne.symm hdevice), SessionCall.concerns, decide_eq_false hdevice,
          if_neg Bool.false_ne_true, if_neg Bool.false_ne_true, hnone]
        exact ⟨rfl, rfl⟩
  | expireIdle nowNs =>
      have hown : ∀ (key : DeviceId) (state : SessionState),
          history.tracker.sessions[key]? = some state →
          ∀ event ∈ (state.expireIdle history.tracker.options nowNs).1, event.device = key := by
        intro key state hstate
        have hcall : (SessionCall.expireIdle nowNs).concerns key = true := rfl
        have hsession : ∀ found ∈ some state, found.device = key :=
          fun found hfound => Option.some.inj hfound ▸ hkeyed.device key state hstate
        exact (device_call_device hcall hsession).2
      show (history.tracker.expireIdle nowNs).2.find device = _ ∧
        ((history.tracker.expireIdle nowNs).1.filter _) = _
      rw [SessionTracker.find_expire_idle, SessionTracker.expireIdle,
        OrderedMap.filter_flatMap_toList _ hown, ← hkeyed.options]
      show _ ∧ ((history.tracker.find device).map _).getD [] = _
      cases history.tracker.find device with
      | none => exact ⟨rfl, rfl⟩
      | some state => exact ⟨rfl, rfl⟩

/-- A call keeps the sessions under their devices. -/
theorem keyed_step (hkeyed : history.Keyed options) (call : SessionCall) :
    (history.step call).Keyed options where
  options := by
    cases call with
    | observe packet arrivalTimeNs =>
        show (history.tracker.observe packet arrivalTimeNs).2.options = options
        rw [SessionTracker.observe_eq]
        exact hkeyed.options
    | expireIdle nowNs => exact hkeyed.options
  device device state hstate := by
    have hfind : state ∈ (history.tracker.call call).2.find device := hstate
    rw [(call_part hkeyed device call).1] at hfind
    cases hcall : call.concerns device with
    | true =>
        rw [hcall, if_pos rfl] at hfind
        exact (device_call_device hcall (hkeyed.device device)).1 state hfind
    | false =>
        rw [hcall, if_neg Bool.false_ne_true] at hfind
        exact hkeyed.device device state hfind

/-- The part of a history that concerns one device is changed by the device's own packets and by
the expiries, by a function of the part. -/
theorem part_step (hkeyed : history.Keyed options) (device : DeviceId) (call : SessionCall) :
    (history.step call).part device =
      if call.concerns device then (history.part device).step options call
      else history.part device := by
  obtain ⟨hsession, hevents⟩ := call_part hkeyed device call
  unfold part step DeviceHistory.step
  rw [List.filter_append, hsession, hevents]
  cases call.concerns device with
  | true => rfl
  | false => exact congrArg _ (List.append_nil _)

/-- A history's part that concerns one device, on its own. -/
theorem part_after (options : SessionTrackerOptions) (device : DeviceId)
    (calls : List SessionCall) :
    (after options calls).part device =
      Runs.run (DeviceHistory.step options) {} (calls.filter (SessionCall.concerns device)) := by
  have hpart : (after options calls).part device =
      Runs.run (DeviceHistory.step options) (part device ⟨{ options }, []⟩)
        (calls.filter (SessionCall.concerns device)) :=
    Runs.run_project (fun history call hkeyed => keyed_step hkeyed call)
      (fun history call hkeyed => part_step hkeyed device call) keyed_start calls
  rw [hpart]
  rfl

end SessionHistory

/-! ## Openings and closings -/

/-- A call reports no opening and no closing and leaves the mark of the session, or it reports one
that the session did not have and leaves the session with it. A new session is opened. -/
theorem device_call_marks (options : SessionTrackerOptions) (session : Option SessionState)
    (call : SessionCall) :
    marks (deviceCall options session call).1 = [] ∧
        (deviceCall options session call).2.map SessionState.mark =
          session.map SessionState.mark ∨
      ∃ kind, marks (deviceCall options session call).1 = [kind] ∧
        (deviceCall options session call).2.map SessionState.mark = some kind ∧
        session.map SessionState.mark ≠ some kind ∧ (session = none → kind = .opened) := by
  cases call with
  | observe packet arrivalTimeNs =>
      cases session with
      | none => exact .inr ⟨.opened, rfl, rfl, (Option.some_ne_none _).symm, fun _ => rfl⟩
      | some state =>
          obtain ⟨hmarks, hmark⟩ := state.marks_observe options packet arrivalTimeNs
          cases hopen : state.isOpen with
          | true =>
              rw [hopen, if_pos rfl] at hmarks
              have hbefore : state.mark = .opened := if_pos hopen
              exact .inl ⟨hmarks, congrArg some (hmark.trans hbefore.symm)⟩
          | false =>
              rw [hopen, if_neg Bool.false_ne_true] at hmarks
              have hbefore : state.mark = .closed := by rw [SessionState.mark, hopen]; rfl
              refine .inr ⟨.opened, hmarks, congrArg some hmark, ?_, fun _ => rfl⟩
              rw [Option.map_some, hbefore]
              exact fun hsame => SessionEventKind.noConfusion (Option.some.inj hsame)
  | expireIdle nowNs =>
      cases session with
      | none => exact .inl ⟨rfl, rfl⟩
      | some state =>
          obtain ⟨hmarks, hmark⟩ | ⟨hopened, hmarks, hmark⟩ := state.marks_expire_idle options nowNs
          · exact .inl ⟨hmarks, congrArg some hmark⟩
          · refine .inr ⟨.closed, hmarks, congrArg some hmark, ?_,
              fun hnone => absurd hnone (Option.some_ne_none _)⟩
            rw [Option.map_some, hopened]
            exact fun hsame => SessionEventKind.noConfusion (Option.some.inj hsame)

/-- The openings and closings alternate, an opening comes first, and the last of them is what the
session is left with. -/
structure DeviceHistory.Alternating (history : DeviceHistory) : Prop where
  alternate : (marks history.events).IsChain (· ≠ ·)
  first : ∀ kind ∈ (marks history.events).head?, kind = .opened
  last : (marks history.events).getLast? = history.session.map SessionState.mark

/-- A call keeps openings and closings in turn. -/
theorem DeviceHistory.alternating_step (options : SessionTrackerOptions) (history : DeviceHistory)
    (call : SessionCall) (h : history.Alternating) : (history.step options call).Alternating := by
  have hmarks : marks (history.step options call).events =
      marks history.events ++ marks (deviceCall options history.session call).1 :=
    marks_append _ _
  obtain ⟨hnone, hsame⟩ | ⟨kind, hone, hmark, hnew, hstart⟩ :=
    device_call_marks options history.session call
  · rw [hnone, List.append_nil] at hmarks
    exact ⟨hmarks ▸ h.alternate, hmarks ▸ h.first, by rw [hmarks, h.last]; exact hsame.symm⟩
  · rw [hone] at hmarks
    refine ⟨?_, ?_, ?_⟩
    · rw [hmarks, List.isChain_append]
      refine ⟨h.alternate, .singleton _, fun before hbefore after hafter => ?_⟩
      rw [Option.some.inj hafter.symm]
      rintro rfl
      exact hnew (h.last.symm.trans hbefore)
    · rw [hmarks]
      cases hbefore : marks history.events with
      | nil =>
          have hsession : history.session = none := by
            have hlast := h.last
            rw [hbefore] at hlast
            exact Option.map_eq_none_iff.mp hlast.symm
          intro first hfirst
          rw [← Option.some.inj hfirst]
          exact hstart hsession
      | cons head tail =>
          have hfirst := h.first
          rw [hbefore] at hfirst
          exact hfirst
    · rw [hmarks, List.getLast?_append]
      exact hmark.symm

/-! ## Counters -/

/-- The session was there before and its last sequence number has grown. -/
def sequenceAdvanced : Option SessionState → Option SessionState → Bool
  | some before, some after => before.lastSequence < after.lastSequence
  | _, _ => false

namespace SessionTracker

/-- The call observes a packet of the device and advances the last sequence number of its
session. -/
def advances (device : DeviceId) (tracker : SessionTracker) : SessionCall → Bool
  | .observe packet arrivalTimeNs =>
      packet.device = device &&
        sequenceAdvanced (tracker.find device)
          ((tracker.observe packet arrivalTimeNs).2.find device)
  | .expireIdle _ => false

/-- The number of calls of a run that observe a packet of the device and advance the last sequence
number of its session. -/
def advanceCount (device : DeviceId) : SessionTracker → List SessionCall → Nat
  | _, [] => 0
  | tracker, call :: calls =>
      (tracker.advances device call).toNat + advanceCount device (tracker.call call).2 calls

end SessionTracker

/-- The packets of a session are its first, those that advanced its last sequence number, and its
duplicates. -/
def Counted (advanced : Nat) : Option SessionState → Prop
  | none => advanced = 0
  | some state => state.packets = 1 + UInt64.ofNat advanced + state.duplicates

/-- A packet keeps the count of the advances right. -/
theorem counted_observe {options : SessionTrackerOptions} {session : Option SessionState}
    {advanced : Nat} (h : Counted advanced session) (packet : Packet) (arrivalTimeNs : UInt64) :
    Counted
      (advanced +
        (sequenceAdvanced session (observeDevice options session packet arrivalTimeNs).2).toNat)
      (some (observeDevice options session packet arrivalTimeNs).2) := by
  cases session with
  | none =>
      rw [show advanced = 0 from h]
      rfl
  | some state =>
      have hpackets : state.packets = 1 + UInt64.ofNat advanced + state.duplicates := h
      obtain ⟨remarks, seen, gaps, regressions, hobserve, -⟩ :=
        state.observe_spec options packet arrivalTimeNs
      show Counted (advanced + (decide
          (state.lastSequence < (state.observe options packet arrivalTimeNs).2.lastSequence)).toNat)
        (some (state.observe options packet arrivalTimeNs).2)
      rw [hobserve]
      by_cases hlt : state.lastSequence < packet.sequence
      · show state.packets + 1 = 1 + UInt64.ofNat (advanced + _) + _
        rw [if_pos hlt, if_pos hlt, decide_eq_true hlt, hpackets, UInt64.ofNat_add]
        show _ = 1 + (UInt64.ofNat advanced + 1) + state.duplicates
        ac_rfl
      · show state.packets + 1 = 1 + UInt64.ofNat (advanced + _) + _
        rw [if_neg hlt, if_neg hlt, decide_eq_false (UInt32.lt_irrefl _), hpackets]
        show _ = 1 + UInt64.ofNat advanced + (state.duplicates + 1)
        ac_rfl

/-- Expiry keeps the count of the advances right. -/
theorem counted_expire_idle {options : SessionTrackerOptions} {session : Option SessionState}
    {advanced : Nat} (h : Counted advanced session) (nowNs : UInt64) :
    Counted advanced (deviceCall options session (.expireIdle nowNs)).2 := by
  cases session with
  | none => exact h
  | some state =>
      show Counted advanced (some (state.expireIdle options nowNs).2)
      obtain hskip | ⟨-, -, -, timeout, closing, hexpire, -⟩ := state.expire_idle_spec options nowNs
      · rw [hskip]
        exact h
      · rw [hexpire]
        exact h

namespace SessionHistory

variable {options : SessionTrackerOptions}

/-- A call keeps the count of the advances right. -/
theorem counted_step {history : SessionHistory} (hkeyed : history.Keyed options)
    (device : DeviceId) (call : SessionCall) {advanced : Nat}
    (h : Counted advanced (history.tracker.find device)) :
    Counted (advanced + (history.tracker.advances device call).toNat)
      ((history.step call).tracker.find device) := by
  have hfind := (call_part hkeyed device call).1
  show Counted _ ((history.tracker.call call).2.find device)
  cases call with
  | observe packet arrivalTimeNs =>
      by_cases hdevice : packet.device = device
      · rw [SessionCall.concerns, decide_eq_true hdevice, if_pos rfl] at hfind
        rw [hfind]
        let observed := observeDevice options (history.tracker.find device) packet arrivalTimeNs
        have hobserved : (history.tracker.observe packet arrivalTimeNs).2.find device =
            some observed.2 := hfind
        rw [SessionTracker.advances, decide_eq_true hdevice, hobserved, Bool.true_and]
        exact counted_observe h packet arrivalTimeNs
      · rw [SessionCall.concerns, decide_eq_false hdevice, if_neg Bool.false_ne_true] at hfind
        rw [hfind, SessionTracker.advances, decide_eq_false hdevice]
        exact h
  | expireIdle nowNs =>
      rw [SessionCall.concerns, if_pos rfl] at hfind
      rw [hfind]
      exact counted_expire_idle h nowNs

/-- After any calls the count of the advances is right. -/
theorem counted_run (device : DeviceId) (calls : List SessionCall) {history : SessionHistory}
    (hkeyed : history.Keyed options) {advanced : Nat}
    (h : Counted advanced (history.tracker.find device)) :
    Counted (advanced + history.tracker.advanceCount device calls)
      ((Runs.run step history calls).tracker.find device) := by
  induction calls generalizing history advanced with
  | nil => exact h
  | cons call calls ih =>
      rw [SessionTracker.advanceCount, ← Nat.add_assoc]
      exact ih (keyed_step hkeyed call) (counted_step hkeyed device call h)

end SessionHistory

/-! ## Progress -/

/-- A session that was there is still there, and its last sequence number and packet time are not
smaller. -/
def Progressed (earlier later : Option SessionState) : Prop :=
  ∀ before ∈ earlier, ∃ after ∈ later,
    before.lastSequence ≤ after.lastSequence ∧ before.lastPacketTimeNs ≤ after.lastPacketTimeNs

theorem Progressed.refl (session : Option SessionState) : Progressed session session :=
  fun before hbefore => ⟨before, hbefore, UInt32.le_refl _, UInt64.le_refl _⟩

/-- What does not go back in two parts does not go back. -/
theorem Progressed.trans {earlier middle later : Option SessionState}
    (hfirst : Progressed earlier middle) (hsecond : Progressed middle later) :
    Progressed earlier later := by
  intro before hbefore
  obtain ⟨between, hbetween, hsequence, htime⟩ := hfirst before hbefore
  obtain ⟨after, hafter, hsequence', htime'⟩ := hsecond between hbetween
  exact ⟨after, hafter, UInt32.le_trans hsequence hsequence', UInt64.le_trans htime htime'⟩

/-- No call sends a session back. -/
theorem device_call_progressed (options : SessionTrackerOptions) (session : Option SessionState)
    (call : SessionCall) : Progressed session (deviceCall options session call).2 := by
  intro state hstate
  obtain rfl : session = some state := hstate
  cases call with
  | observe packet arrivalTimeNs =>
      refine ⟨(state.observe options packet arrivalTimeNs).2, rfl, ?_⟩
      obtain ⟨remarks, seen, gaps, regressions, hobserve, -⟩ :=
        state.observe_spec options packet arrivalTimeNs
      rw [hobserve]
      refine ⟨?_, ?_⟩
      · show state.lastSequence ≤ if _ then _ else _
        split
        case isTrue hlt => exact UInt32.le_of_lt hlt
        case isFalse => exact UInt32.le_refl _
      · show state.lastPacketTimeNs ≤ if _ then _ else _
        split
        case isTrue => exact UInt64.le_refl _
        case isFalse hlt => exact UInt64.not_lt.mp hlt
  | expireIdle nowNs =>
      refine ⟨(state.expireIdle options nowNs).2, rfl, ?_⟩
      obtain hskip | ⟨-, -, -, timeout, closing, hexpire, -⟩ := state.expire_idle_spec options nowNs
      · rw [hskip]
        exact ⟨UInt32.le_refl _, UInt64.le_refl _⟩
      · rw [hexpire]
        exact ⟨UInt32.le_refl _, UInt64.le_refl _⟩

/-- No run sends a session back. -/
theorem DeviceHistory.run_progressed (options : SessionTrackerOptions) (history : DeviceHistory)
    (calls : List SessionCall) :
    Progressed history.session (Runs.run (DeviceHistory.step options) history calls).session := by
  let inv := fun current : DeviceHistory => Progressed history.session current.session
  have hstep : ∀ current call, inv current → inv (current.step options call) :=
    fun current call hprogressed =>
      hprogressed.trans (device_call_progressed options current.session call)
  exact Runs.run_invariant hstep (Progressed.refl history.session) calls

/-! ## Whole runs -/

/-- An observation reports its packet once. -/
theorem SessionTracker.observe_seen (tracker : SessionTracker) (packet : Packet)
    (arrivalTimeNs : UInt64)
    (hdevice : ∀ state ∈ tracker.find packet.device, state.device = packet.device) :
    ∃ seen, ((tracker.observe packet arrivalTimeNs).1.filter fun event =>
        event.kind = .packetSeen) = [seen] ∧
      seen.device = packet.device ∧ seen.sequence = packet.sequence ∧
      seen.timestampNs = packet.timestampNs := by
  rw [observe_eq]
  cases hfind : tracker.find packet.device with
  | none => exact ⟨_, rfl, rfl, rfl, rfl⟩
  | some state =>
      show ∃ seen, ((state.observe tracker.options packet arrivalTimeNs).1.filter fun event =>
        event.kind = .packetSeen) = [seen] ∧ _
      obtain ⟨remarks, seen, gaps, regressions, hobserve, hremarks, hkind, hseen, hrest⟩ :=
        state.observe_spec tracker.options packet arrivalTimeNs
      have hopening : ((state.reopen packet arrivalTimeNs).1.filter fun event =>
          event.kind = .packetSeen) = [] := by
        rw [SessionState.reopen_eq]
        cases state.isOpen with
        | true => rfl
        | false => rfl
      have hquiet : (remarks.filter fun event => event.kind = .packetSeen) = [] := by
        refine List.filter_eq_nil_iff.mpr fun event hevent => ?_
        obtain ⟨-, hkind | hkind | hkind⟩ := hremarks event hevent
        all_goals
          rw [hkind]
          decide
      refine ⟨seen, ?_, hseen.trans (hdevice state hfind), hrest⟩
      rw [hobserve]
      show ((_ ++ remarks ++ [seen]).filter _) = [seen]
      rw [List.filter_append, List.filter_append, hopening, hquiet,
        List.filter_cons_of_pos (by simpa using hkind)]
      rfl

/-- Expiries alone report nothing of a device without a session. -/
theorem DeviceHistory.run_expire_idle (options : SessionTrackerOptions) {calls : List SessionCall}
    (hcalls : ∀ call ∈ calls, ∃ nowNs, call = .expireIdle nowNs) :
    Runs.run (DeviceHistory.step options) {} calls = {} := by
  induction calls with
  | nil => rfl
  | cons call calls ih =>
      obtain ⟨nowNs, rfl⟩ := hcalls call List.mem_cons_self
      exact ih fun later hlater => hcalls later (List.mem_cons_of_mem _ hlater)

namespace SessionHistory

variable (options : SessionTrackerOptions) (device : DeviceId) (calls : List SessionCall)

theorem keyed_after : (after options calls).Keyed options := by
  have hstep : ∀ history call, Keyed options history → Keyed options (step history call) :=
    fun history call hkeyed => keyed_step hkeyed call
  exact Runs.run_invariant hstep keyed_start calls

/-- A tracker that is cleared is a new one, so that clearing leads to no further states. -/
theorem clear_after : (after options calls).tracker.clear = { options } := by
  rw [SessionTracker.clear, (keyed_after options calls).options]

/-- A run without the packets of other devices leaves the same of the device. -/
theorem part_after_alone :
    (after options (calls.filter (SessionCall.concerns device))).part device =
      (after options calls).part device := by
  rw [part_after, part_after, List.filter_filter]
  simp only [Bool.and_self]

/-- A run without the packets of other devices reports of the device alone. -/
theorem events_after_alone :
    ∀ event ∈ (after options (calls.filter (SessionCall.concerns device))).events,
      event.device = device := by
  intro event hevent
  by_contra hother
  have hexpiries : ∀ call ∈ (calls.filter (SessionCall.concerns device)).filter
      (SessionCall.concerns event.device), ∃ nowNs, call = SessionCall.expireIdle nowNs := by
    intro call hcall
    rw [List.filter_filter] at hcall
    have hboth := (List.mem_filter.mp hcall).2
    cases call with
    | observe packet arrivalTimeNs =>
        obtain ⟨hfirst, hsecond⟩ := Bool.and_eq_true_iff.mp hboth
        exact absurd ((of_decide_eq_true hfirst).symm.trans (of_decide_eq_true hsecond)) hother
    | expireIdle nowNs => exact ⟨nowNs, rfl⟩
  have hpart := part_after options event.device (calls.filter (SessionCall.concerns device))
  rw [DeviceHistory.run_expire_idle options hexpiries] at hpart
  have hnone := congrArg DeviceHistory.events hpart
  exact List.filter_eq_nil_iff.mp hnone event hevent (decide_eq_true rfl)

end SessionHistory

/-- Sessions over every run: the openings and closings of a device alternate from an opening and
the session is open when the last of them is one; an observation reports its packet once; the
packets of a session are its first, those that advanced the last sequence number and the
duplicates; the last sequence number and packet time never decrease; and the packets of other
devices change nothing. -/
theorem session_runs (options : SessionTrackerOptions) (calls : List SessionCall)
    (device : DeviceId) :
    let history := SessionHistory.after options calls
    let changes := marks (history.events.filter fun event => event.device = device)
    let alone := SessionHistory.after options (calls.filter (SessionCall.concerns device))
    (changes.IsChain (· ≠ ·) ∧ (∀ kind ∈ changes.head?, kind = .opened) ∧
      changes.getLast? = (history.tracker.find device).map SessionState.mark) ∧
    (∀ packet arrivalTimeNs, ∃ seen,
      ((history.tracker.observe packet arrivalTimeNs).1.filter fun event =>
        event.kind = .packetSeen) = [seen] ∧
      seen.device = packet.device ∧ seen.sequence = packet.sequence ∧
      seen.timestampNs = packet.timestampNs) ∧
    (∀ state ∈ history.tracker.find device, state.packets =
      1 + UInt64.ofNat (SessionTracker.advanceCount device { options } calls) +
        state.duplicates) ∧
    (∀ before ∈ history.tracker.find device, ∀ more,
      ∃ later ∈ (SessionHistory.after options (calls ++ more)).tracker.find device,
        before.lastSequence ≤ later.lastSequence ∧
        before.lastPacketTimeNs ≤ later.lastPacketTimeNs) ∧
    alone.tracker.find device = history.tracker.find device ∧
      alone.events = history.events.filter fun event => event.device = device := by
  intro history changes alone
  have hkeyed := SessionHistory.keyed_after options calls
  have hpart := SessionHistory.part_after options device calls
  have halternating : (history.part device).Alternating := by
    rw [hpart]
    exact Runs.run_invariant (fun current call => current.alternating_step options call)
      ⟨.nil, fun _ hhead => absurd hhead.symm (Option.some_ne_none _), rfl⟩ _
  have halone := SessionHistory.part_after_alone options device calls
  refine ⟨⟨halternating.alternate, halternating.first, halternating.last⟩, ?_, ?_, ?_,
    congrArg DeviceHistory.session halone, ?_⟩
  · intro packet arrivalTimeNs
    exact history.tracker.observe_seen packet arrivalTimeNs (hkeyed.device packet.device)
  · have hstart : Counted 0 ((⟨{ options }, []⟩ : SessionHistory).tracker.find device) := rfl
    have hcounted := SessionHistory.counted_run device calls SessionHistory.keyed_start hstart
    rw [Nat.zero_add] at hcounted
    intro state hstate
    have hfound : (Runs.run SessionHistory.step ⟨{ options }, []⟩ calls).tracker.find device =
      some state := hstate
    rw [hfound] at hcounted
    exact hcounted
  · intro before hbefore more
    have hmore : (SessionHistory.after options (calls ++ more)).part device =
        Runs.run (DeviceHistory.step options) (history.part device)
          (more.filter (SessionCall.concerns device)) := by
      rw [SessionHistory.part_after, hpart, List.filter_append]
      exact List.foldl_append
    have hprogressed := DeviceHistory.run_progressed options (history.part device)
      (more.filter (SessionCall.concerns device))
    rw [← hmore] at hprogressed
    exact hprogressed before hbefore
  · have hall : (alone.events.filter fun event => event.device = device) = alone.events :=
      List.filter_eq_self.mpr fun event hevent =>
        decide_eq_true (SessionHistory.events_after_alone options device calls event hevent)
    rw [← hall]
    exact congrArg DeviceHistory.events halone

end Aethon.Stream
