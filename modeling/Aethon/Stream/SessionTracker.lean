import Mathlib.Data.List.Defs
import Std.Data.ExtTreeMap
import Aethon.Foundation.SortedTable
import Aethon.Foundation.StableSort
import Aethon.Protocol.Types

/-!
# Session and link tracking

`SessionTracker` and `LinkMonitor`, after `stream/session_tracker.cpp` and
`stream/link_monitor.cpp`. The tracker keeps one session for each device, reports what a packet
does to it and closes it when it has been idle for too long, the monitor keeps every arrival and
reports on neighbours in time. Sequence numbers wrap around at 32 bits, counters and times at 64.
-/

namespace Aethon.Stream

open Protocol StableSort

/-! ## Sessions -/

/-- What can happen in a session. -/
inductive SessionEventKind where
  | opened
  | packetSeen
  | duplicateSequence
  | sequenceGap
  | timestampRegression
  | idleTimeout
  | closed
  deriving DecidableEq, Repr

/-- Something that happened in the session of a device. -/
structure SessionEvent where
  kind : SessionEventKind := .packetSeen
  device : DeviceId := 0
  sequence : UInt32 := 0
  timestampNs : UInt64 := 0
  expectedSequence : UInt32 := 0
  message : String
  deriving DecidableEq, Repr

/-- What is known of the session of a device. -/
structure SessionState where
  device : DeviceId := 0
  openedAtNs : UInt64 := 0
  lastSeenNs : UInt64 := 0
  lastPacketTimeNs : UInt64 := 0
  firstSequence : UInt32 := 0
  lastSequence : UInt32 := 0
  packets : UInt64 := 0
  duplicates : UInt64 := 0
  gaps : UInt64 := 0
  timestampRegressions : UInt64 := 0
  isOpen : Bool := false
  deriving DecidableEq, Repr

/-- The limits of a tracker. -/
structure SessionTrackerOptions where
  idleTimeoutNs : UInt64 := 30000000000
  maxGapWithoutWarning : UInt32 := 4
  deriving DecidableEq, Repr

/-- An event of a session. -/
def makeEvent (kind : SessionEventKind) (state : SessionState) (sequence : UInt32)
    (timestampNs : UInt64) (message : String) : SessionEvent where
  kind := kind
  device := state.device
  sequence := sequence
  timestampNs := timestampNs
  expectedSequence := state.lastSequence + 1
  message := message

/-- The session that the first packet of a device opens. -/
def newSession (packet : Packet) (arrivalTimeNs : UInt64) : SessionState where
  device := packet.device
  openedAtNs := arrivalTimeNs
  lastSeenNs := arrivalTimeNs
  lastPacketTimeNs := packet.timestampNs
  firstSequence := packet.sequence
  lastSequence := packet.sequence
  packets := 1
  isOpen := true

/-- The comparison is one of plain words. -/
def sequenceAfter (newer older : UInt32) : Bool :=
  newer > older

/-- How many sequences lie between two. -/
def sequenceGap (newer older : UInt32) : UInt32 :=
  if newer ≤ older + 1 then 0 else newer - older - 1

namespace SessionState

/-! `observe` works on a session in four steps. Each yields the events it appends and the session
it leaves. -/

/-- An event about the packet that is observed. -/
def event (state : SessionState) (kind : SessionEventKind) (packet : Packet) (message : String) :
    SessionEvent :=
  makeEvent kind state packet.sequence packet.timestampNs message

/-- A session that was closed is opened again. -/
def reopen (state : SessionState) (packet : Packet) (arrivalTimeNs : UInt64) :
    List SessionEvent × SessionState :=
  if state.isOpen then ([], state)
  else
    let state := { state with isOpen := true, openedAtNs := arrivalTimeNs }
    ([state.event .opened packet "session reopened"], state)

/-- What a tracker says of a sequence: a repeat, a gap or one that goes back. -/
def observeSequence (options : SessionTrackerOptions) (state : SessionState) (packet : Packet) :
    List SessionEvent × SessionState :=
  if packet.sequence = state.lastSequence then
    let state := { state with duplicates := state.duplicates + 1 }
    ([state.event .duplicateSequence packet "duplicate packet sequence"], state)
  else if sequenceAfter packet.sequence state.lastSequence then
    let gap := sequenceGap packet.sequence state.lastSequence
    if gap > options.maxGapWithoutWarning then
      let state := { state with gaps := state.gaps + 1 }
      ([state.event .sequenceGap packet ("sequence gap of " ++ toString gap ++ " packets")],
        { state with lastSequence := packet.sequence })
    else ([], { state with lastSequence := packet.sequence })
  else
    let state := { state with duplicates := state.duplicates + 1 }
    ([state.event .duplicateSequence packet "late or repeated packet sequence"], state)

/-- What a tracker says of a packet time that goes back. -/
def observeTimestamp (state : SessionState) (packet : Packet) :
    List SessionEvent × SessionState :=
  if packet.timestampNs < state.lastPacketTimeNs then
    let state := { state with timestampRegressions := state.timestampRegressions + 1 }
    ([state.event .timestampRegression packet "packet timestamp regressed"], state)
  else ([], { state with lastPacketTimeNs := packet.timestampNs })

/-- A packet in an open session. -/
def see (state : SessionState) (packet : Packet) (arrivalTimeNs : UInt64) :
    List SessionEvent × SessionState :=
  let state := { state with lastSeenNs := arrivalTimeNs, packets := state.packets + 1 }
  ([state.event .packetSeen packet "packet observed"], state)

/-- The part of `observe` behind the lookup. -/
def observe (options : SessionTrackerOptions) (state : SessionState) (packet : Packet)
    (arrivalTimeNs : UInt64) : List SessionEvent × SessionState :=
  let (opened, state) := state.reopen packet arrivalTimeNs
  let (sequenced, state) := state.observeSequence options packet
  let (timed, state) := state.observeTimestamp packet
  let (seen, state) := state.see packet arrivalTimeNs
  (opened ++ sequenced ++ timed ++ seen, state)

/-- The body of the loop of `expire_idle`. -/
def expireIdle (options : SessionTrackerOptions) (state : SessionState) (nowNs : UInt64) :
    List SessionEvent × SessionState :=
  if ¬ state.isOpen then ([], state)
  else if nowNs < state.lastSeenNs then ([], state)
  else
    let idleFor := nowNs - state.lastSeenNs
    if idleFor < options.idleTimeoutNs then ([], state)
    else
      let state := { state with isOpen := false }
      ([makeEvent .idleTimeout state state.lastSequence state.lastPacketTimeNs
            ("session idle for " ++ toString idleFor ++ " ns"),
          makeEvent .closed state state.lastSequence state.lastPacketTimeNs
            "session closed after idle timeout"], state)

end SessionState

/-- The sessions of the devices that were seen. -/
structure SessionTracker where
  options : SessionTrackerOptions := {}
  sessions : Std.ExtTreeMap DeviceId SessionState := ∅

/-- Open a session for a new device, and reopen one that was closed. -/
def SessionTracker.observe (tracker : SessionTracker) (packet : Packet) (arrivalTimeNs : UInt64) :
    List SessionEvent × SessionTracker :=
  match tracker.sessions[packet.device]? with
  | none =>
      let state := newSession packet arrivalTimeNs
      ([state.event .opened packet "session opened",
          state.event .packetSeen packet "first packet observed"],
        { tracker with sessions := tracker.sessions.insert packet.device state })
  | some state =>
      let (events, state) := state.observe tracker.options packet arrivalTimeNs
      (events, { tracker with sessions := tracker.sessions.insert packet.device state })

/-- The loop runs over the sessions in the order of their devices. -/
def SessionTracker.expireIdle (tracker : SessionTracker) (nowNs : UInt64) :
    List SessionEvent × SessionTracker :=
  (tracker.sessions.toList.flatMap fun entry => (entry.2.expireIdle tracker.options nowNs).1,
    { tracker with
      sessions := tracker.sessions.map fun _ state => (state.expireIdle tracker.options nowNs).2 })

/-- The session of a device. -/
def SessionTracker.find (tracker : SessionTracker) (device : DeviceId) : Option SessionState :=
  tracker.sessions[device]?

/-- Forget all sessions. -/
def SessionTracker.clear (tracker : SessionTracker) : SessionTracker :=
  { tracker with sessions := ∅ }

/-- The sessions with the sums of their counters. -/
structure SessionTrackerSnapshot where
  sessions : List SessionState := []
  totalPackets : UInt64 := 0
  totalDuplicates : UInt64 := 0
  totalGaps : UInt64 := 0
  totalTimestampRegressions : UInt64 := 0
  deriving DecidableEq, Repr

/-- Add the counters of a session to the sums. -/
def accumulate (snapshot : SessionTrackerSnapshot) (state : SessionState) :
    SessionTrackerSnapshot :=
  { snapshot with
    totalPackets := snapshot.totalPackets + state.packets
    totalDuplicates := snapshot.totalDuplicates + state.duplicates
    totalGaps := snapshot.totalGaps + state.gaps
    totalTimestampRegressions :=
      snapshot.totalTimestampRegressions + state.timestampRegressions }

/-- The sessions have different devices, so every sort brings them into the same order. -/
def SessionTracker.snapshot (tracker : SessionTracker) : SessionTrackerSnapshot :=
  let snapshot : SessionTrackerSnapshot := tracker.sessions.toList.foldl
    (fun snapshot entry =>
      accumulate { snapshot with sessions := snapshot.sessions ++ [entry.2] } entry.2) {}
  { snapshot with
    sessions := stableSort (fun left right => left.device < right.device) snapshot.sessions }

/-- The name of a kind of event. -/
def sessionEventName : SessionEventKind → String
  | .opened => "opened"
  | .packetSeen => "packet_seen"
  | .duplicateSequence => "duplicate_sequence"
  | .sequenceGap => "sequence_gap"
  | .timestampRegression => "timestamp_regression"
  | .idleTimeout => "idle_timeout"
  | .closed => "closed"

/-- The text of an event. -/
def renderSessionEvent (event : SessionEvent) : String :=
  "session_event " ++ sessionEventName event.kind ++ " device=" ++ toString event.device ++
    " sequence=" ++ toString event.sequence ++ " expected=" ++ toString event.expectedSequence ++
    " timestamp_ns=" ++ toString event.timestampNs ++
    if event.message = "" then "" else " message=\"" ++ event.message ++ "\""

/-! ## Links -/

/-- When a packet of a device arrived, with its sequence. -/
structure LinkSample where
  device : DeviceId
  arrivalTimeNs : UInt64
  sequence : UInt32
  deriving DecidableEq, Repr

/-- The samples in the order in which they came. -/
structure LinkMonitor where
  samples : List LinkSample := []
  deriving DecidableEq, Repr

/-- A sample for each packet. -/
def LinkMonitor.observe (monitor : LinkMonitor) (packet : Packet) (arrivalTimeNs : UInt64) :
    LinkMonitor :=
  ⟨monitor.samples ++ [⟨packet.device, arrivalTimeNs, packet.sequence⟩]⟩

/-- No observation leaves the monitor as it was. -/
theorem LinkMonitor.observe_ne (monitor : LinkMonitor) (packet : Packet)
    (arrivalTimeNs : UInt64) : monitor.observe packet arrivalTimeNs ≠ monitor := by
  intro h
  have hlength := congrArg (fun monitor : LinkMonitor => monitor.samples.length) h
  simp [observe] at hlength

/-- The limits of a report. -/
structure LinkMonitorOptions where
  jitterWarningNs : UInt64 := 100000000
  idleWarningNs : UInt64 := 5000000000
  deriving DecidableEq, Repr

/-- Something that a report finds in the samples of a device. -/
structure LinkFinding where
  device : DeviceId := 0
  code : String
  message : String
  deriving DecidableEq, Repr

/-- The findings of a report, with the number of samples. -/
structure LinkMonitorReport where
  samples : UInt64 := 0
  findings : List LinkFinding := []
  deriving DecidableEq, Repr

/-- The samples of each device, in their order. -/
def groupByDevice (samples : List LinkSample) : SortedTable DeviceId (List LinkSample) :=
  samples.foldl (fun grouped sample =>
    grouped.update sample.device fun held => held.getD [] ++ [sample]) ∅

/-- The comparison of the samples of a device. -/
def LinkSample.before (left right : LinkSample) : Bool :=
  left.arrivalTimeNs < right.arrivalTimeNs

/-- The loop body of `report`. -/
def findingsBetween (options : LinkMonitorOptions) (device : DeviceId)
    (previous current : LinkSample) : List LinkFinding :=
  let delta := current.arrivalTimeNs - previous.arrivalTimeNs
  (if delta > options.idleWarningNs then
      [⟨device, "link.idle_gap", "device had a long idle gap"⟩]
    else if delta > options.jitterWarningNs then
      [⟨device, "link.jitter", "device arrival delta exceeded jitter threshold"⟩]
    else []) ++
  if current.sequence ≤ previous.sequence then
    [⟨device, "link.sequence_regression", "sequence did not advance"⟩]
  else []

/-- The samples of a device are sorted by their arrival times alone, by a sort that need not be
stable. -/
def LinkMonitor.report (sortSamples : List LinkSample → List LinkSample)
    (monitor : LinkMonitor) (options : LinkMonitorOptions := {}) : LinkMonitorReport where
  samples := UInt64.ofNat monitor.samples.length
  findings := (groupByDevice monitor.samples).entries.flatMap fun (device, samples) =>
    (sortSamples samples).consecutivePairs.flatMap fun (previous, current) =>
      findingsBetween options device previous current

end Aethon.Stream
