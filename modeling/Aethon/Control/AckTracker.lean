import Aethon.Control.CommandJournal

/-!
# The acknowledgement tracker

`control::AckTracker`: expectations of acknowledgements, each waiting until it is satisfied, timed
out or cancelled, and replaced only by a later expectation of the same command. Every change of a
record goes through `recordObservation`. Identifiers, times and the counters of a record are words
of the source's widths, the statistics are naturals. The loop over the table that changes records
goes over the keys it started with.
-/

namespace Aethon.Control

open Protocol

/-- What has become of an expectation. -/
inductive AckExpectationState where
  | waiting
  | satisfied
  | timedOut
  | cancelled
  deriving DecidableEq, Repr

/-- What an acknowledgement means to the tracker. -/
inductive AckObservationKind where
  | matched
  | duplicate
  | unexpected
  | stale
  | rejected
  deriving DecidableEq, Repr

/-- The acknowledgements that a command is to get, and until when. -/
structure AckExpectation where
  commandId : CommandId := 0
  device : DeviceId := 0
  createdTimeNs : UInt64 := 0
  deadlineNs : UInt64 := 0
  requiredAccepts : UInt32 := 1
  label : String := ""
  deriving DecidableEq, Repr

/-- What the tracker says of an acknowledgement. -/
structure AckObservation where
  kind : AckObservationKind := .unexpected
  commandId : CommandId := 0
  device : DeviceId := 0
  timeNs : UInt64 := 0
  message : String := ""
  deriving DecidableEq, Repr

/-- `Record`, which a snapshot copies field by field. -/
structure AckRecord where
  expectation : AckExpectation
  state : AckExpectationState := .waiting
  acceptsSeen : UInt32 := 0
  rejectsSeen : UInt32 := 0
  lastObservationTimeNs : UInt64 := 0
  observations : List AckObservation := []
  deriving DecidableEq, Repr

/-- What a tracker counts. -/
structure AckTrackerStats where
  registered : Nat := 0
  matched : Nat := 0
  duplicates : Nat := 0
  unexpected : Nat := 0
  stale : Nat := 0
  rejected : Nat := 0
  timedOut : Nat := 0
  cancelled : Nat := 0
  deriving DecidableEq, Repr

/-- The expectations that were registered, by their commands. -/
structure AckTracker where
  records : SortedTable CommandId AckRecord := ∅
  stats : AckTrackerStats := {}

/-! ## Acknowledgements -/

/-- The status of an acknowledgement that counts as an accept. -/
def acceptedStatus (status : AckStatus) : Bool :=
  status = .accepted

/-- A status that fails an expectation. -/
def rejectedStatus (status : AckStatus) : Bool :=
  status = .rejected || status = .malformed || status = .unknownCommand

/-- The name of a status. -/
def ackStatusName : AckStatus → String
  | .accepted => "accepted"
  | .rejected => "rejected"
  | .busy => "busy"
  | .malformed => "malformed"
  | .unknownCommand => "unknown_command"

/-- The message of an acknowledgement, or one that is made for it. -/
def ackMessage (ack : CommandAck) : String :=
  if ack.message ≠ "" then ack.message
  else "ack " ++ ackStatusName ack.status ++ " for command " ++ toString ack.commandId

/-- The observation of an acknowledgement. -/
def CommandAck.observed (ack : CommandAck) (kind : AckObservationKind) (message : String) :
    AckObservation :=
  ⟨kind, ack.commandId, ack.device, ack.timeNs, message⟩

/-- The counters after an observation of a kind. -/
def AckTrackerStats.count (stats : AckTrackerStats) : AckObservationKind → AckTrackerStats
  | .matched => { stats with matched := stats.matched + 1 }
  | .duplicate => { stats with duplicates := stats.duplicates + 1 }
  | .unexpected => { stats with unexpected := stats.unexpected + 1 }
  | .stale => { stats with stale := stats.stale + 1 }
  | .rejected => { stats with rejected := stats.rejected + 1 }

/-! ## Records -/

/-- `terminal`. -/
def AckExpectationState.terminal (state : AckExpectationState) : Bool :=
  state = .satisfied || state = .timedOut || state = .cancelled

namespace AckRecord

/-- What an acknowledgement means for an expectation, the first reason that applies. -/
def classify (record : AckRecord) (ack : CommandAck) : AckObservation :=
  if record.state.terminal then ack.observed .duplicate "ack matched a terminal expectation"
  else if ack.device ≠ record.expectation.device then
    ack.observed .unexpected "ack device did not match expectation"
  else if record.expectation.deadlineNs ≠ 0 ∧ ack.timeNs > record.expectation.deadlineNs then
    ack.observed .stale "ack arrived after deadline"
  else if acceptedStatus ack.status then
    if record.acceptsSeen ≥ record.expectation.requiredAccepts then
      ack.observed .duplicate "ack acceptance was already satisfied"
    else ack.observed .matched (ackMessage ack)
  else if rejectedStatus ack.status then ack.observed .rejected (ackMessage ack)
  -- what is left is a busy device
  else ack.observed .matched (ackMessage ack)

/-- The record with an observation in its log. -/
def log (record : AckRecord) (observation : AckObservation) : AckRecord :=
  { record with
    lastObservationTimeNs := max record.lastObservationTimeNs observation.timeNs
    observations := record.observations ++ [observation] }

/-- Log an observation, and settle the expectation if that is the one it waited for. -/
def recordObservation (record : AckRecord) (observation : AckObservation) : AckRecord :=
  match observation.kind with
  | .matched =>
      let acceptsSeen := record.acceptsSeen + 1
      { record.log observation with
        acceptsSeen := acceptsSeen
        state :=
          if acceptsSeen ≥ record.expectation.requiredAccepts then .satisfied else record.state }
  | .rejected =>
      { record.log observation with
        rejectsSeen := record.rejectsSeen + 1
        state := .satisfied }
  | .duplicate | .unexpected | .stale => record.log observation

/-- The record put into a state, with the observation of it. -/
def close (record : AckRecord) (state : AckExpectationState) (observation : AckObservation) :
    AckRecord :=
  AckRecord.recordObservation { record with state := state } observation

end AckRecord

/-- The expectation of a command that was sent. -/
def expectationFromEntry (entry : JournalEntry) (timeoutNs : UInt64) : AckExpectation :=
  let createdTimeNs :=
    if entry.lastSendTimeNs = 0 then entry.command.createdTimeNs else entry.lastSendTimeNs
  { commandId := entry.command.id
    device := entry.command.device
    createdTimeNs := createdTimeNs
    deadlineNs := createdTimeNs + timeoutNs
    requiredAccepts := 1
    label := entry.command.label }

namespace AckTracker

/-! ## Operations -/

/-- An expectation that is still waiting is not replaced. -/
def expect (t : AckTracker) (expectation : AckExpectation) : Bool × AckTracker :=
  if expectation.commandId = 0 then (false, t)
  else if (t.records.lookup expectation.commandId).any (!·.state.terminal) then (false, t)
  else
    let expectation :=
      if expectation.requiredAccepts = 0 then { expectation with requiredAccepts := 1 }
      else expectation
    (true, { t with
      records := t.records.insert expectation.commandId { expectation := expectation }
      stats.registered := t.stats.registered + 1 })

/-- Take an acknowledgement to the expectation of its command. -/
def observe (t : AckTracker) (ack : CommandAck) : AckObservation × AckTracker :=
  match t.records.lookup ack.commandId with
  | none => (ack.observed .unexpected "ack did not match any expectation",
      { t with stats := t.stats.count .unexpected })
  | some record =>
      let observation := record.classify ack
      (observation, { t with
        records := t.records.insert ack.commandId (record.recordObservation observation)
        stats := t.stats.count observation.kind })

/-- The loop body of `timeouts`. -/
def timeoutRecord (nowNs : UInt64) (loop : List AckRecord × AckTracker) (id : CommandId) :
    List AckRecord × AckTracker :=
  let (timedOut, t) := loop
  match t.records.lookup id with
  | none => loop
  | some record =>
      if record.state ≠ .waiting then loop
      else if record.expectation.deadlineNs ≠ 0 ∧ nowNs ≥ record.expectation.deadlineNs then
        let observation : AckObservation := ⟨.stale, record.expectation.commandId,
          record.expectation.device, nowNs, "ack expectation timed out"⟩
        let late := record.close .timedOut observation
        (timedOut ++ [late], { t with
          records := t.records.insert id late
          stats.timedOut := t.stats.timedOut + 1 })
      else loop

/-- Time out what is waiting behind its deadline, in the order of the identifiers. -/
def timeouts (t : AckTracker) (nowNs : UInt64) : List AckRecord × AckTracker :=
  t.records.keys.foldl (timeoutRecord nowNs) ([], t)

/-- The observation carries the identifier of the call. -/
def cancel (t : AckTracker) (commandId : CommandId) (message : String) : Bool × AckTracker :=
  match t.records.lookup commandId with
  | none => (false, t)
  | some record =>
      if record.state.terminal then (false, t)
      else
        let observation : AckObservation := ⟨.stale, commandId, record.expectation.device,
          record.lastObservationTimeNs, message⟩
        (true, { t with
          records := t.records.insert commandId (record.close .cancelled observation)
          stats.cancelled := t.stats.cancelled + 1 })

/-- The loop over the terminal identifiers breaks off after as many passes as there are records too
many. -/
def compactTerminal (t : AckTracker) (keepRecent : Nat) : AckTracker :=
  if t.records.size ≤ keepRecent then t
  else { t with
    records := t.records.dropFirst (·.state.terminal) (t.records.size - keepRecent) }

/-- A tracker as new. -/
def reset (_ : AckTracker) : AckTracker := {}

end AckTracker

/-! ## Runs -/

/-- A call of one of the operations. -/
inductive AckOp where
  | expect (expectation : AckExpectation)
  | observe (ack : CommandAck)
  | timeouts (nowNs : UInt64)
  | cancel (commandId : CommandId) (message : String)
  | compactTerminal (keepRecent : Nat)
  | reset

/-- The tracker after a call. -/
def AckTracker.step (t : AckTracker) : AckOp → AckTracker
  | .expect expectation => (t.expect expectation).2
  | .observe ack => (t.observe ack).2
  | .timeouts nowNs => (t.timeouts nowNs).2
  | .cancel commandId message => (t.cancel commandId message).2
  | .compactTerminal keepRecent => t.compactTerminal keepRecent
  | .reset => t.reset

end Aethon.Control
