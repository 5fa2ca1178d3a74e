import Aethon.Foundation.Runs
import Aethon.Foundation.SortedTable
import Aethon.Protocol.Types

/-!
# The command journal

`control::CommandJournal`: a table of control commands that are dispatched to their devices, sent
again when no acknowledgement comes, and kept until they are compacted. Identifiers, times and
attempts are words of the source's widths; sizes and counters are naturals. The floating-point
product of the retry delay is a parameter of the policy. A loop over the table that changes
entries goes over the keys it started with.
-/

namespace Aethon.Control

open Protocol

/-- Commands are known by a word. -/
abbrev CommandId := UInt64

/-- The kinds of commands. -/
inductive CommandKind where
  | configure
  | startStream
  | stopStream
  | calibrate
  | reset
  | custom
  deriving DecidableEq, Repr

/-- The value of the enumerator. -/
def CommandKind.raw : CommandKind → UInt8
  | configure => 0
  | startStream => 1
  | stopStream => 2
  | calibrate => 3
  | reset => 4
  | custom => 5

/-- What has become of a command. -/
inductive CommandState where
  | pending
  | sent
  | acknowledged
  | failed
  | expired
  | cancelled
  deriving DecidableEq, Repr

/-- What a device answers to a command. -/
inductive AckStatus where
  | accepted
  | rejected
  | busy
  | malformed
  | unknownCommand
  deriving DecidableEq, Repr

/-- `multiply` is the product of a delay and the policy's floating-point multiplier as
`saturating_multiply` converts it, at least one and at most the largest delay. -/
structure RetryPolicy where
  maxAttempts : UInt32 := 3
  initialDelayNs : UInt64 := 1000000
  maxDelayNs : UInt64 := 60000000000
  multiply : UInt64 → UInt64 := fun delay => min (max 1 (2 * delay)) 60000000000

/-- A command to a device. -/
structure ControlCommand where
  id : CommandId := 0
  kind : CommandKind := .custom
  device : DeviceId := 0
  createdTimeNs : UInt64 := 0
  expiresTimeNs : UInt64 := 0
  payload : Bytes := []
  label : String := ""
  deriving DecidableEq, Repr

/-- The answer of a device to a command. -/
structure CommandAck where
  commandId : CommandId := 0
  device : DeviceId := 0
  status : AckStatus := .accepted
  timeNs : UInt64 := 0
  message : String := ""
  deriving DecidableEq, Repr

/-- A command with its state, its attempts and what was noted about it. -/
structure JournalEntry where
  command : ControlCommand
  state : CommandState := .pending
  attempts : UInt32 := 0
  lastSendTimeNs : UInt64 := 0
  nextAttemptTimeNs : UInt64 := 0
  ack : Option CommandAck := none
  notes : List String := []
  deriving DecidableEq, Repr

/-- Whether a command was appended, and why not. -/
structure JournalAppendResult where
  appended : Bool := false
  id : CommandId := 0
  reason : String
  deriving DecidableEq, Repr

/-- A command that is to be sent now. -/
structure JournalDispatch where
  id : CommandId := 0
  packet : Packet
  attempt : UInt32 := 0
  nextAttemptTimeNs : UInt64 := 0
  deriving DecidableEq, Repr

/-- Whether an acknowledgement met an entry, and the state that it leaves. -/
structure JournalAckResult where
  matched : Bool := false
  state : CommandState := .pending
  reason : String
  deriving DecidableEq, Repr

/-- What a journal counts. -/
structure CommandJournalStats where
  appended : Nat := 0
  dispatched : Nat := 0
  acknowledged : Nat := 0
  failed : Nat := 0
  expired : Nat := 0
  cancelled : Nat := 0
  duplicateRejections : Nat := 0
  deriving DecidableEq, Repr

/-- The limits of a journal. -/
structure CommandJournalConfig where
  maxEntries : Nat := 4096
  defaultTtlNs : UInt64 := 30000000000
  controllerDevice : DeviceId := 0
  retry : RetryPolicy := {}

/-- The entries by their identifiers, and the next identifier. -/
structure CommandJournal where
  config : CommandJournalConfig := {}
  entries : SortedTable CommandId JournalEntry := ∅
  stats : CommandJournalStats := {}
  nextId : CommandId := 1

/-! ## Entries -/

/-- `terminal`. -/
def CommandState.terminal (state : CommandState) : Bool :=
  state = .acknowledged || state = .failed || state = .expired || state = .cancelled

/-- Two commands ask for the same thing. -/
def sameActiveIntent (lhs rhs : ControlCommand) : Bool :=
  lhs.device = rhs.device && lhs.kind = rhs.kind && lhs.label = rhs.label
    && lhs.payload = rhs.payload

/-- Note a message behind those of an entry. -/
def JournalEntry.note (entry : JournalEntry) (message : String) : JournalEntry :=
  { entry with notes := entry.notes ++ [message] }

/-- The expiry test of `due` and `expire`. -/
def JournalEntry.expiresBy (entry : JournalEntry) (nowNs : UInt64) : Bool :=
  entry.command.expiresTimeNs ≠ 0 && nowNs ≥ entry.command.expiresTimeNs

/-- The identifier in big-endian order, the kind and the body. -/
def encodeCommandPayload (id : CommandId) (kind : CommandKind) (body : Bytes) : Bytes :=
  ([56, 48, 40, 32, 24, 16, 8, 0] : List UInt64).map (fun shift => (id >>> shift &&& 0xff).toUInt8)
    ++ [kind.raw] ++ body

/-- One step of the backoff, kept below the longest delay. -/
def RetryPolicy.saturatingMultiply (retry : RetryPolicy) (delay : UInt64) : UInt64 :=
  if delay ≥ retry.maxDelayNs then retry.maxDelayNs else retry.multiply delay

namespace CommandJournal

/-- The delay behind a number of attempts. -/
def retryDelay (j : CommandJournal) (attempts : UInt32) : UInt64 :=
  let retry := j.config.retry
  if attempts = 0 then retry.initialDelayNs
  else min (Nat.repeat retry.saturatingMultiply (attempts.toNat - 1) retry.initialDelayNs)
    retry.maxDelayNs

/-- The packet that carries a command. -/
def makePacket (j : CommandJournal) (entry : JournalEntry) : Packet where
  kind := .control
  device := entry.command.device
  timestampNs := entry.lastSendTimeNs
  sequence := (entry.command.id &&& 0xffffffff).toUInt32
  payload := encodeCommandPayload entry.command.id entry.command.kind entry.command.payload
  route := some {
    collector := (j.config.controllerDevice &&& 0xffff).toUInt16
    priority := 255 }

/-- A command that is not terminal asks for the same thing already. -/
def duplicateActiveCommand (j : CommandJournal) (command : ControlCommand) : Bool :=
  j.entries.values.any fun entry =>
    !entry.state.terminal && sameActiveIntent entry.command command

/-! ## Operations -/

/-- The identifier that a command gets, and the counter behind it. -/
def assignId (j : CommandJournal) (command : ControlCommand) : CommandId × CommandId :=
  if command.id = 0 then (j.nextId, j.nextId + 1)
  else (command.id, max j.nextId (command.id + 1))

/-- Append a command with a new identifier, unless the journal is full or has it already. -/
def append (j : CommandJournal) (command : ControlCommand) :
    JournalAppendResult × CommandJournal :=
  if j.entries.size ≥ j.config.maxEntries then
    (⟨false, 0, "command journal capacity reached"⟩, j)
  else if j.duplicateActiveCommand command then
    (⟨false, 0, "duplicate active command"⟩,
      { j with stats.duplicateRejections := j.stats.duplicateRejections + 1 })
  else if command.id ≠ 0 ∧ (j.entries.lookup command.id).isSome then
    (⟨false, 0, "duplicate command id"⟩,
      { j with stats.duplicateRejections := j.stats.duplicateRejections + 1 })
  else
    let (id, nextId) := j.assignId command
    let expiresTimeNs :=
      if command.expiresTimeNs = 0 then command.createdTimeNs + j.config.defaultTtlNs
      else command.expiresTimeNs
    let entry : JournalEntry := {
      command := { command with id := id, expiresTimeNs := expiresTimeNs }
      nextAttemptTimeNs := command.createdTimeNs }
    (⟨true, id, "appended"⟩, { j with
      entries := j.entries.insert id (entry.note "command appended")
      stats.appended := j.stats.appended + 1
      nextId := nextId })

/-- The entry as `due` sends it at a time. -/
def send (j : CommandJournal) (entry : JournalEntry) (nowNs : UInt64) : JournalEntry :=
  let attempts := entry.attempts + 1
  JournalEntry.note { entry with
    attempts := attempts
    state := .sent
    lastSendTimeNs := nowNs
    nextAttemptTimeNs := nowNs + j.retryDelay attempts } "command dispatched"

/-- The loop body of `due`; once `max_count` commands are dispatched the passes do nothing, where
the code breaks off. -/
def dueEntry (nowNs : UInt64) (maxCount : Nat) (loop : List JournalDispatch × CommandJournal)
    (id : CommandId) : List JournalDispatch × CommandJournal :=
  let (dispatches, j) := loop
  if dispatches.length ≥ maxCount then loop
  else match j.entries.lookup id with
    | none => loop
    | some entry =>
        if entry.state.terminal then loop
        else if entry.expiresBy nowNs then
          let expired : JournalEntry := { entry with state := .expired }
          (dispatches, { j with
            entries := j.entries.insert id (expired.note "command expired before dispatch")
            stats.expired := j.stats.expired + 1 })
        else if entry.nextAttemptTimeNs > nowNs then loop
        else if entry.attempts ≥ j.config.retry.maxAttempts then
          let failed : JournalEntry := { entry with state := .failed }
          (dispatches, { j with
            entries := j.entries.insert id (failed.note "retry attempts exhausted")
            stats.failed := j.stats.failed + 1 })
        else
          let sent := j.send entry nowNs
          (dispatches ++ [⟨id, j.makePacket sent, sent.attempts, sent.nextAttemptTimeNs⟩],
            { j with
              entries := j.entries.insert id sent
              stats.dispatched := j.stats.dispatched + 1 })

/-- The commands that are due, in the order of their identifiers. -/
def due (j : CommandJournal) (nowNs : UInt64) (maxCount : Nat) :
    List JournalDispatch × CommandJournal :=
  j.entries.keys.foldl (dueEntry nowNs maxCount) ([], j)

/-- Take an acknowledgement to the entry of its command. -/
def acknowledge (j : CommandJournal) (ack : CommandAck) : JournalAckResult × CommandJournal :=
  match j.entries.lookup ack.commandId with
  | none => (⟨false, .pending, "ack did not match a journal entry"⟩, j)
  | some entry =>
      if entry.command.device ≠ ack.device then
        (⟨false, entry.state, "ack device did not match command device"⟩, j)
      else if entry.state.terminal then
        (⟨true, entry.state, "ack matched a terminal command"⟩, j)
      else match ack.status with
        | .accepted =>
            let done : JournalEntry := { entry with ack := some ack, state := .acknowledged }
            (⟨true, .acknowledged, "acknowledged"⟩, { j with
              entries := j.entries.insert ack.commandId (done.note "command acknowledged")
              stats.acknowledged := j.stats.acknowledged + 1 })
        | .busy =>
            let rescheduled : JournalEntry := { entry with
              ack := some ack
              state := .pending
              nextAttemptTimeNs := ack.timeNs + j.retryDelay (entry.attempts + 1) }
            (⟨true, .pending, "device busy"⟩, { j with
              entries := j.entries.insert ack.commandId
                (rescheduled.note "device busy; command rescheduled") })
        | .rejected | .malformed | .unknownCommand =>
            let failed : JournalEntry := { entry with ack := some ack, state := .failed }
            (⟨true, .failed, "command failed"⟩, { j with
              entries := j.entries.insert ack.commandId
                (failed.note "command failed by acknowledgement")
              stats.failed := j.stats.failed + 1 })

/-- Cancel a command that is not terminal. -/
def cancel (j : CommandJournal) (id : CommandId) (reason : String) : Bool × CommandJournal :=
  match j.entries.lookup id with
  | none => (false, j)
  | some entry =>
      if entry.state.terminal then (false, j)
      else
        let cancelled : JournalEntry := { entry with state := .cancelled }
        (true, { j with
          entries := j.entries.insert id (cancelled.note reason)
          stats.cancelled := j.stats.cancelled + 1 })

/-- The loop body of `expire`. -/
def expireEntry (nowNs : UInt64) (loop : List JournalEntry × CommandJournal) (id : CommandId) :
    List JournalEntry × CommandJournal :=
  let (expired, j) := loop
  match j.entries.lookup id with
  | none => loop
  | some entry =>
      if entry.state.terminal then loop
      else if entry.expiresBy nowNs then
        let late := JournalEntry.note { entry with state := .expired } "command expired"
        (expired ++ [late], { j with
          entries := j.entries.insert id late
          stats.expired := j.stats.expired + 1 })
      else loop

/-- Expire what is past its time, in the order of the identifiers. -/
def expire (j : CommandJournal) (nowNs : UInt64) : List JournalEntry × CommandJournal :=
  j.entries.keys.foldl (expireEntry nowNs) ([], j)

/-- The loop over the terminal identifiers breaks off after as many passes as there are entries too
many. -/
def compactCompleted (j : CommandJournal) (keepRecent : Nat) : CommandJournal :=
  if j.entries.size ≤ keepRecent then j
  else { j with
    entries := j.entries.dropFirst (·.state.terminal) (j.entries.size - keepRecent) }

end CommandJournal

/-! ## Runs -/

/-- A call of one of the operations. -/
inductive JournalOp where
  | append (command : ControlCommand)
  | due (nowNs : UInt64) (maxCount : Nat)
  | acknowledge (ack : CommandAck)
  | cancel (id : CommandId) (reason : String)
  | expire (nowNs : UInt64)
  | compactCompleted (keepRecent : Nat)

/-- The journal after a call. -/
def CommandJournal.step (j : CommandJournal) : JournalOp → CommandJournal
  | .append command => (j.append command).2
  | .due nowNs maxCount => (j.due nowNs maxCount).2
  | .acknowledge ack => (j.acknowledge ack).2
  | .cancel id reason => (j.cancel id reason).2
  | .expire nowNs => (j.expire nowNs).2
  | .compactCompleted keepRecent => j.compactCompleted keepRecent

end Aethon.Control
