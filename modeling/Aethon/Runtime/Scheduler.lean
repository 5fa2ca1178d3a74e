import Aethon.Foundation.OrderedMap
import Aethon.Foundation.Runs
import Aethon.Foundation.SortedTable
import Aethon.Runtime.IngestQueue

/-!
# The runtime scheduler

`runtime::RuntimeScheduler`: a table of tasks that are queued, leased to a worker and finished,
with at most a burst of running tasks for each device. Identifiers and times are 64-bit words,
since the identifier counter and the fairness window can wrap; sizes, bursts and counters are
naturals. A loop over the table that changes records goes over the keys it started with. The
storage that `lease_many` reserves first is not modelled: a call that fails there changes nothing.
-/

namespace Aethon.Runtime

open Protocol

/-- Tasks are known by a word. -/
abbrev SchedulerTaskId := UInt64

/-- What a task is for. -/
inductive SchedulerTaskKind where
  | ingest
  | batch
  | dispatch
  | maintenance
  | control
  deriving DecidableEq, Repr

/-- What has become of a task. -/
inductive SchedulerTaskState where
  | queued
  | running
  | completed
  | cancelled
  | expired
  deriving DecidableEq, Repr

/-- Why a task was picked. -/
inductive SchedulerPickReason where
  | none
  | ready
  | deadline
  | priority
  | fairness
  deriving DecidableEq, Repr

/-- Something to be done for a device. -/
structure SchedulerTask where
  id : SchedulerTaskId := 0
  kind : SchedulerTaskKind := .maintenance
  device : DeviceId := 0
  enqueueTimeNs : UInt64 := 0
  readyTimeNs : UInt64 := 0
  deadlineNs : UInt64 := 0
  priority : IngestPriority := .normal
  cost : UInt32 := 1
  label : String := ""
  deriving DecidableEq, Repr

/-- A task that was given out. -/
structure SchedulerLease where
  task : SchedulerTask
  reason : SchedulerPickReason := .none
  leaseTimeNs : UInt64 := 0
  deriving DecidableEq, Repr

/-- How a task ended. -/
structure SchedulerCompletion where
  id : SchedulerTaskId := 0
  success : Bool := true
  completeTimeNs : UInt64 := 0
  retryReadyTimeNs : UInt64 := 0
  note : String := ""
  deriving DecidableEq, Repr

/-- What a scheduler counts. -/
structure SchedulerStats where
  enqueued : Nat := 0
  leased : Nat := 0
  completed : Nat := 0
  cancelled : Nat := 0
  expired : Nat := 0
  retried : Nat := 0
  duplicateRejections : Nat := 0
  deriving DecidableEq, Repr

/-- The limits of a scheduler. -/
structure SchedulerConfig where
  maxTasks : Nat := 4096
  perDeviceBurst : Nat := 8
  fairnessWindowNs : UInt64 := 1000000
  rejectDuplicateLabels : Bool := true
  deriving DecidableEq, Repr

/-- `RuntimeScheduler::TaskRecord`. -/
structure TaskRecord where
  task : SchedulerTask
  state : SchedulerTaskState := .queued
  attempts : UInt32 := 0
  lastLeaseTimeNs : UInt64 := 0
  notes : List String := []
  deriving DecidableEq, Repr

/-- The tasks by their identifiers, and how many of each device are running. -/
structure RuntimeScheduler where
  config : SchedulerConfig := {}
  tasks : SortedTable SchedulerTaskId TaskRecord := ∅
  runningByDevice : Std.ExtTreeMap DeviceId Nat := ∅
  stats : SchedulerStats := {}
  nextId : SchedulerTaskId := 1

/-! ## Comparisons and selection -/

/-- `is_terminal`. -/
def SchedulerTaskState.isTerminal (state : SchedulerTaskState) : Bool :=
  state = .completed || state = .cancelled || state = .expired

/-- A deadline of zero is none. -/
def SchedulerTask.hasDeadline (task : SchedulerTask) : Bool :=
  task.deadlineNs ≠ 0

/-- Note a message behind those of a record. -/
def TaskRecord.note (record : TaskRecord) (message : String) : TaskRecord :=
  { record with notes := record.notes ++ [message] }

/-- The condition of `duplicate_label` on one record. -/
def TaskRecord.clashes (record : TaskRecord) (task : SchedulerTask) : Bool :=
  !record.state.isTerminal && record.task.device = task.device && record.task.kind = task.kind
    && record.task.label = task.label

/-- The comparison of `select`: whether the candidate replaces the best record so far. -/
def TaskRecord.replaces (candidate best : TaskRecord) (horizon : UInt64) : Bool :=
  let lhs := candidate.task
  let rhs := best.task
  let lhsDue := lhs.hasDeadline && lhs.deadlineNs ≤ horizon
  let rhsDue := rhs.hasDeadline && rhs.deadlineNs ≤ horizon
  if lhsDue ≠ rhsDue then lhsDue
  else if lhs.hasDeadline ∧ rhs.hasDeadline ∧ lhs.deadlineNs ≠ rhs.deadlineNs then
    lhs.deadlineNs < rhs.deadlineNs
  else if lhs.priority.rank ≠ rhs.priority.rank then lhs.priority.rank > rhs.priority.rank
  else if candidate.attempts ≠ best.attempts then candidate.attempts < best.attempts
  else lhs.enqueueTimeNs < rhs.enqueueTimeNs

/-- The end of the loop body of `select`, for an entry it considers. -/
def better (horizon : UInt64) (best : Option (SchedulerTaskId × TaskRecord))
    (entry : SchedulerTaskId × TaskRecord) : Option (SchedulerTaskId × TaskRecord) :=
  match best with
  | none => some entry
  | some held => if entry.2.replaces held.2 horizon then some entry else best

/-- `release_device`, on `running_by_device_`. -/
def releaseDevice (runningByDevice : Std.ExtTreeMap DeviceId Nat) (device : DeviceId) :
    Std.ExtTreeMap DeviceId Nat :=
  match runningByDevice[device]? with
  | none => runningByDevice
  | some running =>
      if running ≤ 1 then runningByDevice.erase device
      else runningByDevice.insert device (running - 1)

namespace RuntimeScheduler

/-- A task with the label is there and not terminal. -/
def duplicateLabel (s : RuntimeScheduler) (task : SchedulerTask) : Bool :=
  if task.label = "" then false else s.tasks.values.any fun record => record.clashes task

/-- A device may run one more task. -/
def deviceBurstAvailable (s : RuntimeScheduler) (device : DeviceId) : Bool :=
  match s.runningByDevice[device]? with
  | none => true
  | some running => running < s.config.perDeviceBurst

/-- Whether `select` considers a record at all. -/
def eligible (s : RuntimeScheduler) (nowNs : UInt64) (record : TaskRecord) : Bool :=
  record.state = .queued && record.task.readyTimeNs ≤ nowNs
    && s.deviceBurstAvailable record.task.device

/-- `select`, with `none` for the end of the table: the loop skips what it does not consider. -/
def select (s : RuntimeScheduler) (nowNs : UInt64) : Option (SchedulerTaskId × TaskRecord) :=
  s.tasks.entries.foldl
    (fun best entry =>
      if !s.eligible nowNs entry.2 then best
      else better (nowNs + s.config.fairnessWindowNs) best entry)
    none

/-- Why a task is picked, by the first reason that applies. -/
def pickReason (s : RuntimeScheduler) (record : TaskRecord) (nowNs : UInt64) :
    SchedulerPickReason :=
  if record.task.deadlineNs ≠ 0
      ∧ record.task.deadlineNs ≤ nowNs + s.config.fairnessWindowNs then .deadline
  else if record.task.priority.rank ≥ IngestPriority.high.rank then .priority
  else if record.attempts > 0 then .fairness
  else .ready

/-! ## Operations -/

/-- The identifier that a task gets, and the counter behind it. -/
def assignId (s : RuntimeScheduler) (task : SchedulerTask) : SchedulerTaskId × SchedulerTaskId :=
  if task.id = 0 then (s.nextId, s.nextId + 1) else (task.id, max s.nextId (task.id + 1))

/-- `enqueue`; a throw leaves the scheduler as it is. -/
def enqueue (s : RuntimeScheduler) (task : SchedulerTask) :
    Except String SchedulerTaskId × RuntimeScheduler :=
  if s.tasks.size ≥ s.config.maxTasks then (.error "runtime scheduler capacity reached", s)
  else if s.config.rejectDuplicateLabels && s.duplicateLabel task then
    (.ok 0, { s with stats.duplicateRejections := s.stats.duplicateRejections + 1 })
  else if task.id ≠ 0 ∧ (s.tasks.lookup task.id).isSome then
    (.ok 0, { s with stats.duplicateRejections := s.stats.duplicateRejections + 1 })
  else
    let (id, nextId) := s.assignId task
    let record := TaskRecord.note { task := { task with id := id } } "task enqueued"
    (.ok id, { s with
      tasks := s.tasks.insert id record
      stats.enqueued := s.stats.enqueued + 1
      nextId := nextId })

/-- `record_lease` and the counter behind it, for the record under the identifier. -/
def recordLease (s : RuntimeScheduler) (id : SchedulerTaskId) (record : TaskRecord)
    (nowNs : UInt64) : RuntimeScheduler :=
  let leased : TaskRecord := { record with
    state := .running
    lastLeaseTimeNs := nowNs
    attempts := record.attempts + 1 }
  { s with
    tasks := s.tasks.insert id (leased.note "task leased")
    runningByDevice := s.runningByDevice.insert record.task.device
      (s.runningByDevice.getD record.task.device 0 + 1)
    stats.leased := s.stats.leased + 1 }

/-- Lease the task that is selected. -/
def leaseNext (s : RuntimeScheduler) (nowNs : UInt64) : Option SchedulerLease × RuntimeScheduler :=
  match s.select nowNs with
  | none => (none, s)
  | some (id, record) =>
      (some ⟨record.task, s.pickReason record nowNs, nowNs⟩, s.recordLease id record nowNs)

/-- `lease_many` behind its `reserve(max_count)`, which throws where no vector is that long. -/
def leaseMany (s : RuntimeScheduler) (nowNs : UInt64) :
    Nat → List SchedulerLease × RuntimeScheduler
  | 0 => ([], s)
  | count + 1 =>
      match s.leaseNext nowNs with
      | (none, s) => ([], s)
      | (some lease, s) =>
          let (leases, s) := s.leaseMany nowNs count
          (lease :: leases, s)

/-- Complete a running task, or queue it again if it failed. -/
def complete (s : RuntimeScheduler) (completion : SchedulerCompletion) : Bool × RuntimeScheduler :=
  match s.tasks.lookup completion.id with
  | none => (false, s)
  | some record =>
      if record.state ≠ .running then (false, s)
      else
        let runningByDevice := releaseDevice s.runningByDevice record.task.device
        if completion.success then
          let completed : TaskRecord := { record with state := .completed }
          (true, { s with
            runningByDevice := runningByDevice
            tasks := s.tasks.insert completion.id (completed.note
              (if completion.note = "" then "task completed" else completion.note))
            stats.completed := s.stats.completed + 1 })
        else
          let requeued : TaskRecord := { record with
            state := .queued
            task.readyTimeNs := completion.retryReadyTimeNs }
          (true, { s with
            runningByDevice := runningByDevice
            tasks := s.tasks.insert completion.id (requeued.note
              (if completion.note = "" then "task rescheduled after failure" else completion.note))
            stats.retried := s.stats.retried + 1 })

/-- Cancel a task that is not terminal. -/
def cancel (s : RuntimeScheduler) (id : SchedulerTaskId) (noteText : String) :
    Bool × RuntimeScheduler :=
  match s.tasks.lookup id with
  | none => (false, s)
  | some record =>
      if record.state.isTerminal then (false, s)
      else
        let runningByDevice :=
          if record.state = .running then releaseDevice s.runningByDevice record.task.device
          else s.runningByDevice
        let cancelled : TaskRecord := { record with state := .cancelled }
        (true, { s with
          runningByDevice := runningByDevice
          tasks := s.tasks.insert id (cancelled.note noteText)
          stats.cancelled := s.stats.cancelled + 1 })

/-- The loop body of `expire`. -/
def expireTask (nowNs : UInt64) (loop : List SchedulerTask × RuntimeScheduler)
    (id : SchedulerTaskId) : List SchedulerTask × RuntimeScheduler :=
  let (expired, s) := loop
  match s.tasks.lookup id with
  | none => (expired, s)
  | some record =>
      if record.state ≠ .queued then (expired, s)
      else if record.task.deadlineNs ≠ 0 ∧ nowNs > record.task.deadlineNs then
        let late : TaskRecord := { record with state := .expired }
        (expired ++ [record.task], { s with
          tasks := s.tasks.insert id (late.note "task expired before lease")
          stats.expired := s.stats.expired + 1 })
      else (expired, s)

/-- Expire the queued tasks that are past their deadlines, in the order of the identifiers. -/
def expire (s : RuntimeScheduler) (nowNs : UInt64) : List SchedulerTask × RuntimeScheduler :=
  s.tasks.keys.foldl (expireTask nowNs) ([], s)

/-- Forget the tasks that are terminal. -/
def clearCompleted (s : RuntimeScheduler) : RuntimeScheduler :=
  { s with tasks := s.tasks.filter fun _ record => !record.state.isTerminal }

end RuntimeScheduler

/-! ## Runs -/

/-- A call of one of the operations. -/
inductive SchedulerOp where
  | enqueue (task : SchedulerTask)
  | leaseNext (nowNs : UInt64)
  | leaseMany (nowNs : UInt64) (maxCount : Nat)
  | complete (completion : SchedulerCompletion)
  | cancel (id : SchedulerTaskId) (note : String)
  | expire (nowNs : UInt64)
  | clearCompleted

/-- The scheduler after a call. -/
def RuntimeScheduler.step (s : RuntimeScheduler) : SchedulerOp → RuntimeScheduler
  | .enqueue task => (s.enqueue task).2
  | .leaseNext nowNs => (s.leaseNext nowNs).2
  | .leaseMany nowNs maxCount => (s.leaseMany nowNs maxCount).2
  | .complete completion => (s.complete completion).2
  | .cancel id note => (s.cancel id note).2
  | .expire nowNs => (s.expire nowNs).2
  | .clearCompleted => s.clearCompleted

end Aethon.Runtime
