import Aethon.Foundation.Tournament
import Aethon.Runtime.Scheduler

/-!
# What the scheduler operations can do

Besides adding and clearing tasks, every operation moves single tasks from one state to another.
`TaskEvent` names the six moves the code makes and what each does to the counters and to the
count of its device. `lease_next_cases` to `expire_task_cases` say which moves an operation makes,
and `step_rule` is the rule that follows for a property of the scheduler: it is enough that moves
keep it, besides what `enqueue_cases` and a clearing do.
-/

namespace Aethon.Runtime

open Protocol OrderedMap Tournament

/-- The moves of a task between states. -/
inductive TaskEvent where
  | leased
  | completed
  | retried
  | cancelledQueued
  | cancelledRunning
  | expired
  deriving DecidableEq, Repr

namespace TaskEvent

/-- The state that a task leaves. -/
def before : TaskEvent → SchedulerTaskState
  | leased | cancelledQueued | expired => .queued
  | completed | retried | cancelledRunning => .running

/-- The state that a task enters. -/
def after : TaskEvent → SchedulerTaskState
  | leased => .running
  | completed => .completed
  | retried => .queued
  | cancelledQueued | cancelledRunning => .cancelled
  | expired => .expired

/-- The counters after the move. -/
def count (stats : SchedulerStats) : TaskEvent → SchedulerStats
  | leased => { stats with leased := stats.leased + 1 }
  | completed => { stats with completed := stats.completed + 1 }
  | retried => { stats with retried := stats.retried + 1 }
  | cancelledQueued | cancelledRunning => { stats with cancelled := stats.cancelled + 1 }
  | expired => { stats with expired := stats.expired + 1 }

/-- The counts of the devices after a move of a task of the device. -/
def devices (s : RuntimeScheduler) (device : DeviceId) : TaskEvent → Std.ExtTreeMap DeviceId Nat
  | leased => s.runningByDevice.insert device (s.runningByDevice.getD device 0 + 1)
  | completed | retried | cancelledRunning => releaseDevice s.runningByDevice device
  | cancelledQueued | expired => s.runningByDevice

end TaskEvent

/-- The fields that duplicates are told by. -/
def SchedulerTask.SameIntent (task other : SchedulerTask) : Prop :=
  task.device = other.device ∧ task.kind = other.kind ∧ task.label = other.label

/-- `Moved event s s' id` says that `s'` is `s` with the task under the identifier moved. -/
structure Moved (event : TaskEvent) (s s' : RuntimeScheduler) (id : SchedulerTaskId) : Prop where
  tasks : ∃ record record', s.tasks.lookup id = some record ∧
    s'.tasks = s.tasks.insert id record' ∧ record.state = event.before ∧
    record'.state = event.after ∧ record'.task.SameIntent record.task ∧
    s'.runningByDevice = event.devices s record.task.device ∧
    (event = .leased → s.deviceBurstAvailable record.task.device)
  config : s'.config = s.config
  stats : s'.stats = event.count s.stats
  nextId : s'.nextId = s.nextId

/-- A task is moved without a lease when it is put back in a new state. -/
theorem moved_of_insert {event : TaskEvent} {s s' : RuntimeScheduler} {id : SchedulerTaskId}
    {record record' : TaskRecord} (hevent : event ≠ .leased)
    (hlookup : s.tasks.lookup id = some record) (hbefore : record.state = event.before)
    (htasks : s'.tasks = s.tasks.insert id record') (hafter : record'.state = event.after)
    (hintent : record'.task.SameIntent record.task)
    (hdevices : s'.runningByDevice = event.devices s record.task.device)
    (hconfig : s'.config = s.config) (hstats : s'.stats = event.count s.stats)
    (hnextId : s'.nextId = s.nextId) : Moved event s s' id :=
  ⟨⟨record, record', hlookup, htasks, hbefore, hafter, hintent, hdevices,
    fun hleased => absurd hleased hevent⟩, hconfig, hstats, hnextId⟩

namespace RuntimeScheduler

/-! ## Leases -/

/-- The selected entry is the champion of the eligible ones. -/
theorem select_eq_champion (s : RuntimeScheduler) (nowNs : UInt64) :
    s.select nowNs =
      champion (fun entry other => entry.2.replaces other.2 (nowNs + s.config.fairnessWindowNs))
        (s.tasks.entries.filter fun entry => s.eligible nowNs entry.2) := by
  rw [champion, List.foldl_filter, select]
  congr 1
  funext best entry
  cases s.eligible nowNs entry.2 <;> cases best <;> rfl

/-- A selected record is in the table and eligible. -/
theorem select_some {s : RuntimeScheduler} {nowNs : UInt64} {id : SchedulerTaskId}
    {record : TaskRecord} (h : s.select nowNs = some (id, record)) :
    s.tasks.lookup id = some record ∧ s.eligible nowNs record = true := by
  rw [select_eq_champion] at h
  obtain ⟨hmem, heligible⟩ := List.mem_filter.mp (champion_mem h)
  exact ⟨SortedTable.mem_entries_iff.mp hmem, heligible⟩

/-- A lease moves one task, or changes nothing. -/
theorem lease_next_cases (s : RuntimeScheduler) (nowNs : UInt64) :
    (s.leaseNext nowNs).2 = s ∨ ∃ id, Moved .leased s (s.leaseNext nowNs).2 id := by
  unfold leaseNext
  cases h : s.select nowNs with
  | none => exact .inl rfl
  | some entry =>
      obtain ⟨id, record⟩ := entry
      obtain ⟨hlookup, heligible⟩ := select_some h
      simp only [eligible, Bool.and_eq_true, decide_eq_true_eq] at heligible
      exact .inr ⟨id, ⟨⟨record, _, hlookup, rfl, heligible.1.1, rfl, ⟨rfl, rfl, rfl⟩, rfl,
        fun _ => heligible.2⟩, rfl, rfl, rfl⟩⟩

/-- What every lease keeps, any number of leases keeps. -/
theorem lease_many_invariant {inv : RuntimeScheduler → Prop} {nowNs : UInt64}
    (hlease : ∀ s, inv s → inv (s.leaseNext nowNs).2) (maxCount : Nat) {s : RuntimeScheduler}
    (h : inv s) : inv (s.leaseMany nowNs maxCount).2 := by
  induction maxCount generalizing s with
  | zero => exact h
  | succ maxCount ih =>
      have hnext := hlease s h
      unfold leaseMany
      split
      · rename_i hlast
        rwa [hlast] at hnext
      · rename_i lease s' hsome
        rw [hsome] at hnext
        exact ih hnext

/-! ## Completions, cancellations and expiry -/

/-- A completion ends or repeats its task, or changes nothing. -/
theorem complete_cases (s : RuntimeScheduler) (completion : SchedulerCompletion) :
    (s.complete completion).2 = s ∨
      Moved .completed s (s.complete completion).2 completion.id ∨
      Moved .retried s (s.complete completion).2 completion.id := by
  unfold complete
  split
  · exact .inl rfl
  · rename_i record hlookup
    by_cases hrunning : record.state = .running
    · simp only [hrunning, ne_eq, not_true_eq_false, if_false]
      split
      · exact .inr (.inl (moved_of_insert (by decide) hlookup hrunning rfl rfl ⟨rfl, rfl, rfl⟩ rfl
          rfl rfl rfl))
      · exact .inr (.inr (moved_of_insert (by decide) hlookup hrunning rfl rfl ⟨rfl, rfl, rfl⟩ rfl
          rfl rfl rfl))
    · simp [hrunning]

/-- Whether the task under the identifier is running. -/
def isRunning (s : RuntimeScheduler) (id : SchedulerTaskId) : Bool :=
  (s.tasks.lookup id).any fun record => record.state = .running

/-- A cancellation ends its task, waiting or running, or changes nothing. -/
theorem cancel_cases (s : RuntimeScheduler) (id : SchedulerTaskId) (note : String) :
    ((s.cancel id note).2 = s ∧ s.isRunning id = false) ∨
      (Moved .cancelledQueued s (s.cancel id note).2 id ∧ s.isRunning id = false) ∨
      (Moved .cancelledRunning s (s.cancel id note).2 id ∧ s.isRunning id = true) := by
  unfold cancel isRunning
  split
  · rename_i hlookup
    simp [hlookup]
  · rename_i record hlookup
    rw [hlookup, Option.any_some]
    cases hstate : record.state with
    | queued =>
        exact .inr (.inl ⟨moved_of_insert (by decide) hlookup hstate rfl rfl ⟨rfl, rfl, rfl⟩ rfl
          rfl rfl rfl, rfl⟩)
    | running =>
        exact .inr (.inr ⟨moved_of_insert (by decide) hlookup hstate rfl rfl ⟨rfl, rfl, rfl⟩ rfl
          rfl rfl rfl, rfl⟩)
    | completed | cancelled | expired =>
        exact .inl ⟨rfl, rfl⟩

/-- The body of the loop expires a task, or changes nothing. -/
theorem expire_task_cases (nowNs : UInt64) (expired : List SchedulerTask) (s : RuntimeScheduler)
    (id : SchedulerTaskId) :
    (expireTask nowNs (expired, s) id).2 = s ∨
      Moved .expired s (expireTask nowNs (expired, s) id).2 id := by
  unfold expireTask
  simp only
  split
  · exact .inl rfl
  · rename_i record hlookup
    split_ifs with hstate hdue
    · exact .inl rfl
    · exact .inr (moved_of_insert (by decide) hlookup (not_not.mp hstate) rfl rfl ⟨rfl, rfl, rfl⟩
        rfl rfl rfl rfl)
    · exact .inl rfl

/-- What the loop body keeps, `expire` keeps. -/
theorem expire_invariant (inv : RuntimeScheduler → Prop) {nowNs : UInt64}
    (hbody : ∀ expired s id, inv s → inv (expireTask nowNs (expired, s) id).2)
    {s : RuntimeScheduler} (h : inv s) : inv (s.expire nowNs).2 :=
  @Runs.run_invariant _ _ (expireTask nowNs) (fun loop => inv loop.2)
    (fun loop id hloop => hbody loop.1 loop.2 id hloop) ([], s) h s.tasks.keys

/-! ## Additions -/

/-- An accepted task gets its own identifier or the next one, and the counter moves past it. -/
theorem enqueue_cases (s : RuntimeScheduler) (task : SchedulerTask) :
    (s.enqueue task).2.tasks = s.tasks ∧ (s.enqueue task).2.runningByDevice = s.runningByDevice ∧
        (s.enqueue task).2.config = s.config ∧ (s.enqueue task).2.nextId = s.nextId ∧
        (∃ n, (s.enqueue task).2.stats = { s.stats with duplicateRejections := n }) ∨
      ∃ id nextId record, (s.enqueue task).2 = { s with
          tasks := s.tasks.insert id record
          stats.enqueued := s.stats.enqueued + 1
          nextId := nextId } ∧
        record.state = .queued ∧ record.task.SameIntent task ∧ s.tasks.size < s.config.maxTasks ∧
        (s.config.rejectDuplicateLabels → s.duplicateLabel task = false) ∧
        (id = s.nextId ∧ nextId = s.nextId + 1 ∨
          s.tasks.lookup id = none ∧ nextId = max s.nextId (id + 1)) := by
  unfold enqueue
  split_ifs with hfull hduplicate hknown
  · exact .inl ⟨rfl, rfl, rfl, rfl, _, rfl⟩
  · exact .inl ⟨rfl, rfl, rfl, rfl, _, rfl⟩
  · exact .inl ⟨rfl, rfl, rfl, rfl, _, rfl⟩
  · refine .inr ⟨_, _, _, rfl, rfl, ⟨rfl, rfl, rfl⟩, by omega, by simpa using hduplicate, ?_⟩
    unfold assignId
    split_ifs with hzero
    · exact .inl ⟨rfl, rfl⟩
    · exact .inr ⟨by simpa [hzero] using hknown, rfl⟩

/-! ## Calls -/

/-- Whether a call cancels a running task. -/
def cancelsRunning (s : RuntimeScheduler) : SchedulerOp → Bool
  | .cancel id _ => s.isRunning id
  | _ => false

/-- What holds before a call and is kept by every move holds after the call, whatever call it is.
The property may depend on how many running tasks were cancelled. -/
theorem step_rule (inv : Nat → RuntimeScheduler → Prop)
    (hmoved : ∀ n event s s' id, inv n s → Moved event s s' id →
      inv (if event = .cancelledRunning then n + 1 else n) s')
    {n : Nat} {s : RuntimeScheduler} {op : SchedulerOp} (h : inv n s)
    (henqueue : ∀ task, op = .enqueue task → inv n (s.enqueue task).2)
    (hclear : op = .clearCompleted → inv n s.clearCompleted) :
    inv (n + if s.cancelsRunning op then 1 else 0) (s.step op) := by
  have hlease (nowNs : UInt64) (s : RuntimeScheduler) (h : inv n s) :
      inv n (s.leaseNext nowNs).2 := by
    rcases s.lease_next_cases nowNs with hsame | ⟨id, hleased⟩
    · rwa [hsame]
    · exact hmoved n .leased s _ id h hleased
  cases op with
  | enqueue task => exact henqueue task rfl
  | leaseNext nowNs => exact hlease nowNs s h
  | leaseMany nowNs maxCount => exact lease_many_invariant (hlease nowNs) maxCount h
  | complete completion =>
      show inv n (s.complete completion).2
      rcases s.complete_cases completion with hsame | hcompleted | hretried
      · rwa [hsame]
      · exact hmoved n .completed s _ _ h hcompleted
      · exact hmoved n .retried s _ _ h hretried
  | cancel id note =>
      show inv (n + if s.isRunning id then 1 else 0) (s.cancel id note).2
      rcases s.cancel_cases id note with ⟨hsame, hidle⟩ | ⟨hqueued, hidle⟩ | ⟨hrunning, hbusy⟩
      · rw [hsame, hidle]
        exact h
      · rw [hidle]
        exact hmoved n .cancelledQueued s _ id h hqueued
      · rw [hbusy]
        exact hmoved n .cancelledRunning s _ id h hrunning
  | expire nowNs =>
      refine expire_invariant (inv n) (fun expired s id h => ?_) h
      rcases expire_task_cases nowNs expired s id with hsame | hexpired
      · rwa [hsame]
      · exact hmoved n .expired s _ id h hexpired
  | clearCompleted => exact hclear rfl

end RuntimeScheduler

end Aethon.Runtime
