import Aethon.Foundation.IdCounter
import Aethon.Runtime.SchedulerSteps

/-!
# What the scheduler keeps

`scheduler_consistent`: in every run in which the identifier counter does not wrap, the counts of
the devices are exact and within the burst, the table is within its bound, active labels are
unique, the counters add up and a finished task stays as it is until it is cleared. The counters
record no cancellations of running tasks of their own, so `cancelledRunning` counts them along the
run.
-/

namespace Aethon.Runtime

open Protocol OrderedMap IdCounter Runs

namespace RuntimeScheduler

/-- The number of running tasks of a device. -/
def runningOf (s : RuntimeScheduler) (device : DeviceId) : Nat :=
  s.tasks.count fun record => record.state = .running && record.task.device = device

/-- How many tasks are running. -/
def running (s : RuntimeScheduler) : Nat :=
  s.tasks.count fun record => record.state = .running

/-- How many tasks are not terminal. -/
def nonTerminal (s : RuntimeScheduler) : Nat :=
  s.tasks.count fun record => !record.state.isTerminal

/-- No two tasks that are not finished share device, kind and a label that is not empty. -/
def UniqueLabels (tasks : SortedTable SchedulerTaskId TaskRecord) : Prop :=
  ∀ id id' record record', tasks.lookup id = some record → tasks.lookup id' = some record' →
    id ≠ id' → record.state.isTerminal = false → record'.state.isTerminal = false →
    record.task.label ≠ "" → ¬ record.task.SameIntent record'.task

/-- What holds of every scheduler, given how many running tasks were cancelled. -/
structure Consistent (s : RuntimeScheduler) (cancelledRunning : Nat) : Prop where
  devices : ∀ device, s.runningByDevice[device]? =
    if s.runningOf device = 0 then none else some (s.runningOf device)
  burst : ∀ device, s.runningOf device ≤ max 1 s.config.perDeviceBurst
  capacity : s.tasks.size ≤ s.config.maxTasks
  labels : s.config.rejectDuplicateLabels → UniqueLabels s.tasks
  enqueued : s.stats.enqueued =
    s.nonTerminal + s.stats.completed + s.stats.cancelled + s.stats.expired
  leased : s.stats.leased =
    s.stats.completed + s.stats.retried + s.running + cancelledRunning
  known : ∀ id record, s.tasks.lookup id = some record → Below s.nextId id

/-! ## Labels -/

/-- Labels stay unique when the task put into the table shares its label with no active one. -/
theorem UniqueLabels.insert {tasks : SortedTable SchedulerTaskId TaskRecord} {id : SchedulerTaskId}
    {record : TaskRecord} (h : UniqueLabels tasks)
    (hnew : ∀ other held, tasks.lookup other = some held → other ≠ id →
      record.state.isTerminal = false → held.state.isTerminal = false → record.task.label ≠ "" →
      ¬ record.task.SameIntent held.task) :
    UniqueLabels (tasks.insert id record) := by
  intro first second one other hone hother hne honeActive hotherActive hempty hintent
  obtain ⟨hdevice, hkind, hlabel⟩ := hintent
  rw [SortedTable.lookup_insert] at hone hother
  split_ifs at hone hother with hfirst hsecond hsecond
  · exact hne (hfirst.trans hsecond.symm)
  · obtain rfl := Option.some.inj hone
    exact hnew second other hother hsecond honeActive hotherActive hempty ⟨hdevice, hkind, hlabel⟩
  · obtain rfl := Option.some.inj hother
    exact hnew first one hone hfirst hotherActive honeActive (hlabel ▸ hempty)
      ⟨hdevice.symm, hkind.symm, hlabel.symm⟩
  · exact h first second one other hone hother hne honeActive hotherActive hempty
      ⟨hdevice, hkind, hlabel⟩

/-- Labels stay unique when an active task is put back with what duplicates are told by. -/
theorem UniqueLabels.putBack {tasks : SortedTable SchedulerTaskId TaskRecord}
    {id : SchedulerTaskId} {record record' : TaskRecord} (h : UniqueLabels tasks)
    (hlookup : tasks.lookup id = some record) (hactive : record.state.isTerminal = false)
    (hintent : record'.task.SameIntent record.task) : UniqueLabels (tasks.insert id record') := by
  obtain ⟨hdevice, hkind, hlabel⟩ := hintent
  refine h.insert fun other held hother hne _ hheld hempty hsame => ?_
  rw [hlabel] at hempty
  exact h id other record held hlookup hother hne.symm hactive hheld hempty
    ⟨hdevice.symm.trans hsame.1, hkind.symm.trans hsame.2.1, hlabel.symm.trans hsame.2.2⟩

/-! ## Device counts -/

/-- An exact count of at least one stays exact when a task of the device is released. -/
theorem release_device_exact {running : Std.ExtTreeMap DeviceId Nat} {device : DeviceId} {n : Nat}
    (h : running[device]? = some (n + 1)) (other : DeviceId) :
    (releaseDevice running device)[other]? =
      if other = device then if n = 0 then none else some n else running[other]? := by
  unfold releaseDevice
  rw [h]
  simp only
  by_cases hn : n = 0
  · rw [if_pos (by omega), getElem?_erase]
    simp [hn]
  · rw [if_neg (by omega), getElem?_insert]
    simp [hn]

/-- The counts of the devices follow a move of a task of the device. -/
theorem Consistent.devices_moved {s : RuntimeScheduler} {n : Nat} (h : s.Consistent n)
    (event : TaskEvent) (device : DeviceId) {runningOf : DeviceId → Nat}
    (hcount : ∀ other, runningOf other + (if event.before = .running ∧ device = other then 1 else 0)
      = s.runningOf other + if event.after = .running ∧ device = other then 1 else 0)
    (other : DeviceId) :
    (event.devices s device)[other]? =
      if runningOf other = 0 then none else some (runningOf other) := by
  have hexact := h.devices device
  have hother := hcount other
  have hdevice := hcount device
  cases event with
  | leased =>
      have hgetD : s.runningByDevice.getD device 0 = s.runningOf device := by
        rw [Std.ExtTreeMap.getD_eq_getD_getElem?, hexact]
        split_ifs with hzero
        · exact hzero.symm
        · rfl
      simp only [TaskEvent.before, TaskEvent.after, reduceCtorEq, false_and, true_and, if_false,
        Nat.add_zero] at hother
      rw [TaskEvent.devices, getElem?_insert, hgetD, h.devices other, hother]
      by_cases hkey : other = device
      · simp [hkey]
      · simp [hkey, Ne.symm hkey]
  | completed | retried | cancelledRunning =>
      simp only [TaskEvent.before, TaskEvent.after, reduceCtorEq, false_and, true_and, if_true,
        if_false, Nat.add_zero] at hdevice hother
      rw [← hdevice, if_neg (by omega)] at hexact
      rw [TaskEvent.devices, release_device_exact hexact, h.devices other, ← hother]
      by_cases hkey : other = device
      · simp [hkey]
      · simp [hkey, Ne.symm hkey]
  | cancelledQueued | expired =>
      simp only [TaskEvent.before, TaskEvent.after, reduceCtorEq, false_and, if_false,
        Nat.add_zero] at hother
      rw [TaskEvent.devices, h.devices other, hother]

/-- A lease needs room in the burst of its device. -/
theorem Consistent.room {s : RuntimeScheduler} {n : Nat} (h : s.Consistent n) {device : DeviceId}
    (hroom : s.deviceBurstAvailable device) :
    s.runningOf device < max 1 s.config.perDeviceBurst := by
  unfold deviceBurstAvailable at hroom
  rw [h.devices device] at hroom
  split_ifs at hroom with hzero
  · omega
  · have : s.runningOf device < s.config.perDeviceBurst := by simpa using hroom
    omega

/-- The bound on the burst follows a move, which leases only with room. -/
theorem Consistent.burst_moved {s : RuntimeScheduler} {n : Nat} (h : s.Consistent n)
    {event : TaskEvent} {device : DeviceId} {runningOf : DeviceId → Nat}
    (hroom : event = .leased → s.deviceBurstAvailable device)
    (hcount : ∀ other, runningOf other + (if event.before = .running ∧ device = other then 1 else 0)
      = s.runningOf other + if event.after = .running ∧ device = other then 1 else 0)
    (other : DeviceId) : runningOf other ≤ max 1 s.config.perDeviceBurst := by
  have hburst := h.burst other
  have hother := hcount other
  by_cases hlease : event = .leased ∧ device = other
  · obtain ⟨rfl, rfl⟩ := hlease
    have hless := h.room (hroom rfl)
    simp [TaskEvent.before, TaskEvent.after] at hother
    omega
  · have hnot : ¬ (event.after = .running ∧ device = other) := by
      cases event <;> simp_all [TaskEvent.after]
    rw [if_neg hnot] at hother
    omega

/-- A moved task keeps the scheduler consistent. -/
theorem Consistent.moved {event : TaskEvent} {s s' : RuntimeScheduler} {id : SchedulerTaskId}
    {n : Nat} (h : s.Consistent n) (hmoved : Moved event s s' id) :
    s'.Consistent (if event = .cancelledRunning then n + 1 else n) := by
  obtain ⟨⟨record, record', hlookup, htasks, hbefore, hafter, hintent, hdevices, hroom⟩, hconfig,
    hstats, hnextId⟩ := hmoved
  have hlookups (other : SchedulerTaskId) : s'.tasks.lookup other =
      if other = id then some record' else s.tasks.lookup other := by
    rw [htasks, SortedTable.lookup_insert]
  -- the move changes a number of tasks by what it makes of its own task
  have hcount (kind : TaskRecord → Bool) : s'.tasks.count kind + (if kind record then 1 else 0) =
      s.tasks.count kind + if kind record' then 1 else 0 := by
    have := s.tasks.count_insert id record' kind
    rwa [hlookup, Option.elim_some, ← htasks] at this
  have hrunningOf (other : DeviceId) : s'.runningOf other +
        (if event.before = .running ∧ record.task.device = other then 1 else 0) =
      s.runningOf other + if event.after = .running ∧ record.task.device = other then 1 else 0 := by
    simpa [runningOf, hbefore, hafter, hintent.1] using
      hcount fun record => record.state = .running && record.task.device = other
  have hrunning : s'.running + (if event.before = .running then 1 else 0) =
      s.running + if event.after = .running then 1 else 0 := by
    simpa [RuntimeScheduler.running, hbefore, hafter] using
      hcount fun record => record.state = .running
  have hnonTerminal : s'.nonTerminal + (if event.before.isTerminal = false then 1 else 0) =
      s.nonTerminal + if event.after.isTerminal = false then 1 else 0 := by
    simpa [nonTerminal, hbefore, hafter] using hcount fun record => !record.state.isTerminal
  refine ⟨fun other => ?_, fun other => ?_, ?_, fun hreject => ?_, ?_, ?_, fun other held => ?_⟩
  · rw [hdevices]
    exact h.devices_moved event _ hrunningOf other
  · rw [hconfig]
    exact h.burst_moved hroom hrunningOf other
  · have := s.tasks.size_insert id record'
    rw [hlookup, Option.elim_some, ← htasks] at this
    rw [hconfig]
    have := h.capacity
    omega
  · have hactive : record.state.isTerminal = false := by
      rw [hbefore]
      cases event <;> rfl
    rw [htasks]
    exact (h.labels (hconfig ▸ hreject)).putBack hlookup hactive hintent
  · rw [hstats]
    have := h.enqueued
    cases event <;>
      simp [TaskEvent.count, TaskEvent.before, TaskEvent.after, SchedulerTaskState.isTerminal]
        at hnonTerminal ⊢ <;>
      omega
  · rw [hstats]
    have := h.leased
    cases event <;> simp [TaskEvent.count, TaskEvent.before, TaskEvent.after] at hrunning ⊢ <;>
      omega
  · rw [hnextId, hlookups]
    split_ifs with hkey
    · intro _
      exact hkey ▸ h.known id record hlookup
    · exact h.known other held

/-! ## Additions and clearing -/

/-- An empty scheduler is consistent. -/
theorem consistent_init (config : SchedulerConfig) : Consistent { config := config } 0 where
  devices := fun _ => rfl
  burst := fun _ => Nat.zero_le _
  capacity := Nat.zero_le _
  labels := fun _ _ _ _ _ hone => by cases hone
  enqueued := rfl
  leased := rfl
  known := fun _ _ hone => by cases hone

/-- A new task keeps the scheduler consistent, as long as the counter does not wrap. -/
theorem Consistent.enqueue {s : RuntimeScheduler} {n : Nat} (h : s.Consistent n)
    (task : SchedulerTask) (hwrap : s.nextId ≤ (s.enqueue task).2.nextId) :
    (s.enqueue task).2.Consistent n := by
  rcases s.enqueue_cases task with ⟨htasks, hdevices, hconfig, hnextId, count, hstats⟩ |
    ⟨id, nextId, record, hadded, hstate, hintent, hroom, hlabel, hid⟩
  · obtain ⟨devices, burst, capacity, labels, enqueued, leased, known⟩ := h
    generalize (s.enqueue task).2 = s' at *
    obtain ⟨_, _, _, _, _⟩ := s'
    simp only at htasks hdevices hconfig hnextId hstats
    subst htasks hdevices hconfig hnextId hstats
    exact ⟨devices, burst, capacity, labels, enqueued, leased, known⟩
  · rw [hadded] at hwrap ⊢
    obtain ⟨hfresh, hbelow⟩ := fresh h.known hwrap hid
    have hcount (kind : TaskRecord → Bool) : (s.tasks.insert id record).count kind =
        s.tasks.count kind + if kind record then 1 else 0 := by
      have := s.tasks.count_insert id record kind
      rwa [hfresh, Option.elim_none, Nat.add_zero] at this
    have hnotRunning : record.state ≠ .running := by simp [hstate]
    have hrunningOf (device : DeviceId) : (s.enqueue task).2.runningOf device =
        s.runningOf device := by
      rw [hadded, runningOf, hcount]
      simp [hnotRunning, runningOf]
    have hrunning : (s.enqueue task).2.running = s.running := by
      rw [hadded, RuntimeScheduler.running, hcount]
      simp [hnotRunning, RuntimeScheduler.running]
    have hnonTerminal : (s.enqueue task).2.nonTerminal = s.nonTerminal + 1 := by
      rw [hadded, nonTerminal, hcount, hstate]
      rfl
    have hsize := s.tasks.size_insert id record
    rw [hfresh, Option.elim_none] at hsize
    rw [hadded] at hrunningOf hrunning hnonTerminal
    refine ⟨fun device => ?_, fun device => ?_, ?_, fun hreject => ?_, ?_, ?_,
      fun other held hother => ?_⟩
    · rw [hrunningOf]
      exact h.devices device
    · rw [hrunningOf]
      exact h.burst device
    · show (s.tasks.insert id record).size ≤ s.config.maxTasks
      omega
    · refine (h.labels hreject).insert fun other held hother _ _ hactive hempty hsame => ?_
      have hclash := hlabel hreject
      obtain ⟨hdevice, hkind, hsameLabel⟩ := hintent
      rw [hsameLabel] at hempty
      rw [duplicateLabel, if_neg hempty, List.any_eq_false] at hclash
      refine hclash held (SortedTable.mem_values_iff.mpr ⟨other, hother⟩) ?_
      simp [TaskRecord.clashes, hactive, ← hsame.1, ← hsame.2.1, ← hsame.2.2, hdevice, hkind,
        hsameLabel]
    · rw [hnonTerminal]
      have := h.enqueued
      simp only
      omega
    · rw [hrunning]
      exact h.leased
    · rw [SortedTable.lookup_insert] at hother
      split_ifs at hother with hkey
      · exact hkey ▸ hbelow
      · exact (h.known other held hother).mono hwrap

/-- Clearing keeps the scheduler consistent. -/
theorem Consistent.clearCompleted {s : RuntimeScheduler} {n : Nat} (h : s.Consistent n) :
    s.clearCompleted.Consistent n := by
  have hcount (kind : TaskRecord → Bool)
      (hkind : ∀ record, record.state.isTerminal = true → kind record = false) :
      s.clearCompleted.tasks.count kind = s.tasks.count kind :=
    SortedTable.count_filter fun _ record hdrop => hkind record (by simpa using hdrop)
  have hrunningOf (device : DeviceId) : s.clearCompleted.runningOf device = s.runningOf device := by
    refine hcount _ fun record hterminal => ?_
    cases hstate : record.state <;> simp_all [SchedulerTaskState.isTerminal]
  have hrunning : s.clearCompleted.running = s.running := by
    refine hcount _ fun record hterminal => ?_
    cases hstate : record.state <;> simp_all [SchedulerTaskState.isTerminal]
  have hnonTerminal : s.clearCompleted.nonTerminal = s.nonTerminal :=
    hcount _ fun record hterminal => by rw [hterminal]; rfl
  have hkept {id : SchedulerTaskId} {record : TaskRecord}
      (hlookup : s.clearCompleted.tasks.lookup id = some record) :
      s.tasks.lookup id = some record := by
    rw [RuntimeScheduler.clearCompleted, SortedTable.lookup_filter] at hlookup
    exact (Option.filter_eq_some_iff.mp hlookup).1
  exact {
    devices := fun device => by rw [hrunningOf]; exact h.devices device
    burst := fun device => by rw [hrunningOf]; exact h.burst device
    capacity := Nat.le_trans (s.tasks.size_filter_le _) h.capacity
    labels := fun hreject id id' record record' hone hother =>
      h.labels hreject id id' record record' (hkept hone) (hkept hother)
    enqueued := by rw [hnonTerminal]; exact h.enqueued
    leased := by rw [hrunning]; exact h.leased
    known := fun id record hlookup => h.known id record (hkept hlookup) }

/-! ## Runs -/

/-- The number of running tasks that the calls of a run cancel. -/
def cancelledRunning (s : RuntimeScheduler) : List SchedulerOp → Nat
  | [] => 0
  | op :: ops => (if s.cancelsRunning op then 1 else 0) + (s.step op).cancelledRunning ops

/-- The identifier counter does not wrap in a call. -/
def CounterKept (s : RuntimeScheduler) (op : SchedulerOp) : Prop :=
  s.nextId ≤ (s.step op).nextId

instance (s : RuntimeScheduler) (op : SchedulerOp) : Decidable (s.CounterKept op) :=
  inferInstanceAs (Decidable (_ ≤ _))

/-- An operation keeps the scheduler consistent, as long as the counter does not wrap. -/
theorem Consistent.step {s : RuntimeScheduler} {n : Nat} (h : s.Consistent n) (op : SchedulerOp)
    (hwrap : s.CounterKept op) :
    (s.step op).Consistent (n + if s.cancelsRunning op then 1 else 0) := by
  refine step_rule (fun n s => s.Consistent n) (fun n event s s' id h => h.moved) h
    (fun task hop => ?_) fun _ => h.clearCompleted
  subst hop
  exact h.enqueue task hwrap

/-- Operations keep the scheduler consistent, as long as the counter does not wrap. -/
theorem Consistent.run {s : RuntimeScheduler} {n : Nat} (h : s.Consistent n)
    (ops : List SchedulerOp) (hwrap : Along RuntimeScheduler.step CounterKept s ops) :
    (Runs.run RuntimeScheduler.step s ops).Consistent (n + s.cancelledRunning ops) := by
  induction ops generalizing s n with
  | nil => exact h
  | cons op ops ih =>
      obtain ⟨hop, hops⟩ := hwrap
      rw [run_cons, cancelledRunning, ← Nat.add_assoc]
      exact ih (h.step op hop) hops

/-! ## Finished tasks -/

/-- A finished record under an identifier. -/
def Holds (id : SchedulerTaskId) (record : TaskRecord) (s : RuntimeScheduler) : Prop :=
  s.tasks.lookup id = some record ∧ record.state.isTerminal

/-- Only active tasks are moved. -/
theorem Holds.moved {id : SchedulerTaskId} {record : TaskRecord} {s s' : RuntimeScheduler}
    (h : s.Holds id record) {event : TaskEvent} {other : SchedulerTaskId}
    (hmoved : Moved event s s' other) : s'.Holds id record := by
  obtain ⟨hlookup, hterminal⟩ := h
  obtain ⟨held, held', hother, htasks, hbefore, -⟩ := hmoved.tasks
  refine ⟨?_, hterminal⟩
  rw [htasks, SortedTable.lookup_insert, if_neg]
  · exact hlookup
  · intro hkey
    rw [← hkey, hlookup] at hother
    obtain rfl := Option.some.inj hother
    rw [hbefore] at hterminal
    cases event <;> cases hterminal

/-- A finished task stays as it is in every call but `clear_completed`. -/
theorem Holds.step {id : SchedulerTaskId} {record : TaskRecord} {s : RuntimeScheduler} {n : Nat}
    (h : s.Holds id record) (hs : s.Consistent n) (op : SchedulerOp) (hwrap : s.CounterKept op)
    (hclear : op ≠ .clearCompleted) : (s.step op).Holds id record := by
  refine step_rule (fun _ s => s.Holds id record) (n := n)
    (fun n event s s' other h => h.moved) h (fun task hop => ?_) fun hop => absurd hop hclear
  subst hop
  rcases s.enqueue_cases task with ⟨htasks, -⟩ | ⟨other, nextId, added, hadded, -, -, -, -, hid⟩
  · exact ⟨htasks ▸ h.1, h.2⟩
  · rw [CounterKept, RuntimeScheduler.step, hadded] at hwrap
    obtain ⟨hfresh, -⟩ := fresh hs.known hwrap hid
    rw [hadded]
    exact ⟨SortedTable.lookup_insert_of_fresh hfresh h.1, h.2⟩

/-- A finished record stays as it is in every run, unless it is cleared away. -/
theorem Holds.run {id : SchedulerTaskId} {record : TaskRecord} {s : RuntimeScheduler} {n : Nat}
    (h : s.Holds id record) (hs : s.Consistent n) (ops : List SchedulerOp)
    (hwrap : Along RuntimeScheduler.step CounterKept s ops) (hclear : .clearCompleted ∉ ops) :
    (Runs.run RuntimeScheduler.step s ops).Holds id record := by
  induction ops generalizing s n with
  | nil => exact h
  | cons op ops ih =>
      obtain ⟨hop, hops⟩ := hwrap
      rw [List.mem_cons, not_or] at hclear
      exact ih (h.step hs op hop (Ne.symm hclear.1)) (hs.step op hop) hops hclear.2

/-- No call changes the configuration. -/
theorem config_run (s : RuntimeScheduler) (ops : List SchedulerOp) :
    (Runs.run step s ops).config = s.config := by
  refine run_invariant (fun (s' : RuntimeScheduler) op (h : s'.config = s.config) => ?_) rfl ops
  refine step_rule (fun _ s' => s'.config = s.config) (n := 0)
    (fun n event s s' id h hmoved => hmoved.config.trans h) h (fun task _ => ?_) fun _ => h
  rcases s'.enqueue_cases task with ⟨-, -, hconfig, -⟩ | ⟨id, nextId, record, hadded, -⟩
  · exact hconfig.trans h
  · rw [hadded]
    exact h

/-- In every run from an empty scheduler in which the identifier counter does not wrap, the
scheduler is consistent, and a finished task stays as it is until finished tasks are cleared. -/
theorem scheduler_consistent (config : SchedulerConfig) (ops : List SchedulerOp)
    (hwrap : Along step CounterKept { config := config } ops) :
    let s := Runs.run step { config := config } ops
    s.config = config ∧ s.Consistent (cancelledRunning { config := config } ops) ∧
      ∀ later, Along step CounterKept s later → .clearCompleted ∉ later →
        ∀ id record, s.tasks.lookup id = some record → record.state.isTerminal →
          (Runs.run step s later).tasks.lookup id = some record := by
  intro s
  have hs : s.Consistent (0 + cancelledRunning { config := config } ops) :=
    (consistent_init config).run ops hwrap
  rw [Nat.zero_add] at hs
  refine ⟨config_run _ ops, hs, fun later hlater hclear id record hlookup hterminal => ?_⟩
  exact (Holds.run ⟨hlookup, hterminal⟩ hs later hlater hclear).1

/-- A task that is leased, retried, leased again and cancelled while it runs. -/
theorem scheduler_consistent_cancelled :
    let ops : List SchedulerOp := [.enqueue { device := 7, label := "scan" }, .leaseNext 10,
      .complete { id := 1, success := false }, .leaseNext 20, .cancel 1 "operator"]
    let s := Runs.run step {} ops
    s.Consistent 1 := by
  intro ops s
  have hcancelled : cancelledRunning { config := {} } ops = 1 := by decide +kernel
  have h := (scheduler_consistent {} ops (by decide +kernel)).2.1
  rwa [hcancelled] at h

end RuntimeScheduler

end Aethon.Runtime
