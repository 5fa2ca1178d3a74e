import Aethon.Foundation.IdCounter
import Aethon.Runtime.SchedulerSteps

/-!
# The identifiers of the scheduler

An explicit identifier is looked up before it is used, an automatic one comes from the counter
unchecked. While the counter has not wrapped it is above every identifier in the table but the
largest one, so an automatic identifier is new unless it is that one. Behind the largest identifier
the counter starts again at zero. `never_clobbers_iff` says what is left to ask of a run.
-/

namespace Aethon.Runtime

open IdCounter Runs

namespace RuntimeScheduler

/-- `reset` starts the identifiers again. -/
def reset (s : RuntimeScheduler) : RuntimeScheduler :=
  { s with tasks := ∅, runningByDevice := ∅, stats := {}, nextId := 1 }

/-! ## What an addition does -/

/-- The table has room for the task, its label is no duplicate, and its own identifier, if it has
one, is not in the table. -/
def Admits (s : RuntimeScheduler) (task : SchedulerTask) : Prop :=
  s.tasks.size < s.config.maxTasks ∧
    (s.config.rejectDuplicateLabels && s.duplicateLabel task) = false ∧
    (task.id = 0 ∨ s.tasks.lookup task.id = none)

/-- The call does not throw, is not counted as a duplicate, and returns the identifier. -/
def Accepts (s : RuntimeScheduler) (task : SchedulerTask) (id : SchedulerTaskId) : Prop :=
  (s.enqueue task).1 = .ok id ∧
    (s.enqueue task).2.stats.duplicateRejections = s.stats.duplicateRejections

/-- An accepted task gets an identifier that was not in the table, is stored under it, and leaves
every other task as it was, running ones included. -/
def NeverClobbers (s : RuntimeScheduler) (task : SchedulerTask) : Prop :=
  ∀ id, s.Accepts task id → id ≠ 0 ∧ s.tasks.lookup id = none ∧
    (∃ record, (s.enqueue task).2.tasks.lookup id = some record ∧
      record.task = { task with id := id } ∧ record.state = .queued) ∧
    (∀ other record, s.tasks.lookup other = some record →
      (s.enqueue task).2.tasks.lookup other = some record) ∧
    (s.enqueue task).2.runningByDevice = s.runningByDevice

/-- A task that is admitted gets a record under its id. -/
theorem enqueue_of_admits {s : RuntimeScheduler} {task : SchedulerTask} (h : s.Admits task) :
    s.enqueue task = (.ok (s.assignId task).1, { s with
      tasks := s.tasks.insert (s.assignId task).1
        (TaskRecord.note { task := { task with id := (s.assignId task).1 } } "task enqueued")
      stats.enqueued := s.stats.enqueued + 1
      nextId := (s.assignId task).2 }) := by
  obtain ⟨hroom, hlabel, hid⟩ := h
  unfold enqueue
  rw [if_neg (by omega), if_neg (by simp [hlabel]), if_neg]
  rintro ⟨hexplicit, hknown⟩
  rw [hid.resolve_left hexplicit] at hknown
  cases hknown

/-- A call is accepted when the task is admitted, with the assigned identifier. -/
theorem accepts_iff (s : RuntimeScheduler) (task : SchedulerTask) (id : SchedulerTaskId) :
    s.Accepts task id ↔ s.Admits task ∧ id = (s.assignId task).1 := by
  constructor
  · rintro ⟨hid, hstats⟩
    have hadmits : s.Admits task := by
      unfold enqueue at hid hstats
      split_ifs at hid hstats with hfull hduplicate hknown
      · simp at hstats
      · simp at hstats
      · refine ⟨by omega, by simpa using hduplicate, ?_⟩
        by_cases hzero : task.id = 0
        · exact .inl hzero
        · exact .inr (by simpa [hzero] using hknown)
    rw [enqueue_of_admits hadmits] at hid
    exact ⟨hadmits, (Except.ok.inj hid).symm⟩
  · rintro ⟨hadmits, rfl⟩
    unfold Accepts
    rw [enqueue_of_admits hadmits]
    exact ⟨rfl, rfl⟩

/-- An explicit identifier is safe, and an automatic one is safe if the counter is free. -/
theorem never_clobbers_iff_free (s : RuntimeScheduler) (task : SchedulerTask) :
    s.NeverClobbers task ↔
      (s.Admits task → task.id = 0 → Free s.tasks.lookup s.nextId) := by
  constructor
  · intro h hadmits hzero
    obtain ⟨hpositive, hnone, -⟩ := h _ ((s.accepts_iff task _).mpr ⟨hadmits, rfl⟩)
    rw [assignId, if_pos hzero] at hpositive hnone
    exact ⟨hpositive, hnone⟩
  · intro h id haccepts
    obtain ⟨hadmits, rfl⟩ := (s.accepts_iff task id).mp haccepts
    have hfree : Free s.tasks.lookup (s.assignId task).1 := by
      unfold assignId
      split_ifs with hzero
      · exact h hadmits hzero
      · exact ⟨hzero, hadmits.2.2.resolve_left hzero⟩
    rw [enqueue_of_admits hadmits]
    refine ⟨hfree.1, hfree.2, ⟨_, (SortedTable.lookup_insert ..).trans (if_pos rfl), rfl, rfl⟩,
      fun other record hlookup => ?_, rfl⟩
    exact SortedTable.lookup_insert_of_fresh hfree.2 hlookup

/-! ## Runs -/

end RuntimeScheduler

/-- Any call of the scheduler that changes it. -/
inductive SchedulerCall where
  | op (op : SchedulerOp)
  | reset

/-- The scheduler after a call, and whether its counter has wrapped since it was last reset. -/
def RuntimeScheduler.call (s : RuntimeScheduler × Bool) :
    SchedulerCall → RuntimeScheduler × Bool
  | .op op => (s.1.step op, s.2 || !decide (s.1.nextId ≤ (s.1.step op).nextId))
  | .reset => (s.1.reset, false)

namespace RuntimeScheduler

/-- No accepted task of the call clobbers another one. -/
def CallSafe (s : RuntimeScheduler × Bool) : SchedulerCall → Prop
  | .op (.enqueue task) => s.1.NeverClobbers task
  | _ => True

/-- Where the counter has wrapped or stands at the largest identifier, an automatic identifier is
asked for only while the counter is free. -/
def CounterFree (s : RuntimeScheduler × Bool) : SchedulerCall → Prop
  | .op (.enqueue task) => s.1.Admits task → task.id = 0 → s.2 = true ∨ s.1.nextId = -1 →
      Free s.1.tasks.lookup s.1.nextId
  | _ => True

/-- The counter is ahead of the table. -/
def CounterAhead (s : RuntimeScheduler × Bool) : Prop :=
  Ahead s.1.tasks.lookup s.1.nextId s.2

/-- Every call but an addition leaves the counter alone and adds nothing to the table. -/
theorem step_adds_nothing (s : RuntimeScheduler) {op : SchedulerOp}
    (hop : ∀ task, op ≠ .enqueue task) : (s.step op).nextId = s.nextId ∧
      ∀ id record, (s.step op).tasks.lookup id = some record →
        ∃ held, s.tasks.lookup id = some held := by
  refine step_rule (fun _ s' => s'.nextId = s.nextId ∧ ∀ id record,
      s'.tasks.lookup id = some record → ∃ held, s.tasks.lookup id = some held) (n := 0)
    (fun n event s' s'' moved h hmoved => ?_) ⟨rfl, fun id record hlookup => ⟨record, hlookup⟩⟩
    (fun task henqueue => absurd henqueue (hop task)) (fun _ => ⟨rfl, fun id record hlookup => ?_⟩)
  · obtain ⟨hnext, hkeys⟩ := h
    obtain ⟨before, after, hbefore, htasks, -⟩ := hmoved.tasks
    refine ⟨hmoved.nextId.trans hnext, fun id record hlookup => ?_⟩
    rw [htasks, SortedTable.lookup_insert] at hlookup
    split_ifs at hlookup with hkey
    · exact hkey ▸ hkeys moved before hbefore
    · exact hkeys id record hlookup
  · rw [clearCompleted, SortedTable.lookup_filter] at hlookup
    exact ⟨record, (Option.filter_eq_some_iff.mp hlookup).1⟩

/-- Every call keeps the counter ahead of the table, or makes it wrap. -/
theorem counter_ahead_call (s : RuntimeScheduler × Bool) (call : SchedulerCall)
    (h : CounterAhead s) : CounterAhead (RuntimeScheduler.call s call) := by
  obtain ⟨s, wrapped⟩ := s
  cases call with
  | reset => exact Ahead.new fun _ => rfl
  | op op =>
      by_cases hop : ∃ task, op = .enqueue task
      · obtain ⟨task, rfl⟩ := hop
        rcases s.enqueue_cases task with ⟨htasks, -, -, hnext, -⟩ |
          ⟨id, nextId, record, hadded, -, -, -, -, hid⟩
        · refine h.keep hnext fun other held hlookup => ⟨held, ?_⟩
          rw [← htasks]
          exact hlookup
        · have hadd : CounterAhead ((s.enqueue task).2,
              wrapped || !decide (s.nextId ≤ (s.enqueue task).2.nextId)) := by
            rw [hadded]
            exact h.insert hid record
          exact hadd
      · obtain ⟨hnext, hkeys⟩ := s.step_adds_nothing fun task heq => hop ⟨task, heq⟩
        exact h.keep hnext hkeys

/-- **No clobbering.** In every run of a new scheduler, no accepted task clobbers another one if and
only if every automatic identifier that is asked for once the counter has wrapped, or while it
stands at the largest identifier, finds the counter free. -/
theorem never_clobbers_iff (config : SchedulerConfig) (calls : List SchedulerCall) :
    Along RuntimeScheduler.call CallSafe ({ config }, false) calls ↔
      Along RuntimeScheduler.call CounterFree ({ config }, false) calls := by
  have hnew : CounterAhead ({ config }, false) := Ahead.new fun _ => rfl
  refine along_congr counter_ahead_call (fun s call hs => ?_) hnew calls
  obtain ⟨s, wrapped⟩ := s
  cases call with
  | reset => exact Iff.rfl
  | op op =>
      cases op with
      | enqueue task =>
          show s.NeverClobbers task ↔ (s.Admits task → task.id = 0 →
            wrapped = true ∨ s.nextId = -1 → Free s.tasks.lookup s.nextId)
          rw [never_clobbers_iff_free]
          exact imp_congr_right fun _ => imp_congr_right fun _ => Ahead.free_iff hs
      | _ => exact Iff.rfl

/-- The largest identifier is chosen for a task that then runs, and the counter is moved up to it:
the next automatic identifier is that of the running task. -/
theorem clobbers_running :
    let calls : List SchedulerCall := [.op (.enqueue { id := 0xffffffffffffffff }),
      .op (.leaseNext 10), .op (.enqueue { id := 0xfffffffffffffffe })]
    let s := (run RuntimeScheduler.call ({}, false) calls).1
    s.isRunning 0xffffffffffffffff = true ∧ s.Accepts {} 0xffffffffffffffff ∧
      (s.enqueue {}).2.isRunning 0xffffffffffffffff = false ∧ ¬s.NeverClobbers {} := by
  intro calls s
  have haccepts : s.Accepts {} 0xffffffffffffffff := by
    refine (s.accepts_iff {} _).mpr ⟨⟨by decide +kernel, by decide +kernel, .inl rfl⟩, ?_⟩
    decide +kernel
  refine ⟨by decide +kernel, haccepts, by decide +kernel, fun hsafe => ?_⟩
  have hnone := (hsafe _ haccepts).2.1
  exact absurd hnone (by decide +kernel)

end RuntimeScheduler

end Aethon.Runtime
