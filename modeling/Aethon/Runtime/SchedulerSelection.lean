import Mathlib.Order.OrderDual
import Aethon.Runtime.SchedulerInvariants

/-!
# The task that the scheduler leases

`select` goes over the table once and replaces the best task so far by one that precedes it. Tasks
that are due come first; the others are compared by deadline where both have one and by priority,
attempts and enqueue time where one has none, which is not transitive. `picks_best_iff` says for
which tables the leased task is a best one whatever the identifiers are. For the due tasks it always
is, and `lease_many_exact` says what follows for a call of `lease_many`, and that it gives out as
many leases as there are waiting tasks and free slots.
-/

namespace Aethon.Runtime

open Protocol Tournament

/-! ## The comparison -/

namespace TaskRecord

/-- Whether the deadline is within the fairness window. -/
def due (record : TaskRecord) (horizon : UInt64) : Bool :=
  record.task.hasDeadline && record.task.deadlineNs ≤ horizon

/-- The deadline, with `⊤` for none. -/
def deadline (record : TaskRecord) : WithTop Nat :=
  if record.task.hasDeadline then WithTop.some record.task.deadlineNs.toNat else ⊤

/-- What is left to compare without deadlines: higher priority, fewer attempts, earlier enqueue
time. -/
def rating (record : TaskRecord) : Lex (OrderDual Nat × Lex (Nat × Nat)) :=
  toLex (OrderDual.toDual record.task.priority.rank,
    toLex (record.attempts.toNat, record.task.enqueueTimeNs.toNat))

/-- A task has a deadline when it says so. -/
theorem deadline_ne_top_iff {record : TaskRecord} :
    record.deadline ≠ ⊤ ↔ record.task.hasDeadline = true := by
  unfold deadline
  split_ifs with h
  · simp [h]
  · simp [h]

theorem deadline_ne_top_of_due {record : TaskRecord} {horizon : UInt64}
    (h : record.due horizon = true) : record.deadline ≠ ⊤ :=
  deadline_ne_top_iff.mpr (Bool.and_eq_true_iff.mp h).1

/-- The last three criteria of the comparison. -/
theorem decide_rating_lt (candidate best : TaskRecord) :
    decide (candidate.rating < best.rating) =
      if candidate.task.priority.rank ≠ best.task.priority.rank then
        decide (candidate.task.priority.rank > best.task.priority.rank)
      else if candidate.attempts ≠ best.attempts then decide (candidate.attempts < best.attempts)
      else decide (candidate.task.enqueueTimeNs < best.task.enqueueTimeNs) := by
  have hlt : candidate.rating < best.rating ↔
      best.task.priority.rank < candidate.task.priority.rank ∨
        candidate.task.priority.rank = best.task.priority.rank ∧
          (candidate.attempts < best.attempts ∨ candidate.attempts = best.attempts ∧
            candidate.task.enqueueTimeNs < best.task.enqueueTimeNs) := by
    rw [rating, rating, Prod.Lex.toLex_lt_toLex, Prod.Lex.toLex_lt_toLex,
      OrderDual.toDual_lt_toDual, OrderDual.toDual_inj, UInt32.toNat_inj]
    exact Iff.rfl
  split_ifs with hrank hattempts
  · exact decide_eq_decide.mpr (hlt.trans (by simp [hrank]))
  · exact decide_eq_decide.mpr (hlt.trans (by simp [not_not.mp hrank, hattempts]))
  · exact decide_eq_decide.mpr (hlt.trans (by simp [not_not.mp hrank, not_not.mp hattempts]))

/-- A due task precedes one that is not, and otherwise the deadlines and ratings decide. -/
theorem replaces_eq (candidate best : TaskRecord) (horizon : UInt64) :
    candidate.replaces best horizon =
      if candidate.due horizon ≠ best.due horizon then candidate.due horizon
      else outranks deadline rating candidate best := by
  have hboth : (candidate.deadline ≠ ⊤ ∧ best.deadline ≠ ⊤ ∧ candidate.deadline ≠ best.deadline) ↔
      candidate.task.hasDeadline ∧ best.task.hasDeadline ∧
        candidate.task.deadlineNs ≠ best.task.deadlineNs := by
    rw [deadline_ne_top_iff, deadline_ne_top_iff]
    refine and_congr_right fun hcandidate => and_congr_right fun hbest => ?_
    simp [deadline, hcandidate, hbest, UInt64.toNat_inj]
  unfold replaces
  refine if_congr Iff.rfl rfl ?_
  unfold outranks
  rw [decide_rating_lt]
  by_cases htimed : candidate.task.hasDeadline ∧ best.task.hasDeadline ∧
      candidate.task.deadlineNs ≠ best.task.deadlineNs
  · rw [if_pos htimed, if_pos (hboth.mpr htimed)]
    simp [deadline, htimed.1, htimed.2.1, UInt64.lt_iff_toNat_lt]
  · rw [if_neg htimed, if_neg (mt hboth.mp htimed)]

/-- The record with another identifier in its task, which no comparison looks at. -/
def withId (record : TaskRecord) (id : SchedulerTaskId) : TaskRecord :=
  { record with task.id := id }

end TaskRecord

namespace RuntimeScheduler

/-! ## The selection is a champion -/

/-- The end of the fairness window. -/
def horizon (s : RuntimeScheduler) (nowNs : UInt64) : UInt64 :=
  nowNs + s.config.fairnessWindowNs

/-- The records that `select` considers: queued, ready and of a device with free burst. -/
def candidates (s : RuntimeScheduler) (nowNs : UInt64) : List TaskRecord :=
  s.tasks.values.filter (s.eligible nowNs)

/-- Whether one record precedes another at a time. -/
def precedes (s : RuntimeScheduler) (nowNs : UInt64) (candidate best : TaskRecord) : Bool :=
  candidate.replaces best (s.horizon nowNs)

/-- The selected record is the champion of the candidates. -/
theorem selected_eq_champion (s : RuntimeScheduler) (nowNs : UInt64) :
    (s.select nowNs).map Prod.snd = champion (s.precedes nowNs) (s.candidates nowNs) := by
  have hmap := champion_map (fun entry other => s.precedes nowNs entry.2 other.2)
    (s.precedes nowNs) Prod.snd (fun _ _ => rfl)
    (s.tasks.entries.filter fun entry => s.eligible nowNs entry.2)
  rw [select_eq_champion, candidates, SortedTable.values, List.filter_map]
  exact hmap

/-! ## Leases -/

/-- `lease_next` leases the task of the record and leaves it running. -/
def Leases (s : RuntimeScheduler) (nowNs : UInt64) (id : SchedulerTaskId) (record : TaskRecord) :
    Prop :=
  s.tasks.lookup id = some record ∧
    ∃ reason, s.leaseNext nowNs = (some ⟨record.task, reason, nowNs⟩, s.recordLease id record nowNs)

/-- A lease is what `select` selects: the table afterwards tells which record runs. -/
theorem leases_iff {s : RuntimeScheduler} {nowNs : UInt64} {id : SchedulerTaskId}
    {record : TaskRecord} : s.Leases nowNs id record ↔ s.select nowNs = some (id, record) := by
  constructor
  · rintro ⟨hlookup, reason, hlease⟩
    unfold leaseNext at hlease
    cases hselect : s.select nowNs with
    | none => simp [hselect] at hlease
    | some selected =>
        obtain ⟨other, held⟩ := selected
        rw [hselect] at hlease
        have hafter := congrArg (fun result => result.2.tasks.lookup id) hlease
        simp only [recordLease, SortedTable.lookup_insert, if_pos] at hafter
        by_cases hid : id = other
        · obtain rfl := hid
          rw [(select_some hselect).1] at hlookup
          rw [Option.some.inj hlookup]
        · -- the record under `id` would be as it was and running with one more note
          rw [if_neg hid, hlookup, Option.some.injEq] at hafter
          have hnotes := congrArg (fun record : TaskRecord => record.notes.length) hafter
          simp [TaskRecord.note] at hnotes
  · intro hselect
    refine ⟨(select_some hselect).1, s.pickReason record nowNs, ?_⟩
    rw [leaseNext, hselect]

/-! ## Other identifiers -/

/-- `s'` has the tasks of `s` under other identifiers, in any order. -/
structure Renumbered (s s' : RuntimeScheduler) : Prop where
  config : s'.config = s.config
  running : s'.runningByDevice = s.runningByDevice
  tasks : (s'.tasks.values.map (·.withId 0)).Perm (s.tasks.values.map (·.withId 0))
  ids : ∀ id record, s'.tasks.lookup id = some record → record.task.id = id

theorem Renumbered.eligible {s s' : RuntimeScheduler} (h : s.Renumbered s') (nowNs : UInt64) :
    s'.eligible nowNs = s.eligible nowNs := by
  funext record
  simp only [RuntimeScheduler.eligible, deviceBurstAvailable, h.config, h.running]

theorem Renumbered.precedes {s s' : RuntimeScheduler} (h : s.Renumbered s') (nowNs : UInt64) :
    s'.precedes nowNs = s.precedes nowNs := by
  funext candidate best
  rw [RuntimeScheduler.precedes, RuntimeScheduler.precedes, horizon, horizon, h.config]

/-- The candidates without their identifiers. -/
theorem candidates_without_ids (s : RuntimeScheduler) (nowNs : UInt64) :
    (s.candidates nowNs).map (·.withId 0) =
      (s.tasks.values.map (·.withId 0)).filter (s.eligible nowNs) := by
  rw [List.filter_map]
  rfl

theorem Renumbered.candidates {s s' : RuntimeScheduler} (h : s.Renumbered s') (nowNs : UInt64) :
    ((s'.candidates nowNs).map (·.withId 0)).Perm ((s.candidates nowNs).map (·.withId 0)) := by
  rw [candidates_without_ids, candidates_without_ids, h.eligible]
  exact h.tasks.filter _

/-- Every order of the records is that of some identifiers. -/
theorem exists_renumbered (s : RuntimeScheduler) {order : List TaskRecord}
    (horder : order.Perm s.tasks.values) :
    ∃ s', s.Renumbered s' ∧ s'.tasks.values.map (·.withId 0) = order.map (·.withId 0) := by
  have hlength : s.tasks.keys.length = order.length := by
    rw [horder.length_eq, SortedTable.keys, SortedTable.values, List.length_map, List.length_map]
  let records := (s.tasks.keys.zip order).map fun entry => (entry.1, entry.2.withId entry.1)
  have hkeys : records.map Prod.fst = s.tasks.keys := by
    rw [List.map_map]
    exact List.map_fst_zip hlength.le
  have hvalues : (records.map Prod.snd).map (·.withId 0) = order.map (·.withId 0) := by
    rw [List.map_map, List.map_map, ← List.map_snd_zip hlength.ge, List.map_map]
    rw [List.map_snd_zip hlength.ge]
    rfl
  have hsorted : records.Pairwise fun lhs rhs => lhs.1 < rhs.1 := by
    refine List.pairwise_map.mp (?_ : (records.map Prod.fst).Pairwise (· < ·))
    rw [hkeys]
    exact List.pairwise_map.mpr s.tasks.sorted
  refine ⟨{ s with tasks := ⟨records, hsorted⟩ }, ⟨rfl, rfl, ?_, ?_⟩, hvalues⟩
  · show ((records.map Prod.snd).map (·.withId 0)).Perm _
    rw [hvalues]
    exact horder.map _
  · intro id record hlookup
    obtain ⟨entry, -, heq⟩ := List.mem_map.mp (SortedTable.mem_entries_iff.mpr hlookup)
    obtain ⟨rfl, rfl⟩ := Prod.mk.inj heq
    rfl

/-! ## Best choices -/

/-- If there are candidates, one is leased that none precedes, and under other identifiers the one
leased ties with it. -/
structure PicksBest (s : RuntimeScheduler) (nowNs : UInt64) : Prop where
  best : s.candidates nowNs ≠ [] → ∃ id record, s.Leases nowNs id record ∧
    record ∈ s.candidates nowNs ∧ Unbeaten (s.precedes nowNs) (s.candidates nowNs) record
  independent : ∀ s', s.Renumbered s' → ∀ id record, s.Leases nowNs id record →
    ∃ id' record', s'.Leases nowNs id' record' ∧
      s.precedes nowNs record record' = false ∧ s.precedes nowNs record' record = false

/-- There is no candidate, or one of them is due, or the ratings do not work against the deadlines:
a task of the earliest deadline is before all tasks without one, or is not behind any with one, or a
task without deadline is before all with one. -/
def ChoiceSettled (s : RuntimeScheduler) (nowNs : UInt64) : Prop :=
  s.candidates nowNs = [] ∨ (∃ record ∈ s.candidates nowNs, record.due (s.horizon nowNs)) ∨
    Settled TaskRecord.deadline TaskRecord.rating (s.candidates nowNs)

variable {s : RuntimeScheduler} {nowNs : UInt64}

/-- A champion of the candidates is leased. -/
theorem exists_lease {last : TaskRecord}
    (h : champion (s.precedes nowNs) (s.candidates nowNs) = some last) :
    ∃ id, s.Leases nowNs id last := by
  rw [← selected_eq_champion] at h
  obtain ⟨⟨id, record⟩, hselect, rfl⟩ := Option.map_eq_some_iff.mp h
  exact ⟨id, leases_iff.mpr hselect⟩

theorem champion_of_leases {id : SchedulerTaskId} {record : TaskRecord}
    (h : s.Leases nowNs id record) :
    champion (s.precedes nowNs) (s.candidates nowNs) = some record := by
  rw [← selected_eq_champion, leases_iff.mp h]
  rfl

/-- The champion without its identifier is the champion of the candidates without theirs. -/
theorem champion_without_ids {records : List TaskRecord} {last : TaskRecord}
    (h : champion (s.precedes nowNs) records = some last) :
    champion (s.precedes nowNs) (records.map (·.withId 0)) = some (last.withId 0) := by
  have hmap : (champion (s.precedes nowNs) records).map (·.withId 0) =
      champion (s.precedes nowNs) (records.map (·.withId 0)) :=
    champion_map (s.precedes nowNs) (s.precedes nowNs) (·.withId 0) (fun _ _ => rfl) records
  rw [← hmap, h]
  rfl

/-- With a leader the choice is a best one. -/
theorem picks_best_of_leads {leader : TaskRecord}
    (h : Leads (s.precedes nowNs) (s.candidates nowNs) leader) : s.PicksBest nowNs where
  best hcandidates := by
    obtain ⟨last, hlast⟩ := exists_champion (s.precedes nowNs) hcandidates
    obtain ⟨id, hlease⟩ := exists_lease hlast
    exact ⟨id, last, hlease, champion_mem hlast, h.champion_unbeaten hlast⟩
  independent := by
    intro s' hs' id record hlease
    have hcandidates : s'.candidates nowNs ≠ [] := by
      have hlength := (hs'.candidates nowNs).length_eq
      rw [List.length_map, List.length_map] at hlength
      rw [← List.length_pos_iff_ne_nil, hlength]
      exact List.length_pos_of_mem h.mem
    obtain ⟨record', hlast'⟩ := exists_champion (s'.precedes nowNs) hcandidates
    obtain ⟨id', hlease'⟩ := exists_lease hlast'
    rw [hs'.precedes] at hlast'
    have hanonymous : Leads (s.precedes nowNs) ((s.candidates nowNs).map (·.withId 0))
        (leader.withId 0) := h.map fun _ _ => rfl
    have htie := hanonymous.champions_tie (.refl _) (hs'.candidates nowNs)
      (champion_without_ids (champion_of_leases hlease)) (champion_without_ids hlast')
    exact ⟨id', record', hlease', htie⟩

/-- With a due candidate, the due one of the earliest deadline and best rating leads. -/
theorem leader_of_due {record : TaskRecord} (hrecord : record ∈ s.candidates nowNs)
    (hdue : record.due (s.horizon nowNs) = true) :
    ∃ leader, Leads (s.precedes nowNs) (s.candidates nowNs) leader := by
  let dues := (s.candidates nowNs).filter (·.due (s.horizon nowNs))
  have hdues : ∀ other ∈ dues, other ∈ s.candidates nowNs ∧
      other.due (s.horizon nowNs) = true := fun other hother => List.mem_filter.mp hother
  have htimed : ∀ other ∈ dues, other.deadline ≠ ⊤ := fun other hother =>
    TaskRecord.deadline_ne_top_of_due (hdues other hother).2
  have hmem : record ∈ dues := List.mem_filter.mpr ⟨hrecord, hdue⟩
  obtain ⟨leader, hleader, hleast⟩ := exists_earliest TaskRecord.rating hmem
    (htimed record hmem)
  have hleads := hleader.leads hleast (fun other hother htop => absurd htop (htimed other hother))
    fun other hother htop => absurd htop (htimed other hother)
  obtain ⟨hleaderMem, hleaderDue⟩ := hdues leader hleader.mem
  -- among due records the deadline and the rating decide, and others do not precede them
  have hunbeaten : ∀ entry ∈ dues,
      Unbeaten (outranks TaskRecord.deadline TaskRecord.rating) dues entry →
        Unbeaten (s.precedes nowNs) (s.candidates nowNs) entry := by
    intro entry hentry hentryUnbeaten other hother
    rw [RuntimeScheduler.precedes, TaskRecord.replaces_eq, (hdues entry hentry).2]
    cases hotherDue : other.due (s.horizon nowNs) with
    | false => rfl
    | true =>
        rw [if_neg (not_not.mpr rfl)]
        exact hentryUnbeaten other (List.mem_filter.mpr ⟨hother, hotherDue⟩)
  refine ⟨leader, hleaderMem, hunbeaten leader hleader.mem hleads.unbeaten, fun entry hentry => ?_⟩
  cases hentryDue : entry.due (s.horizon nowNs) with
  | false =>
      left
      rw [RuntimeScheduler.precedes, TaskRecord.replaces_eq, hleaderDue, hentryDue]
      rfl
  | true =>
      have hentryMem : entry ∈ dues := List.mem_filter.mpr ⟨hentry, hentryDue⟩
      rw [RuntimeScheduler.precedes, TaskRecord.replaces_eq, hleaderDue, hentryDue,
        if_neg (not_not.mpr rfl)]
      exact (hleads.others entry hentryMem).imp_right (hunbeaten entry hentryMem)

/-- Without a due candidate the deadlines and ratings alone decide. -/
theorem precedes_of_not_due (hdue : ∀ record ∈ s.candidates nowNs,
      record.due (s.horizon nowNs) = false) :
    ∀ candidate ∈ s.candidates nowNs, ∀ best ∈ s.candidates nowNs,
      s.precedes nowNs candidate best =
        outranks TaskRecord.deadline TaskRecord.rating candidate best := by
  intro candidate hcandidate best hbest
  rw [RuntimeScheduler.precedes, TaskRecord.replaces_eq, hdue candidate hcandidate,
    hdue best hbest, if_neg (not_not.mpr rfl)]

/-- Every order of the candidates is that of some identifiers. -/
theorem exists_renumbered_candidates {order : List TaskRecord}
    (horder : order.Perm (s.candidates nowNs)) :
    ∃ s', s.Renumbered s' ∧
      (s'.candidates nowNs).map (·.withId 0) = order.map (·.withId 0) := by
  have hperm : (order ++ s.tasks.values.filter (fun record => !s.eligible nowNs record)).Perm
      s.tasks.values :=
    (horder.append_right _).trans (List.filter_append_perm (s.eligible nowNs) s.tasks.values)
  obtain ⟨s', hs', hvalues⟩ := s.exists_renumbered hperm
  refine ⟨s', hs', ?_⟩
  have heligible : ∀ record ∈ order, s.eligible nowNs record = true := fun record hrecord =>
    (List.mem_filter.mp (horder.mem_iff.mp hrecord)).2
  rw [candidates_without_ids, hs'.eligible, hvalues, List.filter_map, List.filter_append]
  show ((order.filter (s.eligible nowNs)) ++ ((s.tasks.values.filter
    fun record => !s.eligible nowNs record).filter (s.eligible nowNs))).map (·.withId 0) = _
  rw [List.filter_eq_self.mpr heligible, List.filter_filter]
  simp

/-- **Best choice.** A lease picks a task that no candidate precedes, up to ties the same whatever
the identifiers are, if and only if the choice is settled. -/
theorem picks_best_iff (s : RuntimeScheduler) (nowNs : UInt64) :
    s.PicksBest nowNs ↔ s.ChoiceSettled nowNs := by
  by_cases hdue : ∃ record ∈ s.candidates nowNs, record.due (s.horizon nowNs) = true
  · obtain ⟨record, hrecord, hdue⟩ := hdue
    obtain ⟨leader, hleader⟩ := leader_of_due hrecord hdue
    exact iff_of_true (picks_best_of_leads hleader) (.inr (.inl ⟨record, hrecord, hdue⟩))
  have hprecedes := precedes_of_not_due fun record hrecord =>
    Bool.eq_false_iff.mpr fun htrue => hdue ⟨record, hrecord, htrue⟩
  constructor
  · intro h
    by_contra hnot
    obtain ⟨hcandidates, -, hunsettled⟩ := not_or.mp hnot |>.imp_right not_or.mp
    obtain ⟨order, last, horder, hlast, hbeaten⟩ := order_of_not_settled hcandidates hunsettled
    obtain ⟨id, record, hlease, hmem, hunbeaten⟩ := h.best hcandidates
    obtain ⟨s', hs', hcandidates'⟩ := exists_renumbered_candidates horder
    obtain ⟨id', record', hlease', htie, -⟩ := h.independent s' hs' id record hlease
    have hlast' : champion (s.precedes nowNs) order = some last := by
      rw [← hlast]
      exact champion_congr fun entry hentry other hother =>
        hprecedes entry (horder.mem_iff.mp hentry) other (horder.mem_iff.mp hother)
    have hleased := champion_of_leases hlease'
    rw [hs'.precedes] at hleased
    have hsame := champion_without_ids hleased
    rw [hcandidates', champion_without_ids hlast', Option.some.injEq] at hsame
    have hover : s.precedes nowNs record last = true := by
      rw [hprecedes record hmem last (horder.mem_iff.mp (champion_mem hlast))]
      refine hbeaten record hmem fun other hother => ?_
      rw [← hprecedes other hother record hmem]
      exact hunbeaten other hother
    have hrecord' : s.precedes nowNs record record' = s.precedes nowNs record last := by
      show s.precedes nowNs record (record'.withId 0) = s.precedes nowNs record (last.withId 0)
      rw [hsame]
    rw [hrecord', hover] at htie
    cases htie
  · rintro (hnone | hsome | hsettled)
    · refine ⟨fun hcandidates => absurd hnone hcandidates, fun s' _ id record hlease => ?_⟩
      have hmem := champion_mem (champion_of_leases hlease)
      rw [hnone] at hmem
      cases hmem
    · exact absurd hsome hdue
    · obtain ⟨leader, hleader⟩ := leader_of_settled hsettled
      exact picks_best_of_leads (hleader.congr hprecedes)

/-- The scan holds the first task, which ties with the second and is preceded by the third. So the
task with the later deadline is leased, though it is preceded by the second one and that one is
preceded by none. -/
theorem later_deadline_leased :
    let first : SchedulerTask := {}
    let early : SchedulerTask := { deadlineNs := 10000000 }
    let late : SchedulerTask := { deadlineNs := 20000000, priority := .high }
    let s := Runs.run step {} [.enqueue first, .enqueue early, .enqueue late]
    (0 : UInt64).toNat + s.config.fairnessWindowNs.toNat < 2 ^ 64 ∧
      (s.leaseNext 0).1.map (·.task) = some { late with id := 3 } ∧
      (∃ record ∈ s.candidates 0, s.tasks.lookup 2 = some record ∧
        Unbeaten (s.precedes 0) (s.candidates 0) record) ∧
      ¬s.PicksBest 0 := by
  intro first early late s
  have hselect : (s.select 0).map Prod.fst = some 3 := by decide +kernel
  have hbeaten : ∀ record, s.tasks.lookup 3 = some record →
      ∃ other ∈ s.candidates 0, s.precedes 0 other record = true := by decide +kernel
  refine ⟨by decide +kernel, by decide +kernel, ?_, fun hbest => ?_⟩
  · show ∃ record ∈ s.candidates 0, s.tasks.lookup 2 = some record ∧
      ∀ other ∈ s.candidates 0, s.precedes 0 other record = false
    decide +kernel
  · obtain ⟨id, record, hlease, -, hunbeaten⟩ := hbest.best (by decide +kernel)
    rw [leases_iff.mp hlease] at hselect
    obtain rfl := Option.some.inj hselect
    obtain ⟨other, hother, hprecedes⟩ := hbeaten record hlease.1
    rw [hunbeaten other hother] at hprecedes
    cases hprecedes

/-! ## Several leases -/

/-- Every task carries the identifier of its entry. -/
def Keyed (tasks : SortedTable SchedulerTaskId TaskRecord) : Prop :=
  ∀ id record, tasks.lookup id = some record → record.task.id = id

/-- A record under its own id keeps the table keyed. -/
theorem Keyed.insert {tasks : SortedTable SchedulerTaskId TaskRecord} (h : Keyed tasks)
    {id : SchedulerTaskId} {record : TaskRecord} (hrecord : record.task.id = id) :
    Keyed (tasks.insert id record) := by
  intro other held hother
  rw [SortedTable.lookup_insert] at hother
  split_ifs at hother with hkey
  · rw [← Option.some.inj hother, hrecord, hkey]
  · exact h other held hother

/-- A lease keeps the table keyed. -/
theorem Keyed.lease_next {s : RuntimeScheduler} (h : Keyed s.tasks) (nowNs : UInt64) :
    Keyed (s.leaseNext nowNs).2.tasks := by
  unfold leaseNext
  cases hselect : s.select nowNs with
  | none => exact h
  | some entry => exact h.insert (h entry.1 entry.2 (select_some hselect).1)

/-- An operation keeps the table keyed. -/
theorem Keyed.step {s : RuntimeScheduler} (h : Keyed s.tasks) (op : SchedulerOp) :
    Keyed (s.step op).tasks := by
  cases op with
  | enqueue task =>
      show Keyed (s.enqueue task).2.tasks
      unfold enqueue
      split_ifs
      · exact h
      · exact h
      · exact h
      · exact h.insert rfl
  | leaseNext nowNs => exact h.lease_next nowNs
  | leaseMany nowNs maxCount =>
      exact @lease_many_invariant (fun s => Keyed s.tasks) nowNs
        (fun s hs => Keyed.lease_next hs nowNs) maxCount s h
  | complete completion =>
      show Keyed (s.complete completion).2.tasks
      unfold complete
      split
      · exact h
      · rename_i record hlookup
        have hput (record' : TaskRecord) (hsame : record'.task.id = record.task.id) :
            Keyed (s.tasks.insert completion.id record') :=
          h.insert (hsame.trans (h _ record hlookup))
        split_ifs
        · exact h
        all_goals exact hput _ rfl
  | cancel id note =>
      show Keyed (s.cancel id note).2.tasks
      unfold cancel
      split
      · exact h
      · rename_i record hlookup
        have hput (record' : TaskRecord) (hsame : record'.task.id = record.task.id) :
            Keyed (s.tasks.insert id record') :=
          h.insert (hsame.trans (h _ record hlookup))
        split_ifs
        · exact h
        all_goals exact hput _ rfl
  | expire nowNs =>
      refine expire_invariant (fun s => Keyed s.tasks) (fun expired s id hs => ?_) h
      unfold expireTask
      simp only
      split
      · exact hs
      · rename_i record hlookup
        split_ifs
        · exact hs
        · exact hs.insert (hs _ record hlookup)
        · exact hs
  | clearCompleted =>
      intro id record hlookup
      rw [RuntimeScheduler.step, clearCompleted, SortedTable.lookup_filter] at hlookup
      exact h id record (Option.filter_eq_some_iff.mp hlookup).1

/-- What `record_lease` makes of a record. -/
def leasedAt (nowNs : UInt64) (record : TaskRecord) : TaskRecord :=
  TaskRecord.note { record with
    state := .running
    lastLeaseTimeNs := nowNs
    attempts := record.attempts + 1 } "task leased"

/-- Whether a record is queued and ready. -/
def waits (nowNs : UInt64) (record : TaskRecord) : Bool :=
  record.state = .queued && record.task.readyTimeNs ≤ nowNs

/-- How many tasks of a device are queued and ready. -/
def waitingOf (s : RuntimeScheduler) (nowNs : UInt64) (device : DeviceId) : Nat :=
  s.tasks.count fun record => waits nowNs record && record.task.device = device

/-- How many more tasks of a device may run: a device on which nothing runs may always lease. -/
def roomOf (s : RuntimeScheduler) (device : DeviceId) : Nat :=
  max 1 s.config.perDeviceBurst - s.runningOf device

/-- What `lease_many` gives out, and what it leaves. -/
structure LeasesMost (s : RuntimeScheduler) (nowNs : UInt64) (maxCount : Nat)
    (leases : List SchedulerLease) (after : RuntimeScheduler) : Prop where
  atMost : leases.length ≤ maxCount
  waiting : ∀ device, after.waitingOf nowNs device +
    leases.countP (fun lease => lease.task.device = device) = s.waitingOf nowNs device
  room : ∀ device, after.roomOf device +
    leases.countP (fun lease => lease.task.device = device) = s.roomOf device
  exhausted : leases.length < maxCount →
    ∀ device, after.waitingOf nowNs device = 0 ∨ after.roomOf device = 0
  leased : ∀ lease ∈ leases, ∃ record, s.tasks.lookup lease.task.id = some record ∧
    waits nowNs record = true ∧ lease = ⟨record.task, s.pickReason record nowNs, nowNs⟩
  distinct : (leases.map fun lease => lease.task.id).Nodup
  table : ∀ id, after.tasks.lookup id =
    if id ∈ leases.map (fun lease => lease.task.id) then (s.tasks.lookup id).map (leasedAt nowNs)
    else s.tasks.lookup id
  urgent : leases.Pairwise fun earlier later => later.reason = .deadline →
    earlier.reason = .deadline ∧ earlier.task.deadlineNs ≤ later.task.deadlineNs
  left : ∀ id record, s.tasks.lookup id = some record → waits nowNs record = true →
    record.due (s.horizon nowNs) = true → id ∉ leases.map (fun lease => lease.task.id) →
    after.roomOf record.task.device = 0 ∨ leases.length = maxCount ∧ ∀ lease ∈ leases,
      lease.reason = .deadline ∧ lease.task.deadlineNs ≤ record.task.deadlineNs

/-- A device with room has free burst, and the other way round. -/
theorem Consistent.available_iff {n : Nat} (h : s.Consistent n) (device : DeviceId) :
    s.deviceBurstAvailable device = true ↔ 0 < s.roomOf device := by
  refine ⟨fun hroom => Nat.sub_pos_of_lt (h.room hroom), fun hroom => ?_⟩
  have hless : s.runningOf device < max 1 s.config.perDeviceBurst := by
    rw [roomOf] at hroom
    omega
  unfold deviceBurstAvailable
  rw [h.devices device]
  split_ifs with hzero
  · rfl
  · refine decide_eq_true ?_
    omega

theorem eligible_iff {n : Nat} (h : s.Consistent n) (record : TaskRecord) :
    s.eligible nowNs record = true ↔
      waits nowNs record = true ∧ 0 < s.roomOf record.task.device := by
  rw [eligible, waits, Bool.and_eq_true, h.available_iff]

/-- A deadline is the reason for a task that is due. -/
theorem pick_reason_eq_deadline_iff (s : RuntimeScheduler) (nowNs : UInt64) (record : TaskRecord) :
    s.pickReason record nowNs = .deadline ↔ record.due (s.horizon nowNs) = true := by
  have hdue : record.due (s.horizon nowNs) = true ↔ record.task.deadlineNs ≠ 0 ∧
      record.task.deadlineNs ≤ nowNs + s.config.fairnessWindowNs := by
    rw [TaskRecord.due, SchedulerTask.hasDeadline, Bool.and_eq_true, decide_eq_true_iff,
      decide_eq_true_iff]
    rfl
  rw [hdue, pickReason]
  split_ifs with hdeadline
  · exact iff_of_true rfl hdeadline
  · exact iff_of_false (by decide) hdeadline
  · exact iff_of_false (by decide) hdeadline
  · exact iff_of_false (by decide) hdeadline

/-- If a candidate is due, a due task is selected, and its deadline is not later. -/
theorem select_due {id : SchedulerTaskId} {selected record : TaskRecord}
    (hselect : s.select nowNs = some (id, selected)) (hrecord : record ∈ s.candidates nowNs)
    (hdue : record.due (s.horizon nowNs) = true) :
    selected.due (s.horizon nowNs) = true ∧
      selected.task.deadlineNs ≤ record.task.deadlineNs := by
  obtain ⟨leader, hleads⟩ := leader_of_due hrecord hdue
  have hbehind := hleads.champion_unbeaten (champion_of_leases (leases_iff.mpr hselect)) record
    hrecord
  rw [precedes, TaskRecord.replaces_eq, hdue] at hbehind
  cases hselected : selected.due (s.horizon nowNs) with
  | false =>
      rw [hselected] at hbehind
      cases hbehind
  | true =>
      refine ⟨rfl, ?_⟩
      rw [hselected, if_neg (not_not.mpr rfl), outranks] at hbehind
      have htimed := (Bool.and_eq_true_iff.mp hdue).1
      have hselectedTimed := (Bool.and_eq_true_iff.mp hselected).1
      rw [TaskRecord.deadline, TaskRecord.deadline, if_pos htimed, if_pos hselectedTimed] at hbehind
      by_contra hlater
      rw [UInt64.not_le, UInt64.lt_iff_toNat_lt] at hlater
      rw [if_pos ⟨WithTop.coe_ne_top, WithTop.coe_ne_top, by simpa using hlater.ne⟩,
        decide_eq_false_iff_not, WithTop.coe_lt_coe] at hbehind
      exact hbehind hlater

/-- Without a selected task there is none that waits for a device with room. -/
theorem exhausted_of_select {n : Nat} (h : s.Consistent n) (hselect : s.select nowNs = none)
    (device : DeviceId) : s.waitingOf nowNs device = 0 ∨ s.roomOf device = 0 := by
  by_contra hboth
  obtain ⟨hwaiting, hroom⟩ := not_or.mp hboth
  obtain ⟨record, hrecord, hwaits⟩ := List.countP_pos_iff.mp (Nat.pos_of_ne_zero hwaiting)
  rw [Bool.and_eq_true, decide_eq_true_iff] at hwaits
  have hcandidate : record ∈ s.candidates nowNs := List.mem_filter.mpr
    ⟨hrecord, (eligible_iff h record).mpr ⟨hwaits.1, hwaits.2 ▸ Nat.pos_of_ne_zero hroom⟩⟩
  obtain ⟨last, hlast⟩ := exists_champion (s.precedes nowNs) (List.ne_nil_of_mem hcandidate)
  rw [← selected_eq_champion, hselect] at hlast
  cases hlast

section Leased

variable {id : SchedulerTaskId} {record : TaskRecord}

theorem lookup_record_lease (s : RuntimeScheduler) (other : SchedulerTaskId) :
    (s.recordLease id record nowNs).tasks.lookup other =
      if other = id then some (leasedAt nowNs record) else s.tasks.lookup other :=
  SortedTable.lookup_insert ..

/-- A lease takes a waiting task and a slot of its device. -/
theorem lease_takes {n : Nat} (h : s.Consistent n)
    (hselect : s.select nowNs = some (id, record)) (device : DeviceId) :
    (s.recordLease id record nowNs).waitingOf nowNs device +
        (if record.task.device = device then 1 else 0) = s.waitingOf nowNs device ∧
      (s.recordLease id record nowNs).roomOf device +
        (if record.task.device = device then 1 else 0) = s.roomOf device := by
  obtain ⟨hlookup, heligible⟩ := select_some hselect
  obtain ⟨hwaits, hroom⟩ := (eligible_iff h record).mp heligible
  have hqueued : record.state = .queued := of_decide_eq_true (Bool.and_eq_true_iff.mp hwaits).1
  have hcount (kind : TaskRecord → Bool) : (s.recordLease id record nowNs).tasks.count kind +
      (if kind record then 1 else 0) =
        s.tasks.count kind + if kind (leasedAt nowNs record) then 1 else 0 := by
    have hinsert := s.tasks.count_insert id (leasedAt nowNs record) kind
    rwa [hlookup, Option.elim_some] at hinsert
  have hleft := hcount fun record => waits nowNs record && record.task.device = device
  have hrunning := hcount fun record => record.state = .running && record.task.device = device
  have hleased : waits nowNs (leasedAt nowNs record) = false := rfl
  rw [hleased, hwaits] at hleft
  simp only [Bool.true_and, Bool.false_and, decide_eq_true_iff, Bool.false_eq_true, if_false,
    Nat.add_zero] at hleft
  have hnow : (s.recordLease id record nowNs).runningOf device =
      s.runningOf device + if record.task.device = device then 1 else 0 := by
    simp only [hqueued, reduceCtorEq, decide_false, Bool.false_and, Bool.false_eq_true, if_false,
      Nat.add_zero] at hrunning
    exact hrunning.trans (congrArg _ (if_congr decide_eq_true_iff rfl rfl))
  refine ⟨hleft, ?_⟩
  show max 1 s.config.perDeviceBurst - (s.recordLease id record nowNs).runningOf device + _ = _
  rw [hnow]
  rw [roomOf] at hroom ⊢
  by_cases hdevice : record.task.device = device
  · rw [if_pos hdevice]
    rw [hdevice] at hroom
    omega
  · rw [if_neg hdevice]
    rfl

/-- What waits behind a lease has waited before it. -/
theorem waits_before {other : SchedulerTaskId} {held : TaskRecord}
    (hheld : (s.recordLease id record nowNs).tasks.lookup other = some held)
    (hwaits : waits nowNs held = true) : other ≠ id ∧ s.tasks.lookup other = some held := by
  rw [lookup_record_lease] at hheld
  split_ifs at hheld with hkey
  · rw [← Option.some.inj hheld] at hwaits
    cases hwaits
  · exact ⟨hkey, hheld⟩

/-- A due task that waits and has room is not overtaken. -/
theorem selected_before {n : Nat} (h : s.Consistent n)
    (hselect : s.select nowNs = some (id, record)) {other : SchedulerTaskId} {held : TaskRecord}
    (hheld : s.tasks.lookup other = some held) (hwaits : waits nowNs held = true)
    (hroom : 0 < s.roomOf held.task.device) (hdue : held.due (s.horizon nowNs) = true) :
    s.pickReason record nowNs = .deadline ∧ record.task.deadlineNs ≤ held.task.deadlineNs := by
  have hcandidate : held ∈ s.candidates nowNs := List.mem_filter.mpr
    ⟨SortedTable.mem_values_iff.mpr ⟨other, hheld⟩, (eligible_iff h held).mpr ⟨hwaits, hroom⟩⟩
  rw [pick_reason_eq_deadline_iff]
  exact select_due hselect hcandidate hdue

/-- A lease in front of a call of `lease_many`. -/
theorem LeasesMost.cons {n count : Nat} (h : s.Consistent n) (hkeyed : Keyed s.tasks)
    (hselect : s.select nowNs = some (id, record)) {leases : List SchedulerLease}
    {after : RuntimeScheduler}
    (hrest : LeasesMost (s.recordLease id record nowNs) nowNs count leases after) :
    LeasesMost s nowNs (count + 1) (⟨record.task, s.pickReason record nowNs, nowNs⟩ :: leases)
      after := by
  obtain ⟨hlookup, heligible⟩ := select_some hselect
  have hwaits := ((eligible_iff h record).mp heligible).1
  have hid := hkeyed id record hlookup
  have hcountP (device : DeviceId) :
      (⟨record.task, s.pickReason record nowNs, nowNs⟩ :: leases).countP
          (fun lease : SchedulerLease => lease.task.device = device) =
        leases.countP (fun lease => lease.task.device = device) +
          if record.task.device = device then 1 else 0 := by
    rw [List.countP_cons]
    exact congrArg _ (if_congr decide_eq_true_iff rfl rfl)
  have hleased : ∀ lease ∈ leases, lease.task.id ≠ id ∧ ∃ held,
      s.tasks.lookup lease.task.id = some held ∧ waits nowNs held = true ∧
        lease = ⟨held.task, s.pickReason held nowNs, nowNs⟩ := by
    intro lease hlease
    obtain ⟨held, hheld, hheldWaits, heq⟩ := hrest.leased lease hlease
    obtain ⟨hne, hbefore⟩ := waits_before hheld hheldWaits
    exact ⟨hne, held, hbefore, hheldWaits, heq⟩
  have hfresh : id ∉ leases.map fun lease => lease.task.id := by
    intro hmem
    obtain ⟨lease, hlease, heq⟩ := List.mem_map.mp hmem
    exact (hleased lease hlease).1 heq
  -- leases only take room, so what has room later has room now
  have hroomier (device : DeviceId) (hroom : 0 < (s.recordLease id record nowNs).roomOf device) :
      0 < s.roomOf device := by
    have htakes := (lease_takes h hselect device).2
    omega
  refine ⟨Nat.succ_le_succ hrest.atMost, fun device => ?_, fun device => ?_, fun hshort =>
    hrest.exhausted (Nat.lt_of_succ_lt_succ hshort), ?_, ?_, fun other => ?_, ?_, ?_⟩
  · rw [hcountP, ← Nat.add_assoc, hrest.waiting device]
    exact (lease_takes h hselect device).1
  · rw [hcountP, ← Nat.add_assoc, hrest.room device]
    exact (lease_takes h hselect device).2
  · rw [List.forall_mem_cons]
    exact ⟨⟨record, hid.symm ▸ hlookup, hwaits, rfl⟩, fun lease hlease => (hleased lease hlease).2⟩
  · rw [List.map_cons, List.nodup_cons]
    exact ⟨by rw [hid]; exact hfresh, hrest.distinct⟩
  · have hmem : other ∈ (⟨record.task, s.pickReason record nowNs, nowNs⟩ :: leases).map
        (fun lease : SchedulerLease => lease.task.id) ↔
          other = id ∨ other ∈ leases.map fun lease => lease.task.id := by
      rw [List.map_cons, List.mem_cons, hid]
    refine (hrest.table other).trans (Eq.trans ?_ (if_congr hmem rfl rfl).symm)
    rw [lookup_record_lease]
    by_cases hkey : other = id
    · rw [hkey, if_neg hfresh, if_pos rfl, if_pos (Or.inl rfl), hlookup, Option.map_some]
    · rw [if_neg hkey]
      exact if_congr (or_iff_right hkey).symm rfl rfl
  · refine List.pairwise_cons.mpr ⟨fun lease hlease hreason => ?_, hrest.urgent⟩
    obtain ⟨-, held, hheld, hheldWaits, rfl⟩ := hleased lease hlease
    have hslot : 0 < (s.recordLease id record nowNs).roomOf held.task.device := by
      rw [← hrest.room]
      exact Nat.add_pos_right _ (List.countP_pos_iff.mpr ⟨_, hlease, decide_eq_true rfl⟩)
    exact selected_before h hselect hheld hheldWaits (hroomier _ hslot)
      ((pick_reason_eq_deadline_iff s nowNs held).mp hreason)
  · intro other held hheld hheldWaits hdue hnot
    rw [List.map_cons, List.mem_cons, not_or, hid] at hnot
    obtain ⟨hne, hnot⟩ := hnot
    have hstays : (s.recordLease id record nowNs).tasks.lookup other = some held := by
      rw [lookup_record_lease, if_neg hne, hheld]
    rcases hrest.left other held hstays hheldWaits hdue hnot with hfull | ⟨hlength, hall⟩
    · exact Or.inl hfull
    · rcases Nat.eq_zero_or_pos (after.roomOf held.task.device) with hfull | hroom
      · exact Or.inl hfull
      · have hslot : 0 < (s.recordLease id record nowNs).roomOf held.task.device := by
          rw [← hrest.room]
          exact Nat.add_pos_left hroom _
        refine Or.inr ⟨congrArg (· + 1) hlength, List.forall_mem_cons.mpr ⟨?_, hall⟩⟩
        exact selected_before h hselect hheld hheldWaits (hroomier _ hslot) hdue

end Leased

/-- Without a lease everything stays as it is. -/
theorem leases_most_nil {count : Nat}
    (hexhausted : 0 < count → ∀ device, s.waitingOf nowNs device = 0 ∨ s.roomOf device = 0) :
    LeasesMost s nowNs count [] s where
  atMost := Nat.zero_le count
  waiting _ := rfl
  room _ := rfl
  exhausted := hexhausted
  leased := List.forall_mem_nil _
  distinct := List.nodup_nil
  table _ := (if_neg List.not_mem_nil).symm
  urgent := List.Pairwise.nil
  left id record hlookup hwaits _ _ := by
    rcases Nat.eq_zero_or_pos count with hzero | hpos
    · exact Or.inr ⟨hzero.symm, List.forall_mem_nil _⟩
    · refine Or.inl ((hexhausted hpos record.task.device).resolve_left ?_)
      refine (List.countP_pos_iff.mpr
        ⟨record, SortedTable.mem_values_iff.mpr ⟨id, hlookup⟩, ?_⟩).ne'
      rw [hwaits]
      exact decide_eq_true rfl

theorem lease_next_of_select {id : SchedulerTaskId} {record : TaskRecord}
    (hselect : s.select nowNs = some (id, record)) :
    s.leaseNext nowNs = (some ⟨record.task, s.pickReason record nowNs, nowNs⟩,
      s.recordLease id record nowNs) := by
  rw [leaseNext, hselect]

theorem lease_many_of_select_none (hselect : s.select nowNs = none) (count : Nat) :
    s.leaseMany nowNs (count + 1) = ([], s) := by
  have hnext : s.leaseNext nowNs = (none, s) := by rw [leaseNext, hselect]
  simp only [leaseMany, hnext]

/-- The selected task is leased first, and the others behind it. -/
theorem lease_many_of_select {id : SchedulerTaskId} {record : TaskRecord}
    (hselect : s.select nowNs = some (id, record)) (count : Nat) :
    s.leaseMany nowNs (count + 1) =
      (⟨record.task, s.pickReason record nowNs, nowNs⟩ ::
          ((s.recordLease id record nowNs).leaseMany nowNs count).1,
        ((s.recordLease id record nowNs).leaseMany nowNs count).2) := by
  simp only [leaseMany, lease_next_of_select hselect]

/-- Many leases give out what is waiting, as far as the count and the rooms allow. -/
theorem leases_most {n : Nat} (h : s.Consistent n) (hkeyed : Keyed s.tasks) (count : Nat) :
    LeasesMost s nowNs count (s.leaseMany nowNs count).1 (s.leaseMany nowNs count).2 := by
  induction count generalizing s with
  | zero => exact leases_most_nil fun hpos => absurd hpos (Nat.lt_irrefl 0)
  | succ count ih =>
      rcases hselect : s.select nowNs with _ | ⟨id, record⟩
      · rw [lease_many_of_select_none hselect]
        exact leases_most_nil fun _ => exhausted_of_select h hselect
      · have hnext := lease_next_of_select hselect
        have hafter : (s.recordLease id record nowNs).Consistent n := by
          rcases s.lease_next_cases nowNs with hsame | ⟨_, hmoved⟩
          · rw [hnext] at hsame
            rw [show s.recordLease id record nowNs = s from hsame]
            exact h
          · rw [hnext] at hmoved
            exact h.moved hmoved
        have hkeyedAfter := hkeyed.lease_next nowNs
        rw [hnext] at hkeyedAfter
        rw [lease_many_of_select hselect]
        exact (ih hafter hkeyedAfter).cons h hkeyed hselect

/-- **A round of leases.** After any calls in which the identifier counter does not wrap,
`lease_many`, where a vector may have `max_count` elements, leases different tasks that wait, and
moves them and no other task. Unless it reaches `max_count`, afterwards no device has both a waiting
task and room. The leases for a deadline come first, in the order of the deadlines, and a due task
is left out only if its device is full, or for `max_count` leases of deadlines that are not later.
-/
theorem lease_many_exact (config : SchedulerConfig) (ops : List SchedulerOp)
    (hwrap : Runs.Along step CounterKept { config := config } ops) (nowNs : UInt64)
    (maxCount : Nat) :
    let s := Runs.run step { config := config } ops
    LeasesMost s nowNs maxCount (s.leaseMany nowNs maxCount).1 (s.leaseMany nowNs maxCount).2 := by
  intro s
  have hkeyed : Keyed s.tasks :=
    @Runs.run_invariant _ _ step (fun s => Keyed s.tasks) (fun _ op hs => hs.step op) _
      (fun _ _ hnone => by cases hnone) ops
  exact leases_most ((consistent_init config).run ops hwrap) hkeyed maxCount

/-- Two tasks of one device of which one may run, and a task of another device that is due. -/
theorem lease_many_of_two_devices :
    let ops : List SchedulerOp := [.enqueue { device := 7 }, .enqueue { device := 7 },
      .enqueue { device := 8, deadlineNs := 30 }]
    let s := Runs.run step { config := { perDeviceBurst := 1 } } ops
    LeasesMost s 10 5 (s.leaseMany 10 5).1 (s.leaseMany 10 5).2 :=
  lease_many_exact { perDeviceBurst := 1 } _ (by decide +kernel) 10 5

end RuntimeScheduler

end Aethon.Runtime
