import Aethon.Storage.RotationLimits

/-!
# The shards of a plan

The loop of `plan_archive_rotation` cuts the records into greedy blocks: `plan_records_shards` says
that the shards of the plan are the blocks, each with its counters and the output of its number.
-/

namespace Aethon.Storage

open GreedyBlocks

/-- A boundary is put in front of a record. -/
def blocked (policy : RotationPolicy) (records : List RotationRecordProjection)
    (record : RotationRecordProjection) : Bool :=
  (boundaryReason policy (shardOf records) record).isSome

/-- A shard without its reason, which is another one when it is begun and when it is closed. -/
def RotationShard.unreasoned (shard : RotationShard) : RotationShard :=
  { shard with reason := .none }

/-- The shard of a block. -/
def shardFor (policy : RotationPolicy) (directory : Path) (index : Nat)
    (block : List RotationRecordProjection) : RotationShard :=
  { shardOf block with outputPath := rotationOutputPath policy directory (UInt64.ofNat index) }

theorem unreasoned_append_record (shard : RotationShard) (record : RotationRecordProjection) :
    (appendRecord shard record).unreasoned = appendRecord shard.unreasoned record := by
  by_cases h : shard.recordCount = 0
  · simp [appendRecord, RotationShard.unreasoned, h]
  · simp [appendRecord, RotationShard.unreasoned, h]

/-- One more record in a block is one more record in its output. -/
theorem shardFor_concat (policy : RotationPolicy) (directory : Path) (index : Nat)
    (block : List RotationRecordProjection) (record : RotationRecordProjection) :
    shardFor policy directory index (block ++ [record]) =
      appendRecord (shardFor policy directory index block) record := by
  by_cases h : (shardOf block).recordCount = 0
  · simp [shardFor, shardOf_concat, appendRecord, h]
  · simp [shardFor, shardOf_concat, appendRecord, h]

/-- An output counts its records. -/
theorem record_count_shardOf (records : List RotationRecordProjection) :
    (shardOf records).recordCount = UInt64.ofNat records.length := by
  induction records using List.reverseRecOn with
  | nil => rfl
  | append_singleton records record ih =>
      have hstep : (appendRecord (shardOf records) record).recordCount =
          (shardOf records).recordCount + 1 := by
        unfold appendRecord
        split <;> rfl
      rw [shardOf_concat, hstep, ih, List.length_append, List.length_singleton, UInt64.ofNat_add]
      rfl

/-- The loop, which began with a plan without shards, has closed the shards of some blocks, and
fills the shard of another one. -/
structure Filling (base : RotationPlan) (directory : Path) (loop : RotationLoop)
    (done : List (List RotationRecordProjection)) (current : List RotationRecordProjection) :
    Prop where
  policy : loop.plan.policy = base.policy
  inputRecords : loop.plan.inputRecords = base.inputRecords
  skippedRecords : loop.plan.skippedRecords = base.skippedRecords
  shards : loop.plan.shards.map RotationShard.unreasoned =
    done.mapIdx (shardFor base.policy directory)
  filled : loop.current.shard.unreasoned = shardFor base.policy directory done.length current
  hasRecords : loop.current.hasRecords = true ↔ current ≠ []
  index : loop.shardIndex = UInt64.ofNat done.length
  outputRecords : loop.plan.outputRecords = UInt64.ofNat done.flatten.length

namespace Filling

variable {base : RotationPlan} {directory : Path} {loop : RotationLoop}
  {done : List (List RotationRecordProjection)} {current : List RotationRecordProjection}

/-- The reason for a boundary depends on the counters of the shard alone. -/
theorem boundary (h : Filling base directory loop done current)
    (record : RotationRecordProjection) :
    boundaryReason base.policy loop.current.shard record =
      boundaryReason base.policy (shardOf current) record := by
  show boundaryReason base.policy loop.current.shard.unreasoned record = _
  rw [h.filled]
  rfl

/-- A record for which there is room is put at the end of the current block. -/
theorem place_of_room (h : Filling base directory loop done current)
    {record : RotationRecordProjection} (hroom : blocked base.policy current record = false) :
    Filling base directory (loop.place directory record) done (current ++ [record]) := by
  have hnone : boundaryReason loop.plan.policy loop.current.shard record = none := by
    rw [h.policy, h.boundary]
    simpa [blocked] using hroom
  simp only [RotationLoop.place, hnone]
  exact
    { policy := h.policy
      inputRecords := h.inputRecords
      skippedRecords := h.skippedRecords
      shards := h.shards
      filled := by rw [unreasoned_append_record, h.filled, shardFor_concat]
      hasRecords := iff_of_true rfl (List.append_ne_nil_of_right_ne_nil _ (List.cons_ne_nil _ _))
      index := h.index
      outputRecords := h.outputRecords }

/-- Closing a block that has records, or that is kept without. -/
theorem close (h : Filling base directory loop done current)
    (hkept : current ≠ [] ∨ base.policy.keepEmptyArchives = true) (reason : RotationReason) :
    let plan := (closeCurrentShard loop.plan loop.current reason).1
    plan.policy = base.policy ∧
      plan.shards.map RotationShard.unreasoned =
        (done ++ [current]).mapIdx (shardFor base.policy directory) ∧
      plan.outputRecords = UInt64.ofNat (done ++ [current]).flatten.length ∧
      plan.inputRecords = base.inputRecords ∧ plan.skippedRecords = base.skippedRecords := by
  have hkeeps :
      ¬ (loop.current.hasRecords = false ∧ loop.plan.policy.keepEmptyArchives = false) := by
    rw [h.policy, ← Bool.not_eq_true, h.hasRecords, not_not]
    intro hdropped
    rcases hkept with hrecords | hkeep
    · exact hrecords hdropped.1
    · rw [hdropped.2] at hkeep
      cases hkeep
  have hcount : loop.current.shard.recordCount = UInt64.ofNat current.length := by
    show loop.current.shard.unreasoned.recordCount = _
    rw [h.filled]
    exact record_count_shardOf current
  simp only [closeCurrentShard, if_neg hkeeps]
  refine ⟨h.policy, ?_, ?_, h.inputRecords, h.skippedRecords⟩
  · rw [List.map_append, h.shards, List.mapIdx_concat, ← h.filled]
    rfl
  · rw [h.outputRecords, hcount, List.flatten_append, List.length_append, UInt64.ofNat_add]
    simp

/-- A record that is blocked begins another block. -/
theorem place_of_blocked (h : Filling base directory loop done current)
    {record : RotationRecordProjection} (hblocked : blocked base.policy current record = true) :
    Filling base directory (loop.place directory record) (done ++ [current]) [record] := by
  obtain ⟨reason, hreason⟩ := Option.isSome_iff_exists.mp hblocked
  have hsome : boundaryReason loop.plan.policy loop.current.shard record = some reason := by
    rw [h.policy, h.boundary, hreason]
  have hcurrent : current ≠ [] := by
    rintro rfl
    cases hreason
  obtain ⟨hpolicy, hshards, houtput, hinput, hskipped⟩ := h.close (Or.inl hcurrent) reason
  simp only [RotationLoop.place, hsome, startShard]
  exact
    { policy := hpolicy
      inputRecords := hinput
      skippedRecords := hskipped
      shards := hshards
      filled := by
        have hnext : UInt64.ofNat (done ++ [current]).length = loop.shardIndex + 1 := by
          rw [h.index, List.length_append, List.length_singleton, UInt64.ofNat_add]
          rfl
        rw [unreasoned_append_record, ← List.nil_append [record], shardFor_concat, shardFor, hnext,
          h.policy]
        rfl
      hasRecords := iff_of_true rfl (List.cons_ne_nil _ _)
      index := by rw [h.index, List.length_append, List.length_singleton, UInt64.ofNat_add]; rfl
      outputRecords := houtput }

/-- The loop goes on with the greedy blocks. -/
theorem run (h : Filling base directory loop done current)
    (records : List RotationRecordProjection) :
    ∃ done' current', Filling base directory
        (records.foldl (RotationLoop.place directory) loop) done' current' ∧
      done' ++ [current'] = done ++ split (blocked base.policy) current records := by
  induction records generalizing loop done current with
  | nil => exact ⟨done, current, h, rfl⟩
  | cons record records ih =>
      rw [List.foldl_cons]
      unfold split
      by_cases hblocked : blocked base.policy current record = true
      · obtain ⟨done', current', hfilling, hblocks⟩ := ih (h.place_of_blocked hblocked)
        refine ⟨done', current', hfilling, ?_⟩
        rw [hblocks, if_pos hblocked, List.append_assoc]
        rfl
      · obtain ⟨done', current', hfilling, hblocks⟩ :=
          ih (h.place_of_room (Bool.eq_false_iff.mpr hblocked))
        exact ⟨done', current', hfilling, by rw [hblocks, if_neg hblocked]⟩

end Filling

/-- A shard is begun by a record, so none is empty when there are records. -/
theorem ne_nil_of_mem_blocks {policy : RotationPolicy} {records : List RotationRecordProjection}
    (h : records ≠ []) : ∀ block ∈ split (blocked policy) [] records, block ≠ [] := by
  obtain ⟨first, rest, rfl⟩ := List.exists_cons_of_ne_nil h
  -- the first record is never blocked
  show ∀ block ∈ split (blocked policy) [first] rest, block ≠ []
  exact ne_nil_of_mem_split (List.cons_ne_nil first [])

/-- The plan for records, or for none when an empty archive is kept, has one shard for each greedy
block. -/
theorem plan_records_shards {plan : RotationPlan} (directory : Path)
    {records : List RotationRecordProjection} (hshards : plan.shards = [])
    (houtput : plan.outputRecords = 0)
    (hkept : records ≠ [] ∨ plan.policy.keepEmptyArchives = true) :
    let planned := planRecords plan directory records
    planned.policy = plan.policy ∧
      planned.shards.map RotationShard.unreasoned =
        (split (blocked plan.policy) [] records).mapIdx (shardFor plan.policy directory) ∧
      planned.outputRecords = UInt64.ofNat records.length ∧
      planned.inputRecords = plan.inputRecords ∧
      planned.skippedRecords = plan.skippedRecords := by
  let started := startShard plan.policy directory 0 .none plan
  let begun : RotationLoop := { plan := started.1, current := started.2 }
  have hbegun : Filling plan directory begun [] [] :=
    { policy := rfl
      inputRecords := rfl
      skippedRecords := rfl
      shards := congrArg (List.map _) hshards
      filled := rfl
      hasRecords := iff_of_false Bool.false_ne_true (fun h => h rfl)
      index := rfl
      outputRecords := houtput }
  obtain ⟨done, current, hfilling, hblocks⟩ := hbegun.run records
  rw [List.nil_append] at hblocks
  have hcurrent : current ≠ [] ∨ plan.policy.keepEmptyArchives = true := by
    have hmem : current ∈ split (blocked plan.policy) [] records := by
      rw [← hblocks]
      exact List.mem_append_right _ (List.mem_singleton_self current)
    exact hkept.imp_left fun hrecords => ne_nil_of_mem_blocks hrecords current hmem
  have hclosed := hfilling.close hcurrent .none
  rw [hblocks, flatten_split] at hclosed
  exact hclosed

end Aethon.Storage
