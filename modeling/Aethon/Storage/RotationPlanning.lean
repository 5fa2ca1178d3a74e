import Mathlib.Algebra.Order.BigOperators.Group.List
import Mathlib.Algebra.Order.Group.Nat
import Aethon.Storage.RotationInputs
import Aethon.Storage.RotationShards

/-!
# Plans are valid and tight

`rotation_plan_spec` says what a plan for readable archives is: its shards hold the records of all
inputs in the order of the sort, `validate_rotation_plan` has no warning, shards of more than one
record are within the limits, and no shard could have held one more record.
-/

namespace Aethon.Storage

open FileSystem Codec Protocol Parsing GreedyBlocks

/-! ## Output paths -/

/-- Numbers with the same digits are the same. -/
theorem padded_injective {n m : UInt64} (h : padded n = padded m) : n = m := by
  have hvalue : ∀ k, Nat.ofDigitChars 10 (padded k) 0 = k.toNat := by
    intro k
    rw [padded, Nat.ofDigitChars_append, Nat.ofDigitChars_replicate_zero, Nat.mul_zero,
      Nat.ofDigitChars_ten_toDigits]
  apply UInt64.toNat.inj
  rw [← hvalue n, ← hvalue m, h]

theorem format_shard_name_injective {policy : RotationPolicy} {n m : UInt64}
    (h : formatShardName policy n = formatShardName policy m) : n = m := by
  apply padded_injective
  have hchars := congrArg String.toList h
  simpa [formatShardName, String.toList_append] using hchars

/-- Different shards of a plan have different outputs. -/
theorem rotation_output_path_injective {policy : RotationPolicy} {directory : Path} {n m : UInt64}
    (h : rotationOutputPath policy directory n = rotationOutputPath policy directory m) :
    n = m := by
  have habsolute : ∀ k, (Path.mk (formatShardName policy k)).isAbsolute =
      decide ((policy.outputPrefix.toList ++ ['_']).head? = some '/') := by
    intro k
    simp [Path.isAbsolute, Path.chars, formatShardName, String.toList_append]
  have hname := Path.append_injective ((habsolute n).trans (habsolute m).symm) h
  exact format_shard_name_injective (congrArg Path.string hname)

theorem rotation_output_path_not_empty (policy : RotationPolicy) (directory : Path) (n : UInt64) :
    (rotationOutputPath policy directory n).empty = false := by
  refine Path.append_not_empty (Or.inr (Path.empty_eq_false_iff.mpr ?_))
  simp [Path.chars, formatShardName, String.toList_append]

/-! ## Validation -/

/-- A shard that `validate_rotation_plan` has nothing against. -/
structure RotationShard.Sound (policy : RotationPolicy) (shard : RotationShard) : Prop where
  outputPath : shard.outputPath.empty = false
  recordCount : shard.recordCount = UInt64.ofNat shard.records.length
  kept : shard.recordCount = 0 → policy.keepEmptyArchives = true
  times : shard.recordCount ≠ 0 → shard.firstTimeNs ≤ shard.lastTimeNs

/-- A sound shard with an output of its own is counted without a warning. -/
theorem check_sound_shard {policy : RotationPolicy} {shard : RotationShard}
    (h : shard.Sound policy) {checked : RotationCheck}
    (hnew : shard.outputPath.string ∉ checked.outputs) : checked.check policy shard =
      { checked with
        outputs := shard.outputPath.string :: checked.outputs
        countedRecords := checked.countedRecords + shard.recordCount } := by
  have hcount : ¬ shard.recordCount ≠ UInt64.ofNat shard.records.length :=
    not_not.mpr h.recordCount
  have hempty : ¬ (shard.recordCount = 0 ∧ policy.keepEmptyArchives = false) := by
    intro hdropped
    rw [h.kept hdropped.1] at hdropped
    cases hdropped.2
  have htimes : ¬ (shard.recordCount ≠ 0 ∧ shard.firstTimeNs > shard.lastTimeNs) :=
    fun hinverted => UInt64.not_lt.mpr (h.times hinverted.1) hinverted.2
  have houtput : ¬ shard.outputPath.empty = true := by
    rw [h.outputPath]
    exact Bool.false_ne_true
  simp only [RotationCheck.check, warn_if_eq_nil_iff.mpr houtput, warn_if_eq_nil_iff.mpr hnew,
    warn_if_eq_nil_iff.mpr hcount, warn_if_eq_nil_iff.mpr hempty, warn_if_eq_nil_iff.mpr htimes,
    List.append_nil]

/-- So are sound shards with different outputs. -/
theorem check_sound_shards {policy : RotationPolicy} {shards : List RotationShard}
    (hsound : ∀ shard ∈ shards, shard.Sound policy)
    (houtputs : (shards.map RotationShard.outputPath).Nodup) :
    shards.foldl (RotationCheck.check policy) {} =
      { outputs := (shards.map fun shard => shard.outputPath.string).reverse
        countedRecords := UInt64.ofNat (shards.map RotationShard.records).flatten.length } := by
  induction shards using List.reverseRecOn with
  | nil => rfl
  | append_singleton shards shard ih =>
      rw [List.map_append, List.nodup_append] at houtputs
      have hshard := hsound shard (List.mem_append_right _ (List.mem_singleton_self shard))
      have hnew : shard.outputPath.string ∉
          (shards.map fun shard => shard.outputPath.string).reverse := by
        intro hmem
        obtain ⟨other, hother, hstring⟩ := List.mem_map.mp (List.mem_reverse.mp hmem)
        exact houtputs.2.2 _ (List.mem_map_of_mem hother) _ (List.mem_singleton_self _)
          (congrArg Path.mk hstring)
      rw [List.foldl_append, ih (fun other hother => hsound other (List.mem_append_left _ hother))
        houtputs.1, List.foldl_cons, List.foldl_nil, check_sound_shard hshard hnew,
        hshard.recordCount, ← UInt64.ofNat_add, List.map_append, List.reverse_append,
        List.map_append, List.flatten_append, List.length_append]
      simp

/-- A plan of sound shards with different outputs that counts its records passes validation. -/
theorem validate_of_sound {plan : RotationPlan}
    (hsound : ∀ shard ∈ plan.shards, shard.Sound plan.policy)
    (houtputs : (plan.shards.map RotationShard.outputPath).Nodup)
    (hcount : plan.outputRecords =
      UInt64.ofNat (plan.shards.map RotationShard.records).flatten.length)
    (htotal : plan.outputRecords + plan.skippedRecords = plan.inputRecords) :
    validateRotationPlan plan = [] := by
  rw [validateRotationPlan, check_sound_shards hsound houtputs]
  simp only [List.nil_append, List.append_eq_nil_iff, warn_if_eq_nil_iff, not_not]
  exact ⟨hcount.symm, htotal⟩

/-- The check has seen the path of every output. -/
theorem outputs_of_check (policy : RotationPolicy) (shards : List RotationShard) :
    (shards.foldl (RotationCheck.check policy) {}).outputs =
      (shards.map fun shard => shard.outputPath.string).reverse := by
  induction shards using List.reverseRecOn with
  | nil => rfl
  | append_singleton shards shard ih =>
      rw [List.foldl_append, List.map_append, List.reverse_append, ← ih]
      rfl

/-- The shards of a plan that passes validation have different outputs. -/
theorem outputs_of_valid {plan : RotationPlan} (h : validateRotationPlan plan = []) :
    (plan.shards.map RotationShard.outputPath).Nodup := by
  simp only [validateRotationPlan, List.append_eq_nil_iff] at h
  have hwarnings := h.1.1
  generalize plan.shards = shards at hwarnings
  induction shards using List.reverseRecOn with
  | nil => exact List.nodup_nil
  | append_singleton shards shard ih =>
      rw [List.foldl_append] at hwarnings
      simp only [List.foldl_cons, List.foldl_nil, RotationCheck.check, List.append_eq_nil_iff,
        warn_if_eq_nil_iff, outputs_of_check, List.mem_reverse] at hwarnings
      rw [List.map_append, List.nodup_append]
      refine ⟨ih hwarnings.1.1.1.1.1, List.nodup_singleton _, ?_⟩
      intro path hpath other hother hsame
      rw [List.mem_singleton.mp hother] at hsame
      obtain ⟨earlier, hearlier, rfl⟩ := List.mem_map.mp hpath
      exact hwarnings.1.1.1.2 (List.mem_map.mpr ⟨earlier, hearlier, congrArg Path.string hsame⟩)

/-! ## The shards of blocks -/

@[simp] theorem records_shardOf (records : List RotationRecordProjection) :
    (shardOf records).records = records := by
  induction records using List.reverseRecOn with
  | nil => rfl
  | append_singleton records record ih =>
      have hstep : (appendRecord (shardOf records) record).records =
          (shardOf records).records ++ [record] := by
        unfold appendRecord
        split <;> rfl
      rw [shardOf_concat, hstep, ih]

/-- The shard of a block whose records are in order is sound. -/
theorem sound_shardFor {policy : RotationPolicy} {block : List RotationRecordProjection}
    (hsorted : InOrder (block.map RotationRecordProjection.captureTimeNs))
    (hsize : estimatedTotal block < 2 ^ 64)
    (hkept : block ≠ [] ∨ policy.keepEmptyArchives = true) (directory : Path) (index : Nat) :
    (shardFor policy directory index block).Sound policy := by
  have hcounts := shard_of_counts hsorted hsize
  refine ⟨rotation_output_path_not_empty .., ?_, ?_, ?_⟩
  · show (shardOf block).recordCount = UInt64.ofNat (shardOf block).records.length
    rw [records_shardOf, record_count_shardOf]
  · intro hzero
    refine hkept.resolve_left fun hnonempty => hnonempty ?_
    have hcount := hcounts.count
    rw [show (shardOf block).recordCount = 0 from hzero] at hcount
    exact List.length_eq_zero_iff.mp hcount.symm
  · intro hnonzero
    show (shardOf block).firstTimeNs ≤ (shardOf block).lastTimeNs
    rcases block.eq_nil_or_concat' with rfl | ⟨front, last, rfl⟩
    · exact absurd rfl hnonzero
    · have hle := times_le_of_in_order hsorted
      rw [hcounts.last last List.getLast?_concat]
      rcases front with _ | ⟨first, front⟩
      · rw [hcounts.first last rfl]
        exact UInt64.le_refl _
      · rw [hcounts.first first rfl]
        exact hle first List.mem_cons_self

section Shards

variable {policy : RotationPolicy} {directory : Path} {shards : List RotationShard}
  {blocks : List (List RotationRecordProjection)}

/-- Shards hold the records of their blocks. -/
theorem records_of_blocks (h : shards.map RotationShard.unreasoned =
    blocks.mapIdx (shardFor policy directory)) : shards.map RotationShard.records = blocks := by
  have hrecords : shards.map RotationShard.records =
      (shards.map RotationShard.unreasoned).map RotationShard.records := by
    rw [List.map_map]
    rfl
  rw [hrecords, h]
  apply List.ext_getElem
  · simp
  · intro i hi hblock
    simp [shardFor]

/-- Shards of different blocks have different outputs. -/
theorem outputs_of_blocks (h : shards.map RotationShard.unreasoned =
    blocks.mapIdx (shardFor policy directory)) (hcount : blocks.length < 2 ^ 64) :
    (shards.map RotationShard.outputPath).Nodup := by
  have houtputs : shards.map RotationShard.outputPath =
      (shards.map RotationShard.unreasoned).map RotationShard.outputPath := by
    rw [List.map_map]
    rfl
  rw [houtputs, h, List.Nodup, List.pairwise_iff_getElem]
  intro i j hi hj hlt hsame
  simp only [List.length_map, List.length_mapIdx] at hi hj
  simp only [List.getElem_map, List.getElem_mapIdx, shardFor] at hsame
  have hnumber := congrArg UInt64.toNat (rotation_output_path_injective hsame)
  rw [UInt64.toNat_ofNat_of_lt' (hi.trans hcount), UInt64.toNat_ofNat_of_lt' (hj.trans hcount)]
    at hnumber
  omega

end Shards

/-! ## Blocks and limits -/

/-- Records in the order of their times whose sums fit 64 bits. -/
structure Orderly (records : List RotationRecordProjection) : Prop where
  inOrder : InOrder (records.map RotationRecordProjection.captureTimeNs)
  size : estimatedTotal records < 2 ^ 64

theorem Orderly.sublist {records part : List RotationRecordProjection} (h : Orderly records)
    (hpart : part.Sublist records) : Orderly part := by
  refine ⟨h.inOrder.sublist (hpart.map _), lt_of_le_of_lt ?_ h.size⟩
  have hsum := (hpart.map fun record => 16 + record.payloadSize.toNat).sum_le_sum
    fun _ _ => Nat.zero_le _
  exact Nat.add_le_add_left hsum 36

/-- A block that was filled where there was room is within the limits. -/
theorem block_within {policy : RotationPolicy} {block : List RotationRecordProjection}
    (h : Fits (blocked policy) block) (horder : Orderly block) (hmany : 1 < block.length) :
    WithinLimits policy block := by
  have hroom : ∀ front item, (front ++ [item]) <+: block → front ≠ [] →
      blocked policy front item = false → RoomFor policy front item := by
    intro front item hleading hfront hblocked
    have hbehind := horder.sublist hleading.sublist
    have hbefore := hbehind.sublist (List.sublist_append_left _ _)
    have hnone : boundaryReason policy (shardOf front) item = none := by
      simpa [blocked] using hblocked
    exact ((boundary_reason_none_iff (shard_of_counts hbefore.inOrder hbefore.size)
      hbehind.inOrder hbehind.size).mp hnone).resolve_left hfront
  rcases block.eq_nil_or_concat' with rfl | ⟨front, last, rfl⟩
  · cases hmany
  have hfront : front ≠ [] := by
    rintro rfl
    exact absurd hmany (Nat.lt_irrefl 1)
  refine within_of_room horder.inOrder
    (hroom front last List.prefix_rfl hfront (h front last [] rfl hfront)) hfront ?_
  intro hlimit
  exact h.isChain fun front item hleading hnonempty hblocked last hlast =>
    (hroom front item hleading hnonempty hblocked).idleGap hlimit last hlast

/-- A block does not stay within the limits with a record that was blocked behind it. -/
theorem block_tight {policy : RotationPolicy} {block : List RotationRecordProjection}
    {record : RotationRecordProjection} (horder : Orderly (block ++ [record]))
    (hblocked : blocked policy block record = true) :
    ¬ WithinLimits policy (block ++ [record]) := by
  have hbefore := horder.sublist (List.sublist_append_left _ _)
  refine not_within_of_no_room fun hroom => ?_
  have hnone := (boundary_reason_none_iff (shard_of_counts hbefore.inOrder hbefore.size)
    horder.inOrder horder.size).mpr (Or.inr hroom)
  rw [blocked, hnone] at hblocked
  cases hblocked

/-! ## Plans -/

/-- Shards that hold records within the limits, and none of which has room for more. -/
structure Tight (policy : RotationPolicy) (shards : List RotationShard) : Prop where
  within : ∀ shard ∈ shards, 1 < shard.records.length → WithinLimits policy shard.records
  full : shards.IsChain fun shard next => ∃ first rest, next.records = first :: rest ∧
    ¬ WithinLimits policy (shard.records ++ [first])

/-- Blocks of records in order are tight. -/
theorem tight_of_blocks {policy : RotationPolicy} {shards : List RotationShard}
    {records : List RotationRecordProjection} (horder : Orderly records)
    (h : shards.map RotationShard.records = split (blocked policy) [] records) :
    Tight policy shards := by
  have hflatten : (split (blocked policy) [] records).flatten = records := flatten_split [] records
  have hmem : ∀ shard ∈ shards, shard.records ∈ split (blocked policy) [] records := by
    intro shard hshard
    rw [← h]
    exact List.mem_map_of_mem hshard
  constructor
  · intro shard hshard hmany
    have hblock := hmem shard hshard
    have hfits := fits_of_mem_split (fun front _ _ hnil hfront => by simp at hnil) _ hblock
    have hpart := List.sublist_flatten_of_mem hblock
    rw [hflatten] at hpart
    exact block_within hfits (horder.sublist hpart) hmany
  · have hboundaries := @split_boundaries _ (blocked policy) [] records
    rw [← h, List.isChain_map] at hboundaries
    rw [List.isChain_iff_forall_rel_of_append_cons_cons] at hboundaries ⊢
    intro shard next before behind hshards
    obtain ⟨first, rest, hnext, hblocked⟩ := hboundaries hshards
    refine ⟨first, rest, hnext, block_tight (horder.sublist ?_) hblocked⟩
    -- the first record of the next shard is behind the shard
    rw [← hflatten, ← h, hshards]
    simp [hnext]

/-- There are no more blocks than records, but for a block that is kept empty. -/
theorem length_blocks_lt {policy : RotationPolicy} {records : List RotationRecordProjection}
    (h : Orderly records) : (split (blocked policy) [] records).length < 2 ^ 64 := by
  rcases records.eq_nil_or_concat' with rfl | ⟨front, last, hrecords⟩
  · show 1 < 2 ^ 64
    decide
  have hnonempty : ∀ block ∈ split (blocked policy) [] records, 1 ≤ block.length := by
    intro block hblock
    refine List.length_pos_iff.mpr (ne_nil_of_mem_blocks ?_ block hblock)
    rw [hrecords]
    exact List.concat_ne_nil _ _
  have hcount : (split (blocked policy) [] records).length ≤ records.length := by
    have hsum := List.length_le_sum_of_one_le ((split (blocked policy) [] records).map List.length)
      (by simpa using hnonempty)
    rwa [List.length_map, ← List.length_flatten, flatten_split] at hsum
  have htotal := payload_length_le_estimated records
  have hsize := h.size
  omega

/-- The shards hold the records in their order. -/
theorem plan_records_flatten {plan : RotationPlan} (directory : Path)
    {records : List RotationRecordProjection} (hshards : plan.shards = [])
    (houtput : plan.outputRecords = 0)
    (hkept : records ≠ [] ∨ plan.policy.keepEmptyArchives = true) :
    ((planRecords plan directory records).shards.map RotationShard.records).flatten = records := by
  obtain ⟨-, hblocks, -⟩ := plan_records_shards directory hshards houtput hkept
  rw [records_of_blocks hblocks]
  exact flatten_split [] records

/-- A plan for records, or for none when an empty archive is kept. -/
theorem plan_records_spec {plan : RotationPlan} {records : List RotationRecordProjection}
    (horder : Orderly records) (hshards : plan.shards = []) (houtput : plan.outputRecords = 0)
    (hskipped : plan.skippedRecords = 0)
    (hinput : plan.inputRecords = UInt64.ofNat records.length)
    (hkept : records ≠ [] ∨ plan.policy.keepEmptyArchives = true) (directory : Path) :
    let planned := planRecords plan directory records
    (planned.shards.map RotationShard.records).flatten = records ∧
      validateRotationPlan planned = [] ∧ Tight plan.policy planned.shards := by
  intro planned
  obtain ⟨hpolicy, hblocks, hcount, hinput', hskipped'⟩ :=
    plan_records_shards directory hshards houtput hkept
  have hrecords := records_of_blocks hblocks
  have hflatten := plan_records_flatten directory hshards houtput hkept
  have houtputs := outputs_of_blocks hblocks (length_blocks_lt horder)
  refine ⟨hflatten, validate_of_sound ?_ houtputs ?_ ?_, tight_of_blocks horder hrecords⟩
  · intro shard hshard
    have hmem := List.mem_map_of_mem (f := RotationShard.unreasoned) hshard
    rw [hblocks, List.mem_mapIdx] at hmem
    obtain ⟨index, hindex, hshard⟩ := hmem
    have hblock := List.getElem_mem hindex
    have hpart := List.sublist_flatten_of_mem hblock
    rw [flatten_split] at hpart
    have hin := horder.sublist hpart
    have hsound := sound_shardFor hin.inOrder hin.size
      (hkept.imp_left fun hrecords => ne_nil_of_mem_blocks hrecords _ hblock) directory index
    rw [hshard] at hsound
    rw [hpolicy]
    exact ⟨hsound.outputPath, hsound.recordCount, hsound.kept, hsound.times⟩
  · rw [hcount, hflatten]
  · rw [hcount, hinput', hskipped', hinput, hskipped, UInt64.add_zero]

/-- The plan before its shards are made. -/
def RotationPlan.begun (policy : RotationPolicy) (inputs : List RotationInputArchive)
    (records : List RotationRecordProjection) : RotationPlan where
  policy
  inputArchives := UInt64.ofNat inputs.length
  inputRecords := UInt64.ofNat records.length

/-- A plan is made of the records that were collected, and one for none has no shards, unless an
empty archive is kept. -/
theorem plan_archive_rotation_ok_iff {κ : Type} {disk : Disk Path κ}
    {inputs : List RotationInputArchive} {policy : RotationPolicy} {directory : Path}
    {plan : RotationPlan} : planArchiveRotation disk inputs policy directory = .ok plan ↔
      policy.outputPrefix ≠ "" ∧ policy.outputExtension ≠ "" ∧
      ∃ records, collectInputs disk inputs = .ok records ∧
        plan = if records ≠ [] ∨ policy.keepEmptyArchives = true then
            planRecords (.begun policy inputs records) directory records
          else .begun policy inputs records := by
  simp only [planArchiveRotation, except_bind_ok_iff, except_rejectIf_ok_iff, exists_and_left,
    exists_const]
  refine and_congr_right fun _ => and_congr_right fun _ => exists_congr fun records =>
    and_congr_right fun _ => ?_
  rw [@eq_comm _ plan]
  by_cases hrecords : records = []
  · subst hrecords
    by_cases hkeep : policy.keepEmptyArchives = true
    · simp only [hkeep, if_true, or_true, except_pure_ok_iff]
      rfl
    · simp only [hkeep, if_true, if_false, ne_eq, not_true_eq_false, or_self, Bool.false_eq_true,
        except_pure_ok_iff]
      rfl
  · simp only [hrecords, if_false, ne_eq, not_false_eq_true, true_or, if_true, except_pure_ok_iff]
    rfl

/-- For readable inputs whose paths compare different, a plan is made. Its shards hold the records
of all inputs, each once and in the order of capture time, path and offset. The plan passes
validation, its shards are within the limits of the policy unless they hold one record, and the
first record of the next shard would not have fitted. -/
theorem rotation_plan_spec {κ : Type} {disk : Disk Path κ} {inputs : List RotationInputArchive}
    {policy : RotationPolicy} (hread : Readable disk inputs)
    (hpaths : inputs.Pairwise fun left right => ¬ left.path.same right.path)
    (hleading : policy.outputPrefix ≠ "") (hextension : policy.outputExtension ≠ "")
    (hsize : estimatedTotal (inputRecords disk inputs) < 2 ^ 64) (directory : Path) :
    ∃ plan, planArchiveRotation disk inputs policy directory = .ok plan ∧
      (plan.shards.map RotationShard.records).flatten.Perm (inputRecords disk inputs) ∧
      (plan.shards.map RotationShard.records).flatten.Pairwise
        (fun left right => rotationKey left < rotationKey right) ∧
      validateRotationPlan plan = [] ∧
      (∀ shard ∈ plan.shards, 1 < shard.records.length → WithinLimits policy shard.records) ∧
      plan.shards.IsChain fun shard next => ∃ first rest, next.records = first :: rest ∧
        ¬ WithinLimits policy (shard.records ++ [first]) := by
  obtain ⟨records, hcollect, hperm, hsorted⟩ := collect_inputs_spec hread hpaths
  have horder : Orderly records := by
    constructor
    · rw [InOrder, List.pairwise_map]
      refine hsorted.imp fun {left right} hlt => ?_
      rcases Prod.Lex.toLex_lt_toLex.mp hlt with hlt | ⟨heq, -⟩
      · exact UInt64.le_iff_toNat_le.mpr hlt.le
      · exact UInt64.le_iff_toNat_le.mpr heq.le
    · have hsum := (hperm.map fun record => 16 + record.payloadSize.toNat).sum_eq
      rw [estimatedTotal, hsum]
      exact hsize
  refine ⟨_, plan_archive_rotation_ok_iff.mpr ⟨hleading, hextension, records, hcollect, rfl⟩, ?_⟩
  by_cases hkept : records ≠ [] ∨ policy.keepEmptyArchives = true
  · rw [if_pos hkept]
    obtain ⟨hflatten, hvalid, htight⟩ :=
      @plan_records_spec (.begun policy inputs records) _ horder rfl rfl rfl rfl hkept directory
    rw [hflatten]
    exact ⟨hperm, hsorted, hvalid, htight.within, htight.full⟩
  · rw [if_neg hkept]
    obtain rfl : records = [] := not_not.mp fun hrecords => hkept (Or.inl hrecords)
    exact ⟨hperm, hsorted, rfl, by simp [RotationPlan.begun], List.isChain_nil⟩

/-! ## Two archives -/

/-- The archive of one observation. -/
def archiveOfOne (time : UInt64) : Bytes :=
  archiveWire [(time, { payload := [1] })]

theorem length_archive_of_one (time : UInt64) : (archiveOfOne time).length ≤ 1000 := by
  simp [archiveOfOne, archiveWire, recordsWire, length_packet_frame, Packet.sectionsWire]

theorem archive_of_one_reads (time : UInt64) : readArchive (some (archiveOfOne time)) =
    .ok (summarize {} [(time, { payload := [1] })], [⟨36, time, { payload := [1] }⟩]) := by
  refine read_archive_wire fun entry hentry => ?_
  rw [List.mem_singleton.mp hentry]
  exact readable_observation 0 0 (by decide)

/-- Two archives, of which the later one has the name of the first shard of a rotation. -/
def twoArchivesDisk : Disk Path Path where
  locate := id
  medium _ := some smallMedium
  files path :=
    if path = ⟨"archive_000000.ath"⟩ then some (File.ofBytes (archiveOfOne 2000))
    else if path = ⟨"incoming.ath"⟩ then some (File.ofBytes (archiveOfOne 1000))
    else none

/-- Two archives, one with the name of an output. -/
def twoArchives : List RotationInputArchive :=
  [{ path := ⟨"archive_000000.ath"⟩ }, { path := ⟨"incoming.ath"⟩ }]

/-- Both archives are on the disk. -/
theorem read_two_archives :
    twoArchivesDisk.read ⟨"archive_000000.ath"⟩ = some (archiveOfOne 2000) ∧
      twoArchivesDisk.read ⟨"incoming.ath"⟩ = some (archiveOfOne 1000) := by
  have hsize : ∀ time, (archiveOfOne time).length < 2 ^ 63 :=
    fun time => (length_archive_of_one time).trans_lt (by decide)
  exact ⟨congrArg some (File.bytes_ofBytes (hsize 2000)),
    congrArg some (File.bytes_ofBytes (hsize 1000))⟩

/-- Both archives can be read. -/
theorem two_archives_readable : Readable twoArchivesDisk twoArchives := by
  obtain ⟨hfirst, hsecond⟩ := read_two_archives
  intro input hinput
  simp only [twoArchives, List.mem_cons, List.not_mem_nil, or_false] at hinput
  rcases hinput with rfl | rfl
  · exact ⟨_, _, by rw [hfirst]; exact archive_of_one_reads 2000⟩
  · exact ⟨_, _, by rw [hsecond]; exact archive_of_one_reads 1000⟩

/-- The record of an archive of one observation. -/
def onlyRecord (path : Path) (time : UInt64) : RotationRecordProjection :=
  { sourcePath := path, sourceOffset := 36, captureTimeNs := time, payloadSize := 1 }

theorem two_archives_records : inputRecords twoArchivesDisk twoArchives =
    [onlyRecord ⟨"archive_000000.ath"⟩ 2000, onlyRecord ⟨"incoming.ath"⟩ 1000] := by
  obtain ⟨hfirst, hsecond⟩ := read_two_archives
  simp only [inputRecords, twoArchives, List.flatMap_cons, List.flatMap_nil, hfirst, hsecond,
    archiveRecords, archive_of_one_reads]
  rfl

/-- One record to an archive. -/
theorem rotation_of_two_archives :
    ∃ plan, planArchiveRotation twoArchivesDisk twoArchives { maxRecordsPerArchive := 1 } ⟨"out"⟩ =
        .ok plan ∧
      (plan.shards.map RotationShard.records).flatten.length = 2 ∧
      validateRotationPlan plan = [] ∧ ∀ shard ∈ plan.shards, shard.records.length ≤ 1 := by
  obtain ⟨plan, hplan, hperm, -, hvalid, hwithin, -⟩ := @rotation_plan_spec _ twoArchivesDisk
    twoArchives { maxRecordsPerArchive := 1 } two_archives_readable (by decide) (by decide)
    (by decide) (by rw [two_archives_records]; decide) ⟨"out"⟩
  refine ⟨plan, hplan, ?_, hvalid, fun shard hshard => ?_⟩
  · rw [hperm.length_eq, two_archives_records]
    rfl
  · by_contra hmany
    have hlimit := (hwithin shard hshard (Nat.lt_of_not_le hmany)).recordCount (by decide)
    exact hmany hlimit

end Aethon.Storage
