import Aethon.Storage.Retention

/-!
# Simulated retention

A policy is applied again and again while its thresholds age with the time, after
`storage/retention_simulator.cpp`. An archive that was to be compacted, archived or deleted is never
treated more mildly later: `retention_monotone`.
-/

namespace Aethon.Storage

open StableSort

open scoped Words

/-! ## The simulation -/

/-- The time at which a simulation begins, and its steps. -/
structure RetentionSimulationOptions where
  nowTimeNs : UInt64 := 0
  stepNs : UInt64 := 0
  steps : UInt32 := 1
  ageThresholdsWithTime : Bool := true
  deriving DecidableEq, Repr

/-- The plan of a policy at a time, and the files under each action. -/
structure RetentionSimulationSnapshot where
  simulatedTimeNs : UInt64 := 0
  policy : RetentionPolicy := {}
  plan : RetentionPlan := {}
  keptFiles : UInt64 := 0
  compactedFiles : UInt64 := 0
  archivedFiles : UInt64 := 0
  deletedFiles : UInt64 := 0
  deriving DecidableEq, Repr

/-- The snapshots of a simulation, and their totals. -/
structure RetentionSimulation where
  options : RetentionSimulationOptions := {}
  snapshots : List RetentionSimulationSnapshot := []
  totalKeptRecords : UInt64 := 0
  totalCompactedRecords : UInt64 := 0
  totalArchivedRecords : UInt64 := 0
  totalDeletedRecords : UInt64 := 0
  deriving DecidableEq, Repr

/-- A threshold of zero is switched off and does not age. -/
def ageThreshold (thresholdNs deltaNs : UInt64) : UInt64 :=
  if thresholdNs ≠ 0 then thresholdNs + deltaNs else thresholdNs

/-- The policy after some time, its thresholds moved by that time if they age. -/
def advanceRetentionPolicy (policy : RetentionPolicy) (deltaNs : UInt64) (ageThresholds : Bool) :
    RetentionPolicy :=
  if !ageThresholds || deltaNs = 0 then policy
  else
    { policy with
      keepAfterTimeNs := ageThreshold policy.keepAfterTimeNs deltaNs
      compactBeforeTimeNs := ageThreshold policy.compactBeforeTimeNs deltaNs
      archiveBeforeTimeNs := ageThreshold policy.archiveBeforeTimeNs deltaNs
      deleteBeforeTimeNs := ageThreshold policy.deleteBeforeTimeNs deltaNs }

namespace RetentionSimulationSnapshot

/-- The body of the loop of `make_snapshot`. -/
def countFile (snapshot : RetentionSimulationSnapshot) (decision : RetentionDecision) :
    RetentionSimulationSnapshot :=
  match decision.action with
  | .keep => { snapshot with keptFiles := snapshot.keptFiles + 1 }
  | .compact => { snapshot with compactedFiles := snapshot.compactedFiles + 1 }
  | .archive => { snapshot with archivedFiles := snapshot.archivedFiles + 1 }
  | .deleteFile => { snapshot with deletedFiles := snapshot.deletedFiles + 1 }

end RetentionSimulationSnapshot

/-- The snapshot of a plan, which counts its decisions. -/
def makeSnapshot (simulatedTimeNs : UInt64) (policy : RetentionPolicy) (plan : RetentionPlan) :
    RetentionSimulationSnapshot :=
  plan.decisions.foldl RetentionSimulationSnapshot.countFile { simulatedTimeNs, policy, plan }

/-- Add a snapshot to the totals. -/
def RetentionSimulation.accumulate (simulation : RetentionSimulation)
    (snapshot : RetentionSimulationSnapshot) : RetentionSimulation :=
  { simulation with
    totalKeptRecords := simulation.totalKeptRecords + snapshot.plan.keptRecords
    totalCompactedRecords := simulation.totalCompactedRecords + snapshot.plan.compactedRecords
    totalArchivedRecords := simulation.totalArchivedRecords + snapshot.plan.archivedRecords
    totalDeletedRecords := simulation.totalDeletedRecords + snapshot.plan.deletedRecords }

/-- No steps are one step. -/
def RetentionSimulationOptions.stepCount (options : RetentionSimulationOptions) : ℕ :=
  (if options.steps = 0 then 1 else options.steps).toNat

section Simulations

variable (sort : List RetentionCandidate → List RetentionCandidate)
  (candidates : List RetentionCandidate) (policy : RetentionPolicy)
  (options : RetentionSimulationOptions)

/-- What the loop computes at a step. -/
def snapshotAt (step : ℕ) : RetentionSimulationSnapshot :=
  let delta := UInt64.ofNat step * options.stepNs
  let stepPolicy := advanceRetentionPolicy policy delta options.ageThresholdsWithTime
  let plan := buildRetentionPlan sort candidates stepPolicy
  makeSnapshot (options.nowTimeNs + delta) stepPolicy plan

/-- The body of the loop. -/
def simulateStep (simulation : RetentionSimulation) (step : ℕ) : RetentionSimulation :=
  let snapshot := snapshotAt sort candidates policy options step
  let simulation := simulation.accumulate snapshot
  { simulation with snapshots := simulation.snapshots ++ [snapshot] }

/-- Simulate a policy, step by step. -/
def simulateRetention : RetentionSimulation :=
  (List.range options.stepCount).foldl (simulateStep sort candidates policy options) { options }

end Simulations

/-! ## Milder and harder actions -/

/-- The order of the actions: keep, compact, archive, delete. -/
def RetentionAction.severity : RetentionAction → ℕ
  | .keep => 0
  | .compact => 1
  | .archive => 2
  | .deleteFile => 3

/-- A threshold moves forward, and is switched off or not as before. -/
def AgesTo (thresholdNs laterNs : UInt64) : Prop :=
  (thresholdNs = 0 ↔ laterNs = 0) ∧ thresholdNs ≤ laterNs

theorem AgesTo.refl (thresholdNs : UInt64) : AgesTo thresholdNs thresholdNs :=
  ⟨Iff.rfl, le_rfl⟩

/-- What is before a threshold is before every later one. -/
theorem AgesTo.before {thresholdNs laterNs lastNs : UInt64} (h : AgesTo thresholdNs laterNs)
    (hbefore : thresholdNs ≠ 0 ∧ lastNs < thresholdNs) : laterNs ≠ 0 ∧ lastNs < laterNs :=
  ⟨fun hzero => hbefore.1 (h.1.mpr hzero), hbefore.2.trans_le h.2⟩

/-- What is inside a later window was inside the window. -/
theorem AgesTo.inside {thresholdNs laterNs lastNs : UInt64} (h : AgesTo thresholdNs laterNs)
    (hinside : laterNs ≠ 0 ∧ lastNs ≥ laterNs) : thresholdNs ≠ 0 ∧ lastNs ≥ thresholdNs :=
  ⟨fun hzero => hinside.1 (h.1.mp hzero), h.2.trans hinside.2⟩

/-- The thresholds of a policy move forward, and its floors stay. -/
structure RetentionPolicy.AgesTo (policy later : RetentionPolicy) : Prop where
  keep : Storage.AgesTo policy.keepAfterTimeNs later.keepAfterTimeNs
  compact : Storage.AgesTo policy.compactBeforeTimeNs later.compactBeforeTimeNs
  archive : Storage.AgesTo policy.archiveBeforeTimeNs later.archiveBeforeTimeNs
  delete : Storage.AgesTo policy.deleteBeforeTimeNs later.deleteBeforeTimeNs
  records : policy.minimumRecordsToKeep = later.minimumRecordsToKeep
  payload : policy.minimumPayloadBytesToKeep = later.minimumPayloadBytesToKeep

/-- The severity of the first of the time rules that applies. -/
def timeSeverity (keep delete archive compact : Prop) [Decidable keep] [Decidable delete]
    [Decidable archive] [Decidable compact] : ℕ :=
  if keep then 0 else if delete then 3 else if archive then 2 else if compact then 1 else 0

/-- Rules that are kept while they age lead to no milder action, in whatever order the thresholds
stand. -/
theorem time_severity_mono {keep delete archive compact keep' delete' archive' compact' : Prop}
    [Decidable keep] [Decidable delete] [Decidable archive] [Decidable compact] [Decidable keep']
    [Decidable delete'] [Decidable archive'] [Decidable compact'] (hkeep : keep' → keep)
    (hdelete : delete → delete') (harchive : archive → archive') (hcompact : compact → compact') :
    timeSeverity keep delete archive compact ≤ timeSeverity keep' delete' archive' compact' := by
  unfold timeSeverity
  by_cases hinside : keep
  · rw [if_pos hinside]
    exact Nat.zero_le _
  · rw [if_neg hinside, if_neg fun hinside' => hinside (hkeep hinside')]
    split_ifs <;> first | omega | tauto

/-- The severity of a decision, by the thresholds that the last time has passed. -/
theorem severity_decide (candidate : RetentionCandidate) (policy : RetentionPolicy) :
    (decideRetention candidate policy).action.severity =
      let last := candidate.manifest.summary.lastTimeNs
      if candidate.manifest.summary.recordCount = 0 then 3
      else if protectedByRecordFloor candidate.manifest policy then 0
      else if protectedByPayloadFloor candidate.manifest policy then 0
      else timeSeverity (policy.keepAfterTimeNs ≠ 0 ∧ last ≥ policy.keepAfterTimeNs)
        (policy.deleteBeforeTimeNs ≠ 0 ∧ last < policy.deleteBeforeTimeNs)
        (policy.archiveBeforeTimeNs ≠ 0 ∧ last < policy.archiveBeforeTimeNs)
        (policy.compactBeforeTimeNs ≠ 0 ∧ last < policy.compactBeforeTimeNs) := by
  simp only [decideRetention, timeSeverity]
  split_ifs <;> rfl

/-- Older thresholds never make a decision milder. -/
theorem decide_retention_mono {policy later : RetentionPolicy} (h : policy.AgesTo later)
    (candidate : RetentionCandidate) :
    (decideRetention candidate policy).action.severity ≤
      (decideRetention candidate later).action.severity := by
  have hrecords : protectedByRecordFloor candidate.manifest later =
      protectedByRecordFloor candidate.manifest policy := by
    rw [protectedByRecordFloor, protectedByRecordFloor, h.records]
  have hpayload : protectedByPayloadFloor candidate.manifest later =
      protectedByPayloadFloor candidate.manifest policy := by
    rw [protectedByPayloadFloor, protectedByPayloadFloor, h.payload]
  simp only [severity_decide, hrecords, hpayload]
  split_ifs
  · exact le_rfl
  · exact le_rfl
  · exact le_rfl
  · exact time_severity_mono h.keep.inside h.delete.before h.archive.before h.compact.before

/-! ## The thresholds of the steps -/

/-- No number of the simulation overflows: the records of all archives, their number, and each
threshold that is switched on at each step. -/
structure SimulationFits (candidates : List RetentionCandidate) (policy : RetentionPolicy)
    (options : RetentionSimulationOptions) : Prop where
  records : (candidates.map fun candidate =>
    candidate.manifest.summary.recordCount.toNat).sum < 2 ^ 64
  files : candidates.length < 2 ^ 64
  thresholds : ∀ thresholdNs ∈ [policy.keepAfterTimeNs, policy.compactBeforeTimeNs,
      policy.archiveBeforeTimeNs, policy.deleteBeforeTimeNs],
    thresholdNs ≠ 0 → ∀ step < options.stepCount,
      thresholdNs.toNat + step * options.stepNs.toNat < 2 ^ 64

/-- The policy of a step. -/
def policyAt (policy : RetentionPolicy) (options : RetentionSimulationOptions) (step : ℕ) :
    RetentionPolicy :=
  advanceRetentionPolicy policy (UInt64.ofNat step * options.stepNs) options.ageThresholdsWithTime

/-- The thresholds of a policy age one by one. -/
theorem advance_eq (policy : RetentionPolicy) (deltaNs : UInt64) :
    advanceRetentionPolicy policy deltaNs true =
      { policy with
        keepAfterTimeNs := ageThreshold policy.keepAfterTimeNs deltaNs
        compactBeforeTimeNs := ageThreshold policy.compactBeforeTimeNs deltaNs
        archiveBeforeTimeNs := ageThreshold policy.archiveBeforeTimeNs deltaNs
        deleteBeforeTimeNs := ageThreshold policy.deleteBeforeTimeNs deltaNs } := by
  unfold advanceRetentionPolicy
  split
  · next h =>
    have hzero : deltaNs = 0 := by simpa using h
    simp [hzero, ageThreshold]
  · rfl

/-- Steps age a threshold by their lengths. -/
theorem age_threshold_toNat {thresholdNs stepNs : UInt64} {step : ℕ}
    (hfits : thresholdNs.toNat + step * stepNs.toNat < 2 ^ 64) (hon : thresholdNs ≠ 0) :
    (ageThreshold thresholdNs (UInt64.ofNat step * stepNs)).toNat =
      thresholdNs.toNat + step * stepNs.toNat := by
  have hdelta : (UInt64.ofNat step * stepNs).toNat = step * stepNs.toNat := by
    rw [UInt64.toNat_mul, UInt64.toNat_ofNat', Nat.mod_mul_mod]
    exact Nat.mod_eq_of_lt (by omega)
  rw [ageThreshold, if_pos hon, Words.toNat_add_of_lt (by rwa [hdelta]), hdelta]

/-- A threshold grows with the steps, as long as it fits. -/
theorem age_threshold_mono {thresholdNs stepNs : UInt64} {step later count : ℕ}
    (hfits : thresholdNs ≠ 0 → ∀ step < count, thresholdNs.toNat + step * stepNs.toNat < 2 ^ 64)
    (hstep : step ≤ later) (hlater : later < count) :
    AgesTo (ageThreshold thresholdNs (UInt64.ofNat step * stepNs))
      (ageThreshold thresholdNs (UInt64.ofNat later * stepNs)) := by
  by_cases hon : thresholdNs = 0
  · simp [ageThreshold, hon, AgesTo.refl]
  · have hfits := hfits hon
    have hearlier := age_threshold_toNat (hfits step (by omega)) hon
    have hlast := age_threshold_toNat (hfits later hlater) hon
    have hscale := Nat.mul_le_mul_right stepNs.toNat hstep
    have hpos : 0 < thresholdNs.toNat :=
      Nat.pos_of_ne_zero fun hzero => hon (UInt64.toNat_inj.mp hzero)
    refine ⟨iff_of_false (fun hzero => ?_) fun hzero => ?_, ?_⟩
    · rw [hzero] at hearlier
      exact absurd hearlier (by show 0 ≠ _; omega)
    · rw [hzero] at hlast
      exact absurd hlast (by show 0 ≠ _; omega)
    · rw [UInt64.le_iff_toNat_le]
      omega

/-- The policy of a later step has older thresholds. -/
theorem policy_at_ages {candidates : List RetentionCandidate} {policy : RetentionPolicy}
    {options : RetentionSimulationOptions} (h : SimulationFits candidates policy options)
    {step later : ℕ} (hstep : step ≤ later) (hlater : later < options.stepCount) :
    (policyAt policy options step).AgesTo (policyAt policy options later) := by
  unfold policyAt
  cases options.ageThresholdsWithTime with
  | false => exact ⟨.refl _, .refl _, .refl _, .refl _, rfl, rfl⟩
  | true =>
    have hage : ∀ thresholdNs ∈ [policy.keepAfterTimeNs, policy.compactBeforeTimeNs,
        policy.archiveBeforeTimeNs, policy.deleteBeforeTimeNs],
        AgesTo (ageThreshold thresholdNs (UInt64.ofNat step * options.stepNs))
          (ageThreshold thresholdNs (UInt64.ofNat later * options.stepNs)) :=
      fun thresholdNs hmem => age_threshold_mono (h.thresholds thresholdNs hmem) hstep hlater
    rw [advance_eq, advance_eq]
    exact ⟨hage _ (by simp), hage _ (by simp), hage _ (by simp), hage _ (by simp), rfl, rfl⟩

/-! ## The snapshots -/

namespace RetentionSimulationSnapshot

/-- The files of a snapshot, whatever is done with them. -/
def totalFiles (snapshot : RetentionSimulationSnapshot) : ℕ :=
  snapshot.keptFiles.toNat + snapshot.compactedFiles.toNat + snapshot.archivedFiles.toNat +
    snapshot.deletedFiles.toNat

theorem count_file_keeps (snapshot : RetentionSimulationSnapshot) (decision : RetentionDecision) :
    (snapshot.countFile decision).plan = snapshot.plan ∧
      (snapshot.countFile decision).policy = snapshot.policy := by
  unfold countFile
  split <;> exact ⟨rfl, rfl⟩

/-- A file is counted under one action. -/
theorem total_count_file {snapshot : RetentionSimulationSnapshot}
    (h : snapshot.totalFiles + 1 < 2 ^ 64) (decision : RetentionDecision) :
    (snapshot.countFile decision).totalFiles = snapshot.totalFiles + 1 := by
  unfold totalFiles at h ⊢
  unfold countFile
  have hone : (1 : UInt64).toNat = 1 := rfl
  split <;> simp only <;> rw [Words.toNat_add_of_lt (by omega)] <;> omega

/-- Every file is counted under one action. -/
theorem count_files {snapshot : RetentionSimulationSnapshot} {decisions : List RetentionDecision}
    (h : snapshot.totalFiles + decisions.length < 2 ^ 64) :
    (decisions.foldl countFile snapshot).totalFiles = snapshot.totalFiles + decisions.length ∧
      (decisions.foldl countFile snapshot).plan = snapshot.plan ∧
      (decisions.foldl countFile snapshot).policy = snapshot.policy := by
  induction decisions generalizing snapshot with
  | nil => exact ⟨rfl, rfl, rfl⟩
  | cons decision decisions ih =>
    rw [List.length_cons] at h ⊢
    obtain ⟨hplan, hpolicy⟩ := snapshot.count_file_keeps decision
    have htotal := snapshot.total_count_file (by omega) decision
    obtain ⟨hfiles, hplans, hpolicies⟩ := @ih (snapshot.countFile decision) (by omega)
    exact ⟨by rw [List.foldl_cons, hfiles, htotal]; omega, hplans.trans hplan,
      hpolicies.trans hpolicy⟩

end RetentionSimulationSnapshot

section Simulations

variable {sort : List RetentionCandidate → List RetentionCandidate}
  {candidates : List RetentionCandidate} {policy : RetentionPolicy}
  {options : RetentionSimulationOptions}

/-- What the snapshot of a step holds. -/
theorem snapshot_at_spec (hsort : Sorts RetentionCandidate.endsBefore sort)
    (h : SimulationFits candidates policy options) (step : ℕ) :
    let snapshot := snapshotAt sort candidates policy options step
    snapshot.policy = policyAt policy options step ∧
      snapshot.plan.decisions = (sort candidates).map (decideRetention · snapshot.policy) ∧
      snapshot.plan.totalRecords =
        (candidates.map fun candidate => candidate.manifest.summary.recordCount.toNat).sum ∧
      snapshot.totalFiles = candidates.length := by
  intro snapshot
  obtain ⟨hdecisions, hrecords⟩ := build_retention_plan_spec hsort h.records
    (policyAt policy options step)
  have hlength :
      (buildRetentionPlan sort candidates (policyAt policy options step)).decisions.length =
        candidates.length := by
    rw [hdecisions, List.length_map, (hsort.perm candidates).length_eq]
  have hnone : RetentionSimulationSnapshot.totalFiles
      { simulatedTimeNs := options.nowTimeNs + UInt64.ofNat step * options.stepNs
        policy := policyAt policy options step
        plan := buildRetentionPlan sort candidates (policyAt policy options step) } = 0 := rfl
  obtain ⟨hfiles, hplan, hpolicy⟩ := RetentionSimulationSnapshot.count_files
    (by rw [hnone, hlength, Nat.zero_add]; exact h.files)
  rw [hnone, hlength, Nat.zero_add] at hfiles
  refine ⟨hpolicy, ?_, ?_, hfiles⟩
  · rw [show snapshot.plan = _ from hplan, show snapshot.policy = _ from hpolicy]
    exact hdecisions
  · rw [show snapshot.plan = _ from hplan]
    exact hrecords

/-- There is one snapshot for each step. -/
theorem snapshots_eq : (simulateRetention sort candidates policy options).snapshots =
    (List.range options.stepCount).map (snapshotAt sort candidates policy options) := by
  have hall (steps : List ℕ) (simulation : RetentionSimulation) :
      (steps.foldl (simulateStep sort candidates policy options) simulation).snapshots =
        simulation.snapshots ++ steps.map (snapshotAt sort candidates policy options) := by
    induction steps generalizing simulation with
    | nil => exact (List.append_nil _).symm
    | cons step steps ih =>
      rw [List.foldl_cons, ih]
      simp [simulateStep, RetentionSimulation.accumulate]
  exact hall _ _

/-- From each step to every later one no archive is treated more mildly, and at each step there is
one decision for each archive, the records of the decisions are those of all archives, and the files
are counted once each. -/
theorem retention_monotone (hsort : Sorts RetentionCandidate.endsBefore sort)
    (h : SimulationFits candidates policy options) :
    let simulation := simulateRetention sort candidates policy options
    simulation.snapshots.length = options.stepCount ∧
    (simulation.snapshots.Pairwise fun earlier later =>
      List.Forall₂ (fun decision decision' => decision.path = decision'.path ∧
          decision.action.severity ≤ decision'.action.severity)
        earlier.plan.decisions later.plan.decisions) ∧
    ∀ snapshot ∈ simulation.snapshots,
      snapshot.plan.decisions.Perm (candidates.map (decideRetention · snapshot.policy)) ∧
      snapshot.plan.totalRecords =
        (candidates.map fun candidate => candidate.manifest.summary.recordCount.toNat).sum ∧
      snapshot.totalFiles = candidates.length := by
  intro simulation
  have hspec := snapshot_at_spec hsort h
  rw [show simulation.snapshots = _ from snapshots_eq]
  refine ⟨by rw [List.length_map, List.length_range], ?_, ?_⟩
  · rw [List.pairwise_map]
    refine List.pairwise_lt_range.imp_of_mem fun {step later} _ hlater hless => ?_
    obtain ⟨hpolicy, hdecisions, -⟩ := hspec step
    obtain ⟨hpolicy', hdecisions', -⟩ := hspec later
    have hages := policy_at_ages h hless.le (List.mem_range.mp hlater)
    rw [hdecisions, hdecisions', hpolicy, hpolicy', List.forall₂_map_left_iff,
      List.forall₂_map_right_iff]
    refine List.forall₂_same.mpr fun candidate _ => ⟨?_, decide_retention_mono hages candidate⟩
    rw [path_decide, path_decide]
  · intro snapshot hsnapshot
    obtain ⟨step, -, rfl⟩ := List.mem_map.mp hsnapshot
    obtain ⟨-, hdecisions, hrecords, hfiles⟩ := hspec step
    refine ⟨?_, hrecords, hfiles⟩
    rw [hdecisions]
    exact (hsort.perm candidates).map _

end Simulations

/-- Two archives, one older than the other. -/
def agingArchives : List RetentionCandidate :=
  [{ path := ⟨"a.ath"⟩, manifest := { summary := { recordCount := 3, lastTimeNs := 500 } } },
    { path := ⟨"b.ath"⟩, manifest := { summary := { recordCount := 5, lastTimeNs := 400 } } }]

/-- A policy that moves what is old. -/
def agingPolicy : RetentionPolicy where
  keepAfterTimeNs := 450
  archiveBeforeTimeNs := 350

/-- Four steps of a hundred nanoseconds. -/
def fourSteps : RetentionSimulationOptions where
  nowTimeNs := 500
  stepNs := 100
  steps := 4

/-- Four steps in which the window leaves one archive behind, and the threshold passes both. -/
theorem retention_monotone_aging :
    let simulation :=
      simulateRetention (stableSort RetentionCandidate.endsBefore) agingArchives agingPolicy
        fourSteps
    simulation.snapshots.length = 4 ∧
    (simulation.snapshots.Pairwise fun earlier later =>
      List.Forall₂ (fun decision decision' => decision.path = decision'.path ∧
          decision.action.severity ≤ decision'.action.severity)
        earlier.plan.decisions later.plan.decisions) ∧
    ∀ snapshot ∈ simulation.snapshots,
      snapshot.plan.decisions.Perm (agingArchives.map (decideRetention · snapshot.policy)) ∧
      snapshot.plan.totalRecords = 8 ∧ snapshot.totalFiles = 2 :=
  retention_monotone ends_before_compares.stable_sort_sorts {
    records := by decide
    files := by decide
    thresholds := by
      intro thresholdNs hmem _ step hstep
      have hbound : thresholdNs.toNat ≤ 450 := by
        simp only [agingPolicy, List.mem_cons, List.not_mem_nil, or_false] at hmem
        rcases hmem with rfl | rfl | rfl | rfl <;> decide
      have hcount : step < 4 := hstep
      show thresholdNs.toNat + step * 100 < 2 ^ 64
      omega }

end Aethon.Storage
