import Aethon.Foundation.StableSort
import Aethon.Foundation.Sweeping
import Aethon.Foundation.Words
import Aethon.Storage.Segments
import Mathlib.Order.CompletePartialOrder

/-!
# The plan of the segments

Each time is in the segment of its number, and the loop over an archive visits the numbers from that
of its first time to that of its last one. So each archive is once a source of each segment that has
times of it: `segmentation_spec`.
-/

namespace Aethon.Storage

open Grouping StableSort Runs

open scoped Words

/-! ## The segments by their numbers -/

namespace SegmentNaming

variable {naming : SegmentNaming} {timeNs : UInt64}

/-- The width of a segment is positive. -/
theorem width_pos (naming : SegmentNaming) : 0 < naming.width.toNat := by
  unfold width
  split
  · exact Nat.one_pos
  · next h =>
    rw [Nat.pos_iff_ne_zero]
    exact fun hzero => h (UInt64.toNat_inj.mp hzero)

/-- The number of the segment of a time. -/
def index (naming : SegmentNaming) (timeNs : UInt64) : ℕ :=
  timeNs.toNat / naming.width.toNat

/-- The segment of the time ends below `2 ^ 64`. -/
def EndsBelow (naming : SegmentNaming) (timeNs : UInt64) : Prop :=
  naming.index timeNs * naming.width.toNat + (naming.width.toNat - 1) < 2 ^ 64

/-- A segment starts at its index times its width. -/
theorem start_toNat (naming : SegmentNaming) (timeNs : UInt64) :
    (segmentForTime timeNs naming).startTimeNs.toNat =
      naming.index timeNs * naming.width.toNat := by
  have hle := Nat.div_mul_le_self timeNs.toNat naming.width.toNat
  show (timeNs / naming.width * naming.width).toNat = _
  rw [UInt64.toNat_mul, UInt64.toNat_div]
  exact Nat.mod_eq_of_lt (hle.trans_lt timeNs.toNat_lt)

/-- A segment ends one below the start of the next. -/
theorem end_toNat (h : naming.EndsBelow timeNs) :
    (segmentForTime timeNs naming).endTimeNs.toNat =
      naming.index timeNs * naming.width.toNat + (naming.width.toNat - 1) := by
  have hstart := naming.start_toNat timeNs
  have hwidth := naming.width_pos
  unfold EndsBelow at h
  have hend : (segmentForTime timeNs naming).endTimeNs =
      (segmentForTime timeNs naming).startTimeNs + (naming.width - 1) := by
    show _ + naming.width - 1 = _ + (naming.width - 1)
    rw [UInt64.sub_eq_add_neg, UInt64.sub_eq_add_neg, UInt64.add_assoc]
    rfl
  have hone : (naming.width - 1).toNat = naming.width.toNat - 1 :=
    UInt64.toNat_sub_of_le _ _ (UInt64.le_iff_toNat_le.mpr hwidth)
  rw [hend, Words.toNat_add_of_lt (by rw [hstart, hone]; exact h), hstart, hone]

/-- The number of a segment determines it. -/
theorem segment_eq_iff {other : UInt64} :
    segmentForTime timeNs naming = segmentForTime other naming ↔
      naming.index timeNs = naming.index other := by
  constructor
  · intro h
    have hstart := congrArg (fun range => range.startTimeNs.toNat) h
    simp only [start_toNat] at hstart
    exact Nat.eq_of_mul_eq_mul_right naming.width_pos hstart
  · intro h
    have hstart : (segmentForTime timeNs naming).startTimeNs =
        (segmentForTime other naming).startTimeNs :=
      UInt64.toNat_inj.mp (by rw [start_toNat, start_toNat, h])
    show SegmentRange.mk (segmentForTime timeNs naming).startTimeNs
        ((segmentForTime timeNs naming).startTimeNs + naming.width - 1) = _
    rw [hstart]
    rfl

/-- The segment of a number. -/
def segmentAt (naming : SegmentNaming) (index : ℕ) : SegmentRange :=
  segmentForTime (UInt64.ofNat (index * naming.width.toNat)) naming

theorem index_ofNat {index : ℕ} (h : index * naming.width.toNat < 2 ^ 64) :
    naming.index (UInt64.ofNat (index * naming.width.toNat)) = index := by
  rw [SegmentNaming.index, UInt64.toNat_ofNat_of_lt' h, Nat.mul_div_cancel _ naming.width_pos]

theorem index_start_lt (naming : SegmentNaming) (timeNs : UInt64) :
    naming.index timeNs * naming.width.toNat < 2 ^ 64 :=
  (Nat.div_mul_le_self _ _).trans_lt timeNs.toNat_lt

theorem segmentAt_index (naming : SegmentNaming) (timeNs : UInt64) :
    naming.segmentAt (naming.index timeNs) = segmentForTime timeNs naming :=
  segment_eq_iff.mpr (index_ofNat (naming.index_start_lt timeNs))

/-- Every time is in its segment. -/
theorem mem_segment (h : naming.EndsBelow timeNs) :
    (segmentForTime timeNs naming).startTimeNs ≤ timeNs ∧
      timeNs ≤ (segmentForTime timeNs naming).endTimeNs := by
  have hwidth := naming.width_pos
  have hfront := Nat.div_mul_le_self timeNs.toNat naming.width.toNat
  have hbehind := Nat.lt_div_mul_add (a := timeNs.toNat) hwidth
  rw [UInt64.le_iff_toNat_le, UInt64.le_iff_toNat_le, start_toNat, end_toNat h, index]
  omega

theorem le_index_iff {index : ℕ} :
    index ≤ naming.index timeNs ↔ index * naming.width.toNat ≤ timeNs.toNat :=
  Nat.le_div_iff_mul_le naming.width_pos

/-- A time lies in front of the end of a segment exactly when its number is not behind that of the
segment. -/
theorem le_end_iff {other : UInt64} (h : naming.EndsBelow other) :
    timeNs ≤ (segmentForTime other naming).endTimeNs ↔
      naming.index timeNs ≤ naming.index other := by
  have hwidth := naming.width_pos
  rw [UInt64.le_iff_toNat_le, end_toNat h, ← not_lt (b := naming.index timeNs), ← Nat.succ_le_iff,
    le_index_iff, Nat.succ_mul]
  omega

theorem start_le_iff {other : UInt64} :
    (segmentForTime other naming).startTimeNs ≤ timeNs ↔
      naming.index other ≤ naming.index timeNs := by
  rw [UInt64.le_iff_toNat_le, start_toNat, le_index_iff]

/-- Segments of smaller numbers end in front of the others. -/
theorem end_lt_start {other : UInt64} (h : naming.EndsBelow timeNs)
    (hindex : naming.index timeNs < naming.index other) :
    (segmentForTime timeNs naming).endTimeNs < (segmentForTime other naming).startTimeNs := by
  have hwidth := naming.width_pos
  have hnext := Nat.mul_le_mul_right naming.width.toNat (Nat.succ_le_of_lt hindex)
  rw [UInt64.lt_iff_toNat_lt, end_toNat h, start_toNat]
  rw [Nat.succ_mul] at hnext
  omega

/-- Two times have one segment, or segments without a common time. -/
theorem segments_equal_or_disjoint {other : UInt64} (h : naming.EndsBelow timeNs)
    (hother : naming.EndsBelow other) :
    segmentForTime timeNs naming = segmentForTime other naming ∨
      Disjoint
        (Set.Icc (segmentForTime timeNs naming).startTimeNs
          (segmentForTime timeNs naming).endTimeNs)
        (Set.Icc (segmentForTime other naming).startTimeNs
          (segmentForTime other naming).endTimeNs) := by
  rw [segment_eq_iff, Set.disjoint_left]
  rcases lt_trichotomy (naming.index timeNs) (naming.index other) with hless | heq | hgreater
  · exact .inr fun t ht hother =>
      absurd (ht.2.trans_lt (end_lt_start h hless)) hother.1.not_gt
  · exact .inl heq
  · exact .inr fun t ht hin =>
      absurd (hin.2.trans_lt (end_lt_start hother hgreater)) ht.1.not_gt

end SegmentNaming

/-! ## The visits of the loops -/

/-- The segments that the loop over an archive visits. -/
def visits (naming : SegmentNaming) (entry : CatalogEntry) : List (SegmentRange × Path) :=
  if entry.manifest.summary.recordCount = 0 then []
  else
    let first := naming.index entry.manifest.summary.firstTimeNs
    let last := naming.index entry.manifest.summary.lastTimeNs
    (List.range' first (last + 1 - first)).map fun index => (naming.segmentAt index, entry.path)

section Loops

variable {directory : Path} {naming : SegmentNaming}

/-- With fuel for each segment the loop visits the segments in order. -/
theorem plan_archive_eq {source : Path} {lastStart : UInt64} {first count fuel : ℕ}
    (hlast : lastStart.toNat = (first + count) * naming.width.toNat) (hfuel : count < fuel)
    (entries : List SegmentPlanEntry) :
    planArchive directory naming source lastStart fuel
        (UInt64.ofNat (first * naming.width.toNat)) entries =
      some (((List.range' first (count + 1)).map fun index =>
        (naming.segmentAt index, source)).foldl
        (fun entries visit => (bySegment directory naming).add visit entries) entries) := by
  obtain ⟨fuel, rfl⟩ := Nat.exists_eq_add_of_lt hfuel
  have hbelow : (first + count) * naming.width.toNat < 2 ^ 64 := hlast ▸ lastStart.toNat_lt
  have hwidth := naming.width_pos
  induction count generalizing first entries with
  | zero =>
    rw [Nat.add_zero] at hlast hbelow
    have hstart : UInt64.ofNat (first * naming.width.toNat) = lastStart :=
      UInt64.toNat_inj.mp (by rw [UInt64.toNat_ofNat_of_lt' hbelow, hlast])
    rw [planArchive, hstart, if_pos le_rfl, if_pos rfl, ← hstart]
    rfl
  | succ count ih =>
    have hfirst : first * naming.width.toNat < (first + (count + 1)) * naming.width.toNat :=
      Nat.mul_lt_mul_of_pos_right (by omega) hwidth
    have hnext : (first + 1) * naming.width.toNat < 2 ^ 64 :=
      (Nat.mul_le_mul_right _ (by omega)).trans_lt hbelow
    have hstart := UInt64.toNat_ofNat_of_lt' (hfirst.trans hbelow)
    have hstep : UInt64.ofNat (first * naming.width.toNat) + naming.width =
        UInt64.ofNat ((first + 1) * naming.width.toNat) := by
      rw [Nat.succ_mul, UInt64.ofNat_add, UInt64.ofNat_toNat]
    have hless : UInt64.ofNat (first * naming.width.toNat) < lastStart := by
      rw [UInt64.lt_iff_toNat_lt, hstart, hlast]
      exact hfirst
    have hsum : first + 1 + count = first + (count + 1) := by omega
    rw [show count + 1 + fuel + 1 = (count + fuel + 1) + 1 by omega, planArchive,
      if_pos hless.le, if_neg hless.ne, hstep]
    exact ih (by rw [hsum, hlast]) _ (by omega) (by rwa [hsum])

/-- The visits of an archive are the segments from its first time to its last. -/
theorem plan_entry_eq {entry : CatalogEntry} {fuel : ℕ} (hfuel : 2 ^ 64 ≤ fuel)
    (hvalid : entry.manifest.summary.recordCount ≠ 0 →
      entry.manifest.summary.firstTimeNs ≤ entry.manifest.summary.lastTimeNs)
    (entries : List SegmentPlanEntry) :
    planEntry directory naming fuel entries entry =
      some ((visits naming entry).foldl
        (fun entries visit => (bySegment directory naming).add visit entries) entries) := by
  unfold planEntry visits
  split
  · rfl
  · next hcount =>
    have hindex : naming.index entry.manifest.summary.firstTimeNs ≤
        naming.index entry.manifest.summary.lastTimeNs :=
      Nat.div_le_div_right (UInt64.le_iff_toNat_le.mp (hvalid hcount))
    obtain ⟨count, hcount⟩ := Nat.exists_eq_add_of_le hindex
    have hbound : count < fuel :=
      ((Nat.le_add_left _ _).trans_eq hcount.symm).trans_lt
        (((Nat.div_le_self _ _).trans_lt (UInt64.toNat_lt _)).trans_le hfuel)
    have hfirst : (segmentForTime entry.manifest.summary.firstTimeNs naming).startTimeNs =
        UInt64.ofNat (naming.index entry.manifest.summary.firstTimeNs * naming.width.toNat) := by
      rw [← naming.start_toNat, UInt64.ofNat_toNat]
    simp only
    rw [hfirst, plan_archive_eq (by rw [naming.start_toNat, hcount]) hbound, hcount]
    congr 5
    omega

/-- With enough fuel the loop over the catalog makes the visits of all archives. -/
theorem plan_entries_eq {catalog : List CatalogEntry} {fuel : ℕ} (hfuel : 2 ^ 64 ≤ fuel)
    (hvalid : ∀ entry ∈ catalog, entry.manifest.summary.recordCount ≠ 0 →
      entry.manifest.summary.firstTimeNs ≤ entry.manifest.summary.lastTimeNs)
    (entries : List SegmentPlanEntry) :
    catalog.foldlM (planEntry directory naming fuel) entries =
      some ((catalog.flatMap (visits naming)).foldl
        (fun entries visit => (bySegment directory naming).add visit entries) entries) := by
  induction catalog generalizing entries with
  | nil => rfl
  | cons entry catalog ih =>
    obtain ⟨hentry, hcatalog⟩ := List.forall_mem_cons.mp hvalid
    rw [List.foldlM_cons, plan_entry_eq hfuel hentry, List.flatMap_cons, List.foldl_append]
    exact ih hcatalog _

end Loops

/-! ## The sources of a segment -/

section Sources

variable {directory : Path} {naming : SegmentNaming}

/-- The archives of a segment are those that visit it. -/
theorem sources_groupOf (items : List (SegmentRange × Path)) (range : SegmentRange) :
    ((bySegment directory naming).groupOf items range).sourceArchives =
      (items.filter fun visit => visit.1 = range).map Prod.snd := by
  have hall (entry : SegmentPlanEntry) (items : List (SegmentRange × Path)) :
      (items.foldl (bySegment directory naming).update entry).sourceArchives =
        entry.sourceArchives ++ items.map Prod.snd := by
    induction items generalizing entry with
    | nil => exact (List.append_nil _).symm
    | cons item items ih =>
      rw [List.foldl_cons, ih, List.map_cons]
      simp [bySegment]
  exact hall _ _

/-- The path of a segment is made from its range. -/
theorem path_groupOf (items : List (SegmentRange × Path)) (range : SegmentRange) :
    ((bySegment directory naming).groupOf items range).path =
      segmentPath directory range naming := by
  have hall (entry : SegmentPlanEntry) (items : List (SegmentRange × Path)) :
      (items.foldl (bySegment directory naming).update entry).path = entry.path := by
    induction items generalizing entry with
    | nil => rfl
    | cons item items ih => rw [List.foldl_cons, ih]; rfl
  exact hall _ _

/-- What the plan lists under a segment are the visits of it. -/
theorem sources_of_visits {items : List (SegmentRange × Path)} {entries : List SegmentPlanEntry}
    (hperm : entries.Perm ((bySegment directory naming).collect items)) (range : SegmentRange)
    (source : Path) :
    (SegmentPlan.mk entries).timesListed range source = items.count (range, source) := by
  have hcollected := (bySegment directory naming).collected items
  have hsources : (entries.filter (·.range = range)).flatMap SegmentPlanEntry.sourceArchives =
      (items.filter fun visit => visit.1 = range).map Prod.snd := by
    by_cases hrange : range ∈ items.map (bySegment directory naming).key
    · have hone := hcollected.filter_key _ hrange
      have hfilter : (entries.filter (·.range = range)).Perm
          [(bySegment directory naming).groupOf items range] := hone ▸ hperm.filter _
      rw [List.perm_singleton.mp hfilter, List.flatMap_singleton, sources_groupOf]
    · have hentries : entries.filter (·.range = range) = [] := by
        refine List.filter_eq_nil_iff.mpr fun entry hentry hkey => hrange ?_
        rw [← hcollected.keys, ← of_decide_eq_true hkey]
        exact List.mem_map_of_mem (hperm.mem_iff.mp hentry)
      have hitems : (items.filter fun visit => visit.1 = range) = [] := by
        refine List.filter_eq_nil_iff.mpr fun visit hvisit hkey => hrange ?_
        rw [← of_decide_eq_true hkey]
        exact List.mem_map_of_mem hvisit
      rw [hentries, hitems]
      rfl
  rw [SegmentPlan.timesListed, hsources, List.count, List.count, List.countP_map,
    List.countP_filter]
  refine List.countP_congr fun visit _ => ?_
  obtain ⟨other, path⟩ := visit
  simp [and_comm]

/-- The loop over an archive visits the segments whose numbers lie between its first and its last
one, each once. -/
theorem count_visits {entry : CatalogEntry} (hcount : entry.manifest.summary.recordCount ≠ 0)
    (timeNs : UInt64) :
    (visits naming entry).count (segmentForTime timeNs naming, entry.path) =
      if naming.index entry.manifest.summary.firstTimeNs ≤ naming.index timeNs ∧
        naming.index timeNs ≤ naming.index entry.manifest.summary.lastTimeNs then 1 else 0 := by
  have hstart : ∀ {index}, index ≤ naming.index entry.manifest.summary.lastTimeNs →
      index * naming.width.toNat < 2 ^ 64 := fun hle =>
    (Nat.mul_le_mul_right _ hle).trans_lt (naming.index_start_lt _)
  unfold visits
  rw [if_neg hcount]
  simp only
  have hnodup : ((List.range' (naming.index entry.manifest.summary.firstTimeNs)
      (naming.index entry.manifest.summary.lastTimeNs + 1 -
        naming.index entry.manifest.summary.firstTimeNs)).map
      fun index => (naming.segmentAt index, entry.path)).Nodup := by
    refine List.Nodup.map_on (fun index hindex other hother hsame => ?_) List.nodup_range'
    rw [List.mem_range'_1] at hindex hother
    have hsegments := SegmentNaming.segment_eq_iff.mp (Prod.mk.inj hsame).1
    rwa [SegmentNaming.index_ofNat (hstart (by omega)),
      SegmentNaming.index_ofNat (hstart (by omega))] at hsegments
  rw [hnodup.count]
  refine if_congr ⟨fun hmem => ?_, fun hbetween => ?_⟩ rfl rfl
  · obtain ⟨index, hindex, hsame⟩ := List.mem_map.mp hmem
    rw [List.mem_range'_1] at hindex
    have hsegments := SegmentNaming.segment_eq_iff.mp (Prod.mk.inj hsame).1
    rw [SegmentNaming.index_ofNat (hstart (by omega))] at hsegments
    omega
  · refine List.mem_map.mpr ⟨naming.index timeNs, ?_, by rw [naming.segmentAt_index]⟩
    rw [List.mem_range'_1]
    omega

/-- Every visit is of the segment of some time. -/
theorem segment_of_visit {entry : CatalogEntry}
    (hlast : entry.manifest.summary.recordCount ≠ 0 →
      naming.EndsBelow entry.manifest.summary.lastTimeNs)
    {visit : SegmentRange × Path} (hvisit : visit ∈ visits naming entry) :
    ∃ timeNs, naming.EndsBelow timeNs ∧ visit.1 = segmentForTime timeNs naming := by
  unfold visits at hvisit
  split at hvisit
  · exact absurd hvisit List.not_mem_nil
  · next hcount =>
    obtain ⟨index, hindex, rfl⟩ := List.mem_map.mp hvisit
    rw [List.mem_range'_1] at hindex
    have hle : index ≤ naming.index entry.manifest.summary.lastTimeNs := by omega
    have hstart := Nat.mul_le_mul_right naming.width.toNat hle
    have hend := hlast hcount
    refine ⟨_, ?_, rfl⟩
    unfold SegmentNaming.EndsBelow at hend ⊢
    rw [SegmentNaming.index_ofNat (by omega)]
    omega

/-- The visits of an archive are all of its path. -/
theorem count_visits_of_ne {entry : CatalogEntry} {source : Path} (hpath : entry.path ≠ source)
    (range : SegmentRange) : (visits naming entry).count (range, source) = 0 := by
  refine List.count_eq_zero_of_not_mem fun hmem => hpath ?_
  unfold visits at hmem
  split at hmem
  · exact absurd hmem List.not_mem_nil
  · obtain ⟨index, -, hsame⟩ := List.mem_map.mp hmem
    exact (Prod.mk.inj hsame).2

/-- The visits of all archives are for each archive its own. -/
theorem count_all_visits {catalog : ArchiveCatalog} (hdistinct : catalog.Distinct)
    {entry : CatalogEntry} (hentry : entry ∈ catalog.entries) (range : SegmentRange) :
    (catalog.entries.flatMap (visits naming)).count (range, entry.path) =
      (visits naming entry).count (range, entry.path) := by
  have honce : catalog.entries.count entry = 1 :=
    List.count_eq_one_of_mem hdistinct.nodup hentry
  rw [List.count_flatMap, List.sum_map_eq_nsmul_single entry, honce, one_nsmul]
  · rfl
  · exact fun other hne hother => count_visits_of_ne (hdistinct.path_ne hother hentry hne) range

end Sources

/-! ## The plan -/

theorem segment_starts_compare : Compares SegmentPlanEntry.startsBefore
    (fun entry => entry.range.startTimeNs) :=
  fun _ _ => decide_eq_true_iff

section Plan

variable {directory : Path} {naming : SegmentNaming}
  {sort : List SegmentPlanEntry → List SegmentPlanEntry} {catalog : ArchiveCatalog}

/-- The plan that the visits of all archives make up. -/
def visitedPlan (directory : Path) (naming : SegmentNaming)
    (sort : List SegmentPlanEntry → List SegmentPlanEntry) (catalog : ArchiveCatalog) :
    SegmentPlan :=
  ⟨sort ((bySegment directory naming).collect (catalog.entries.flatMap (visits naming)))⟩

/-- The archives with records do not end before they start, and their last segments end below
`2 ^ 64`. -/
def Plannable (naming : SegmentNaming) (catalog : ArchiveCatalog) : Prop :=
  ∀ entry ∈ catalog.entries, entry.manifest.summary.recordCount ≠ 0 →
    entry.manifest.summary.firstTimeNs ≤ entry.manifest.summary.lastTimeNs ∧
      naming.EndsBelow entry.manifest.summary.lastTimeNs

theorem plan_segments_eq (hvalid : Plannable naming catalog) {fuel : ℕ} (hfuel : 2 ^ 64 ≤ fuel) :
    planSegments directory naming sort fuel catalog =
      some (visitedPlan directory naming sort catalog) := by
  rw [planSegments, plan_entries_eq hfuel fun entry hentry hcount =>
    (hvalid entry hentry hcount).1]
  rfl

/-- What is planned is the segment of some time. -/
theorem segment_of_planned (hsort : Sorts SegmentPlanEntry.startsBefore sort)
    (hvalid : Plannable naming catalog) :
    ∀ planned ∈ (visitedPlan directory naming sort catalog).entries,
      ∃ timeNs, naming.EndsBelow timeNs ∧ planned.range = segmentForTime timeNs naming := by
  intro planned hplanned
  have hcollected := (bySegment directory naming).collected
    (catalog.entries.flatMap (visits naming))
  have hkey : planned.range ∈ ((bySegment directory naming).collect
      (catalog.entries.flatMap (visits naming))).map SegmentPlanEntry.range :=
    List.mem_map_of_mem ((hsort.perm _).mem_iff.mp hplanned)
  obtain ⟨visit, hvisit, hrange⟩ := List.mem_map.mp ((hcollected.keys planned.range).mp hkey)
  obtain ⟨entry, hentry, hvisit⟩ := List.mem_flatMap.mp hvisit
  rw [← hrange]
  exact segment_of_visit (fun hcount => (hvalid entry hentry hcount).2) hvisit

/-- Every planned path is made from its range. -/
theorem path_of_planned (hsort : Sorts SegmentPlanEntry.startsBefore sort) :
    ∀ planned ∈ (visitedPlan directory naming sort catalog).entries,
      planned.path = segmentPath directory planned.range naming := by
  intro planned hplanned
  have hcollected := (bySegment directory naming).collected
    (catalog.entries.flatMap (visits naming))
  have hexact := hcollected.exact planned ((hsort.perm _).mem_iff.mp hplanned)
  exact (congrArg SegmentPlanEntry.path hexact).trans (path_groupOf _ _)

/-- The segments of the plan are disjoint and in order. -/
theorem planned_in_order (hsort : Sorts SegmentPlanEntry.startsBefore sort)
    (hvalid : Plannable naming catalog) :
    (visitedPlan directory naming sort catalog).entries.Pairwise fun left right =>
      left.range.endTimeNs < right.range.startTimeNs := by
  have hranges := @segment_of_planned directory naming sort catalog hsort hvalid
  have hnodup := List.pairwise_map.mp (((hsort.perm _).map SegmentPlanEntry.range).nodup_iff.mpr
    ((bySegment directory naming).collected (catalog.entries.flatMap (visits naming))).nodup)
  refine ((hsort.pairwise _).and hnodup).imp_of_mem fun {left right} hleft hright h => ?_
  obtain ⟨timeNs, htime, hsegment⟩ := hranges left hleft
  obtain ⟨other, hother, hsegment'⟩ := hranges right hright
  have hle := segment_starts_compare.not_less_iff.mp h.1
  have hne := h.2
  rw [hsegment, hsegment'] at hne hle ⊢
  rw [ne_eq, SegmentNaming.segment_eq_iff] at hne
  rw [UInt64.le_iff_toNat_le, SegmentNaming.start_toNat, SegmentNaming.start_toNat] at hle
  exact SegmentNaming.end_lt_start htime
    (lt_of_le_of_ne (Nat.le_of_mul_le_mul_right hle naming.width_pos) hne)

/-- An archive with records is once a source of the segments that lie between its first and its
last one. -/
theorem times_listed_eq (hsort : Sorts SegmentPlanEntry.startsBefore sort)
    (hdistinct : catalog.Distinct) {entry : CatalogEntry} (hentry : entry ∈ catalog.entries)
    (hcount : entry.manifest.summary.recordCount ≠ 0) (timeNs : UInt64) :
    (visitedPlan directory naming sort catalog).timesListed (segmentForTime timeNs naming)
        entry.path =
      if naming.index entry.manifest.summary.firstTimeNs ≤ naming.index timeNs ∧
        naming.index timeNs ≤ naming.index entry.manifest.summary.lastTimeNs then 1 else 0 := by
  rw [visitedPlan, sources_of_visits (hsort.perm _), count_all_visits hdistinct hentry,
    count_visits hcount]

/-- These are the segments that have times of the archive. -/
theorem segment_meets_iff {firstTimeNs lastTimeNs timeNs : UInt64} (hle : firstTimeNs ≤ lastTimeNs)
    (htime : naming.EndsBelow timeNs) :
    (Set.Icc firstTimeNs lastTimeNs ∩ Set.Icc (segmentForTime timeNs naming).startTimeNs
      (segmentForTime timeNs naming).endTimeNs).Nonempty ↔
      naming.index firstTimeNs ≤ naming.index timeNs ∧
        naming.index timeNs ≤ naming.index lastTimeNs := by
  have hsegment := SegmentNaming.mem_segment htime
  rw [Sweeping.Icc_meet_iff hle (hsegment.1.trans hsegment.2), SegmentNaming.le_end_iff htime,
    SegmentNaming.start_le_iff]

end Plan

/-- Every segment is the one of its times, two times have one segment or disjoint ones, and for
every catalog the planning comes to an end: the segments that it lists are disjoint and in order,
and each archive with records is once a source of each segment that has times of it, and never of
others. -/
theorem segmentation_spec (naming : SegmentNaming) :
    (∀ timeNs, naming.EndsBelow timeNs →
      (segmentForTime timeNs naming).startTimeNs ≤ timeNs ∧
        timeNs ≤ (segmentForTime timeNs naming).endTimeNs) ∧
    (∀ timeNs other, naming.EndsBelow timeNs → naming.EndsBelow other →
      segmentForTime timeNs naming = segmentForTime other naming ∨
        Disjoint
          (Set.Icc (segmentForTime timeNs naming).startTimeNs
            (segmentForTime timeNs naming).endTimeNs)
          (Set.Icc (segmentForTime other naming).startTimeNs
            (segmentForTime other naming).endTimeNs)) ∧
    ∀ directory sort, Sorts SegmentPlanEntry.startsBefore sort → ∀ ops : List CatalogOperation,
      let catalog := run ArchiveCatalog.apply {} ops
      (∀ entry ∈ catalog.entries, entry.manifest.summary.recordCount ≠ 0 →
        entry.manifest.summary.firstTimeNs ≤ entry.manifest.summary.lastTimeNs ∧
          naming.EndsBelow entry.manifest.summary.lastTimeNs) →
      ∃ plan, (∀ fuel, 2 ^ 64 ≤ fuel →
          planSegments directory naming sort fuel catalog = some plan) ∧
        plan.entries.Pairwise (fun left right => left.range.endTimeNs < right.range.startTimeNs) ∧
        (∀ planned ∈ plan.entries, planned.path = segmentPath directory planned.range naming ∧
          ∃ timeNs, naming.EndsBelow timeNs ∧ planned.range = segmentForTime timeNs naming) ∧
        ∀ entry ∈ catalog.entries, entry.manifest.summary.recordCount ≠ 0 →
          ∀ timeNs, naming.EndsBelow timeNs →
            let segment := segmentForTime timeNs naming
            let times := Set.Icc entry.manifest.summary.firstTimeNs
              entry.manifest.summary.lastTimeNs
            ((times ∩ Set.Icc segment.startTimeNs segment.endTimeNs).Nonempty →
              plan.timesListed segment entry.path = 1) ∧
            (¬(times ∩ Set.Icc segment.startTimeNs segment.endTimeNs).Nonempty →
              plan.timesListed segment entry.path = 0) := by
  refine ⟨fun _ => SegmentNaming.mem_segment,
    fun _ _ => SegmentNaming.segments_equal_or_disjoint, fun directory sort hsort ops => ?_⟩
  intro catalog hvalid
  refine ⟨visitedPlan directory naming sort catalog, fun fuel hfuel =>
    plan_segments_eq hvalid hfuel, planned_in_order hsort hvalid, fun planned hplanned => ?_, ?_⟩
  · exact ⟨path_of_planned hsort planned hplanned,
      segment_of_planned hsort hvalid planned hplanned⟩
  · intro entry hentry hcount timeNs htime segment times
    have hdistinct := (ArchiveCatalog.catalog_states ops).1
    have hmeet := segment_meets_iff (hvalid entry hentry hcount).1 htime
    rw [times_listed_eq hsort hdistinct hentry hcount, hmeet]
    exact ⟨fun hbetween => if_pos hbetween, fun hbetween => if_neg hbetween⟩

/-- Two archives over three segments that both have times of the one in the middle. -/
theorem segmentation_of_shared_segment :
    let naming : SegmentNaming := { segmentWidthNs := 1000 }
    let early : CatalogEntry := ⟨⟨"early.ath"⟩,
      { summary := { recordCount := 2, firstTimeNs := 100, lastTimeNs := 1900 } }⟩
    let late : CatalogEntry := ⟨⟨"late.ath"⟩,
      { summary := { recordCount := 2, firstTimeNs := 1200, lastTimeNs := 2800 } }⟩
    let catalog := run ArchiveCatalog.apply {} [.add early, .add late]
    ∃ plan, (∀ fuel, 2 ^ 64 ≤ fuel →
        planSegments ⟨"segments"⟩ naming (stableSort SegmentPlanEntry.startsBefore) fuel catalog =
          some plan) ∧
      plan.timesListed ⟨1000, 1999⟩ ⟨"early.ath"⟩ = 1 ∧
      plan.timesListed ⟨1000, 1999⟩ ⟨"late.ath"⟩ = 1 := by
  intro naming early late catalog
  have hentries : catalog.entries = [early, late] := by
    show ((({} : ArchiveCatalog).add early).add late).entries = _
    have hone : ({} : ArchiveCatalog).add early = ⟨[early]⟩ :=
      ArchiveCatalog.add_last (by decide) (by decide)
    rw [hone, ArchiveCatalog.add_last (by decide) (by decide)]
    rfl
  have hends : ∀ timeNs : UInt64, timeNs ≤ 2800 → naming.EndsBelow timeNs := by
    intro timeNs hle
    have hle : timeNs.toNat ≤ 2800 := UInt64.le_iff_toNat_le.mp hle
    have hdiv := Nat.div_mul_le_self timeNs.toNat 1000
    show timeNs.toNat / 1000 * 1000 + 999 < 2 ^ 64
    omega
  have hvalid : ∀ entry ∈ catalog.entries, entry.manifest.summary.recordCount ≠ 0 →
      entry.manifest.summary.firstTimeNs ≤ entry.manifest.summary.lastTimeNs ∧
        naming.EndsBelow entry.manifest.summary.lastTimeNs := by
    rw [hentries]
    exact List.forall_mem_cons.mpr ⟨fun _ => ⟨by decide, hends _ (by decide)⟩,
      List.forall_mem_singleton.mpr fun _ => ⟨by decide, hends _ (by decide)⟩⟩
  obtain ⟨-, -, hplans⟩ := segmentation_spec naming
  obtain ⟨plan, hplan, -, -, hlisted⟩ := hplans ⟨"segments"⟩ _
    segment_starts_compare.stable_sort_sorts [.add early, .add late] hvalid
  have hsegment : segmentForTime 1500 naming = ⟨1000, 1999⟩ := by decide
  have hlisted : ∀ entry ∈ catalog.entries, entry.manifest.summary.recordCount ≠ 0 →
      (Set.Icc entry.manifest.summary.firstTimeNs entry.manifest.summary.lastTimeNs ∩
        Set.Icc (1000 : UInt64) 1999).Nonempty →
      plan.timesListed ⟨1000, 1999⟩ entry.path = 1 := by
    intro entry hentry hcount
    have hshared := (hlisted entry hentry hcount 1500 (hends _ (by decide))).1
    rwa [hsegment] at hshared
  rw [hentries] at hlisted
  exact ⟨plan, hplan, hlisted early List.mem_cons_self (by decide) ⟨1500, by decide, by decide⟩,
    hlisted late (List.mem_cons_of_mem _ List.mem_cons_self) (by decide)
      ⟨1500, by decide, by decide⟩⟩

end Aethon.Storage
