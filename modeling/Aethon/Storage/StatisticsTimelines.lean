import Aethon.Storage.ArchiveStatistics

/-!
# Silent devices and lost sequences

The timeline of a device holds its records in the order of their capture times and sequences, so
the loops over its neighbours see what the records themselves say. A silence of a device longer than
the threshold is reported once, and nothing else is (`archive_gaps_exact`). Neighbours are reported
as well when the later sequence is not the one behind the earlier sequence, as naturals, so that a
counter that wraps is reported: `sequence_anomalies_exact` says when nothing is reported, and that
the reports of a device that counts upwards tell which sequences were lost.
-/

namespace Aethon.Storage

open Protocol StableSort Consecutive Words

/-! ## Sorts -/

theorem timeline_before_compares : Compares timelineBefore fun timeline =>
    toLex (OrderDual.toDual timeline.points.length, timeline.device) :=
  compares_of_keys fun _ _ => rfl

theorem gap_before_compares :
    Compares gapBefore fun gap => toLex (OrderDual.toDual gap.gapNs, gap.device) :=
  compares_of_keys fun _ _ => rfl

/-! ## Timelines -/

/-- The references of a device. -/
def deviceRefs (collection : ArchiveCollection) (device : DeviceId) :
    List ArchiveCollectionRecordRef :=
  collection.records.filter fun ref => ref.device = device

/-- The timeline of a device as the loop fills it, before its points are sorted. -/
def filledTimeline (device : DeviceId) (refs : List ArchiveCollectionRecordRef) : DeviceTimeline :=
  refs.foldl (fun timeline ref => updateTimeline timeline (makeTimelinePoint ref)) { device }

/-- The points of a device, in order. -/
def devicePoints (collection : ArchiveCollection) (device : DeviceId) :
    List DeviceTimelinePoint :=
  stableSort pointBefore ((deviceRefs collection device).map makeTimelinePoint)

theorem update_timeline_device (timeline : DeviceTimeline) (point : DeviceTimelinePoint) :
    (updateTimeline timeline point).device = timeline.device := by
  unfold updateTimeline
  split <;> rfl

theorem update_timeline_points (timeline : DeviceTimeline) (point : DeviceTimelinePoint) :
    (updateTimeline timeline point).points = timeline.points ++ [point] := by
  unfold updateTimeline
  split <;> rfl

/-- A timeline has the points of its device. -/
theorem filled_timeline_spec (device : DeviceId) (refs : List ArchiveCollectionRecordRef) :
    (filledTimeline device refs).device = device ∧
      (filledTimeline device refs).points = refs.map makeTimelinePoint := by
  have hall (timeline : DeviceTimeline) :
      let filled := refs.foldl
        (fun timeline ref => updateTimeline timeline (makeTimelinePoint ref)) timeline
      filled.device = timeline.device ∧
        filled.points = timeline.points ++ refs.map makeTimelinePoint := by
    induction refs generalizing timeline with
    | nil => exact ⟨rfl, (List.append_nil _).symm⟩
    | cons ref refs ih =>
        obtain ⟨hdevice, hpoints⟩ := ih (updateTimeline timeline (makeTimelinePoint ref))
        rw [update_timeline_device] at hdevice
        rw [update_timeline_points, List.append_assoc] at hpoints
        exact ⟨hdevice, hpoints⟩
  exact hall { device }

/-- A device has a timeline when it has records, and it is filled from these. -/
theorem lookup_timeline_map (collection : ArchiveCollection) (device : DeviceId) :
    (timelineMap collection).lookup device =
      if deviceRefs collection device = [] then none
      else some { filledTimeline device (deviceRefs collection device) with
        points := devicePoints collection device } := by
  have hfold (refs : List ArchiveCollectionRecordRef) (hrefs : ∀ ref ∈ refs, ref.device = device)
      (held : Option DeviceTimeline) (hheld : ∀ timeline ∈ held, timeline.device = device) :
      refs.foldl (fun held ref => some (updateTimeline
          { held.getD {} with device := ref.device } (makeTimelinePoint ref))) held =
        if refs = [] then held
        else some (refs.foldl (fun timeline ref => updateTimeline timeline (makeTimelinePoint ref))
          (held.getD { device })) := by
    induction refs generalizing held with
    | nil => rfl
    | cons ref refs ih =>
        obtain ⟨hdevice, hrefs⟩ := List.forall_mem_cons.mp hrefs
        have hstart : { held.getD {} with device := ref.device } = held.getD { device } := by
          rw [hdevice]
          cases held with
          | none => rfl
          | some timeline =>
              have hsame : timeline.device = device := hheld timeline rfl
              show { timeline with device } = timeline
              rw [← hsame]
        have hnext : ∀ timeline ∈ some (updateTimeline (held.getD { device })
            (makeTimelinePoint ref)), timeline.device = device := by
          rintro timeline ⟨⟩
          rw [update_timeline_device]
          cases held with
          | none => rfl
          | some timeline => exact hheld timeline rfl
        rw [List.foldl_cons, hstart, ih hrefs _ hnext, if_neg (List.cons_ne_nil ref refs)]
        split
        · next hnil => rw [hnil]; rfl
        · rfl
  have hrefs : ∀ ref ∈ deviceRefs collection device, ref.device = device := fun ref href =>
    of_decide_eq_true (List.mem_filter.mp href).2
  have hlookup : (collection.records.foldl (fun timelines ref => timelines.update ref.device
      fun held => updateTimeline { held.getD {} with device := ref.device }
        (makeTimelinePoint ref)) (∅ : SortedTable DeviceId DeviceTimeline)).lookup device =
      (deviceRefs collection device).foldl (fun held ref => some (updateTimeline
        { held.getD {} with device := ref.device } (makeTimelinePoint ref))) none :=
    SortedTable.lookup_foldl_update _ _ _ _ _
  rw [timelineMap, SortedTable.lookup_map, hlookup, hfold _ hrefs none (by simp)]
  by_cases hnil : deviceRefs collection device = []
  · rw [if_pos hnil, if_pos hnil, Option.map_none]
  · rw [if_neg hnil, if_neg hnil, Option.map_some]
    show some { filledTimeline device (deviceRefs collection device) with
      points := stableSort pointBefore
        (filledTimeline device (deviceRefs collection device)).points } = _
    rw [(filled_timeline_spec device _).2]
    rfl

/-- A timeline stands under its device. -/
theorem device_of_entry {collection : ArchiveCollection} {entry : DeviceId × DeviceTimeline}
    (h : entry ∈ (timelineMap collection).entries) : entry.2.device = entry.1 := by
  rw [SortedTable.mem_entries_iff, lookup_timeline_map] at h
  split at h
  · cases h
  · rw [← Option.some.inj h]
    exact (filled_timeline_spec entry.1 _).1

/-- What a loop over the timelines reports of a device is what it reports of the points of the
device. -/
theorem timelines_report {α : Type} {sortTimelines : List DeviceTimeline → List DeviceTimeline}
    (hsort : Sorts timelineBefore sortTimelines)
    {report : DeviceId → List DeviceTimelinePoint → List α} {tag : α → DeviceId}
    (htag : ∀ device points, ∀ item ∈ report device points, tag item = device)
    (hnil : ∀ device, report device [] = []) (collection : ArchiveCollection)
    (device : DeviceId) :
    (((buildDeviceTimelines sortTimelines collection).flatMap fun timeline =>
      report timeline.device timeline.points).filter (tag · = device)).Perm
        (report device (devicePoints collection device)) := by
  let give (timeline : DeviceTimeline) : List α := report timeline.device timeline.points
  have htagged : ∀ entry ∈ (timelineMap collection).entries, ∀ item ∈ give entry.2,
      tag item = entry.1 := fun entry hentry item hitem =>
    (htag _ _ item hitem).trans (device_of_entry hentry)
  have hperm := ((hsort.perm (timelineMap collection).values).flatMap_right give).filter
    fun item => tag item = device
  refine hperm.trans (List.Perm.of_eq ?_)
  rw [SortedTable.filter_flatMap_values _ htagged, lookup_timeline_map]
  by_cases hrefs : deviceRefs collection device = []
  · rw [if_pos hrefs, devicePoints, hrefs, List.map_nil, stable_sort_nil]
    exact (hnil device).symm
  · rw [if_neg hrefs, Option.elim_some]
    show report (filledTimeline device _).device _ = _
    rw [(filled_timeline_spec device _).1]

/-- What a loop over the neighbouring points of all timelines reports of a device is what it reports
of the neighbouring points of the device. A single point has no neighbour. -/
theorem neighbours_report {α : Type} {sortTimelines : List DeviceTimeline → List DeviceTimeline}
    (hsort : Sorts timelineBefore sortTimelines)
    {between : DeviceId → DeviceTimelinePoint → DeviceTimelinePoint → Option α} {tag : α → DeviceId}
    (htag : ∀ device previous current item, between device previous current = some item →
      tag item = device)
    (collection : ArchiveCollection) (device : DeviceId) :
    (((buildDeviceTimelines sortTimelines collection).flatMap fun timeline =>
      if timeline.points.length < 2 then []
      else timeline.points.consecutivePairs.filterMap fun pair =>
        between timeline.device pair.1 pair.2).filter (tag · = device)).Perm
      ((devicePoints collection device).consecutivePairs.filterMap fun pair =>
        between device pair.1 pair.2) := by
  let found (device : DeviceId) (points : List DeviceTimelinePoint) : List α :=
    points.consecutivePairs.filterMap fun pair => between device pair.1 pair.2
  let report (device : DeviceId) (points : List DeviceTimelinePoint) : List α :=
    if points.length < 2 then [] else found device points
  have hreport (device : DeviceId) (points : List DeviceTimelinePoint) :
      report device points = found device points := by
    rcases points with _ | ⟨first, _ | ⟨second, points⟩⟩
    · rfl
    · rfl
    · exact if_neg (by rw [List.length_cons, List.length_cons]; omega)
  have htagged : ∀ device points, ∀ item ∈ report device points, tag item = device := by
    intro device points item hitem
    rw [hreport] at hitem
    obtain ⟨pair, -, hpair⟩ := List.mem_filterMap.mp hitem
    exact htag device pair.1 pair.2 item hpair
  show List.Perm _ (found device (devicePoints collection device))
  rw [← hreport]
  exact timelines_report hsort htagged (fun _ => rfl) collection device

/-! ## The order of the points -/

/-- The time of a point. -/
def pointTime (point : DeviceTimelinePoint) : ℕ :=
  point.captureTimeNs.toNat

/-- The sequence of a point. -/
def pointSequence (point : DeviceTimelinePoint) : ℕ :=
  point.sequence.toNat

/-- Points are compared by their times, then by their sequences. -/
theorem point_before_iff (left right : DeviceTimelinePoint) :
    pointBefore left right = true ↔ Before pointTime pointSequence left right := by
  simp only [Before, pointTime, pointSequence, UInt64.toNat_inj, ← UInt64.lt_iff_toNat_lt,
    ← UInt32.lt_iff_toNat_lt]
  unfold pointBefore
  by_cases htime : left.captureTimeNs = right.captureTimeNs
  · simp [htime]
  · simp [htime]

/-- The points of a device come by capture time, and by sequence where they have one time. -/
theorem points_in_order (collection : ArchiveCollection) (device : DeviceId) :
    (devicePoints collection device).Pairwise fun left right =>
      toLex (pointTime left, pointSequence left) ≤ toLex (pointTime right, pointSequence right) :=
  pairwise_key (compares_lex point_before_iff) _

theorem points_perm (collection : ArchiveCollection) (device : DeviceId) :
    (devicePoints collection device).Perm
      ((deviceRefs collection device).map makeTimelinePoint) :=
  stable_sort_perm pointBefore _

theorem mem_device_points {collection : ArchiveCollection} {device : DeviceId}
    {point : DeviceTimelinePoint} : point ∈ devicePoints collection device ↔
      ∃ ref ∈ collection.records, ref.device = device ∧ makeTimelinePoint ref = point := by
  rw [(points_perm collection device).mem_iff, List.mem_map]
  simp only [deviceRefs, List.mem_filter, decide_eq_true_eq, and_assoc]

/-- The capture times of a device, in order. -/
theorem times_in_order (collection : ArchiveCollection) (device : DeviceId) :
    ((devicePoints collection device).map DeviceTimelinePoint.captureTimeNs).Pairwise
      (· ≤ ·) := by
  refine List.pairwise_map.mpr ((points_in_order collection device).imp fun {left right} hle => ?_)
  rw [UInt64.le_iff_toNat_le]
  exact ((Prod.Lex.toLex_le_toLex.mp hle).elim le_of_lt fun heq => heq.1.le : pointTime left ≤ _)

/-! ## Gaps -/

/-- The gap between two points. -/
def gapOf (device : DeviceId) (previous current : DeviceTimelinePoint) : ArchiveGap where
  device := device
  previousTimeNs := previous.captureTimeNs
  nextTimeNs := current.captureTimeNs
  gapNs := current.captureTimeNs - previous.captureTimeNs
  previousArchive := previous.archivePath
  nextArchive := current.archivePath

/-- A pair of neighbours is reported when the time between them is over the threshold. -/
theorem gap_between_of_le {device : DeviceId} {threshold : UInt64}
    {previous current : DeviceTimelinePoint}
    (hle : previous.captureTimeNs ≤ current.captureTimeNs) :
    gapBetween device threshold previous current =
      if threshold < current.captureTimeNs - previous.captureTimeNs then
        some (gapOf device previous current)
      else none := by
  rw [gapBetween, if_neg (not_lt.mpr hle)]
  by_cases hlong : threshold < current.captureTimeNs - previous.captureTimeNs
  · rw [if_pos hlong]
    exact if_neg (not_le.mpr hlong)
  · rw [if_neg hlong]
    exact if_pos (not_lt.mp hlong)

/-- The gaps between the points of a device. -/
def pointGaps (threshold : UInt64) (device : DeviceId) (points : List DeviceTimelinePoint) :
    List ArchiveGap :=
  points.consecutivePairs.filterMap fun pair => gapBetween device threshold pair.1 pair.2

/-- A gap between points is about their device. -/
theorem gap_between_device {device : DeviceId} {threshold : UInt64}
    {previous current : DeviceTimelinePoint} {gap : ArchiveGap}
    (h : gapBetween device threshold previous current = some gap) : gap.device = device := by
  unfold gapBetween at h
  split at h
  · cases h
  · dsimp only at h
    split at h
    · cases h
    · rw [← Option.some.inj h]

/-- A gap is between two points that follow each other. -/
theorem mem_point_gaps {collection : ArchiveCollection} {device : DeviceId} {threshold : UInt64}
    {gap : ArchiveGap} (h : gap ∈ pointGaps threshold device (devicePoints collection device)) :
    ∃ pair ∈ (devicePoints collection device).consecutivePairs,
      pair.1.captureTimeNs ≤ pair.2.captureTimeNs ∧
      threshold < pair.2.captureTimeNs - pair.1.captureTimeNs ∧
      gap = gapOf device pair.1 pair.2 := by
  obtain ⟨pair, hpair, hgap⟩ := List.mem_filterMap.mp h
  have hle : pair.1.captureTimeNs ≤ pair.2.captureTimeNs :=
    rel_of_consecutive (List.pairwise_map.mp (times_in_order collection device)) hpair
  rw [gap_between_of_le hle] at hgap
  split at hgap
  · next hlong => exact ⟨pair, hpair, hle, hlong, (Option.some.inj hgap).symm⟩
  · cases hgap

/-- A step between capture times that is over the threshold. -/
def overThreshold (threshold : UInt64) (times : UInt64 × UInt64) : Bool :=
  threshold < times.2 - times.1

/-- The times of the gaps are the steps between the capture times that are over the threshold. -/
theorem point_gap_times (collection : ArchiveCollection) (device : DeviceId)
    (threshold : UInt64) :
    (pointGaps threshold device (devicePoints collection device)).map
        (fun gap => (gap.previousTimeNs, gap.nextTimeNs)) =
      ((devicePoints collection device).map
        DeviceTimelinePoint.captureTimeNs).consecutivePairs.filter (overThreshold threshold) := by
  have hsorted := List.pairwise_map.mp (times_in_order collection device)
  have hle : ∀ pair ∈ (devicePoints collection device).consecutivePairs,
      pair.1.captureTimeNs ≤ pair.2.captureTimeNs := fun pair hpair =>
    rel_of_consecutive hsorted hpair
  rw [map_consecutive, pointGaps]
  generalize (devicePoints collection device).consecutivePairs = pairs at hle
  induction pairs with
  | nil => rfl
  | cons pair pairs ih =>
      obtain ⟨hfirst, hrest⟩ := List.forall_mem_cons.mp hle
      rw [List.filterMap_cons, gap_between_of_le hfirst, List.map_cons, List.filter_cons]
      by_cases hlong : threshold < pair.2.captureTimeNs - pair.1.captureTimeNs
      · rw [if_pos hlong, ← ih hrest]
        exact (if_pos (decide_eq_true hlong)).symm
      · rw [if_neg hlong, ← ih hrest]
        exact (if_neg fun h => hlong (of_decide_eq_true h)).symm

/-- The record of a device at the start of a gap or at its end. -/
structure Bounds (collection : ArchiveCollection) (gap : ArchiveGap)
    (previous next : ArchiveCollectionRecordRef) : Prop where
  previous_mem : previous ∈ deviceRefs collection gap.device
  next_mem : next ∈ deviceRefs collection gap.device
  previous_time : previous.captureTimeNs = gap.previousTimeNs
  next_time : next.captureTimeNs = gap.nextTimeNs
  previous_path : previous.path = gap.previousArchive
  next_path : next.path = gap.nextArchive
  previous_last : ∀ ref ∈ deviceRefs collection gap.device,
    ref.captureTimeNs = gap.previousTimeNs → ref.sequence ≤ previous.sequence
  next_first : ∀ ref ∈ deviceRefs collection gap.device,
    ref.captureTimeNs = gap.nextTimeNs → next.sequence ≤ ref.sequence

/-- No point with the time of one of two neighbours of different times has a sequence between
theirs. -/
theorem sequence_beside_neighbours {collection : ArchiveCollection} {device : DeviceId}
    {pair : DeviceTimelinePoint × DeviceTimelinePoint}
    (hpair : pair ∈ (devicePoints collection device).consecutivePairs)
    (hless : pointTime pair.1 < pointTime pair.2) {point : DeviceTimelinePoint}
    (hpoint : point ∈ devicePoints collection device) :
    (pointTime point = pointTime pair.1 → pointSequence point ≤ pointSequence pair.1) ∧
      (pointTime point = pointTime pair.2 → pointSequence pair.2 ≤ pointSequence point) := by
  -- any other point of the device stands before the pair or behind it
  have hsides : toLex (pointTime point, pointSequence point) ≤
        toLex (pointTime pair.1, pointSequence pair.1) ∨
      toLex (pointTime pair.2, pointSequence pair.2) ≤
        toLex (pointTime point, pointSequence point) :=
    (sides_of_consecutive (points_in_order collection device) hpair hpoint).imp
      (fun h => h.elim (fun heq => heq ▸ le_rfl) id) (fun h => h.elim (fun heq => heq ▸ le_rfl) id)
  simp only [Prod.Lex.toLex_le_toLex] at hsides
  constructor
  · intro hsame
    omega
  · intro hsame
    omega

/-- A gap lies between two records of its device. -/
theorem point_gaps_bounds {collection : ArchiveCollection} {device : DeviceId}
    {threshold : UInt64} {gap : ArchiveGap}
    (h : gap ∈ pointGaps threshold device (devicePoints collection device)) :
    gap.gapNs = gap.nextTimeNs - gap.previousTimeNs ∧
      ∃ previous next, Bounds collection gap previous next := by
  obtain ⟨pair, hpair, hle, hlong, rfl⟩ := mem_point_gaps h
  obtain ⟨hprevious, hnext⟩ := mem_of_consecutive hpair
  obtain ⟨previous, hpreviousMem, hpreviousDevice, hpreviousPoint⟩ := mem_device_points.mp hprevious
  obtain ⟨next, hnextMem, hnextDevice, hnextPoint⟩ := mem_device_points.mp hnext
  have hlt : pair.1.captureTimeNs < pair.2.captureTimeNs := by
    refine lt_of_le_of_ne hle fun heq => ?_
    rw [heq, UInt64.sub_self] at hlong
    exact not_lt_of_ge UInt64.zero_le hlong
  have hmem {ref : ArchiveCollectionRecordRef} (hrecord : ref ∈ collection.records)
      (hdevice : ref.device = device) : ref ∈ deviceRefs collection device :=
    List.mem_filter.mpr ⟨hrecord, decide_eq_true hdevice⟩
  have hless : pointTime pair.1 < pointTime pair.2 := UInt64.lt_iff_toNat_lt.mp hlt
  have hbeside {ref : ArchiveCollectionRecordRef} (href : ref ∈ deviceRefs collection device) :=
    sequence_beside_neighbours hpair hless (mem_device_points.mpr
      ⟨ref, (List.mem_filter.mp href).1, of_decide_eq_true (List.mem_filter.mp href).2, rfl⟩)
  refine ⟨rfl, previous, next, hmem hpreviousMem hpreviousDevice, hmem hnextMem hnextDevice,
    congrArg DeviceTimelinePoint.captureTimeNs hpreviousPoint,
    congrArg DeviceTimelinePoint.captureTimeNs hnextPoint,
    congrArg DeviceTimelinePoint.archivePath hpreviousPoint,
    congrArg DeviceTimelinePoint.archivePath hnextPoint, fun ref href htime => ?_,
    fun ref href htime => ?_⟩
  · have hsequence : previous.sequence = pair.1.sequence :=
      congrArg DeviceTimelinePoint.sequence hpreviousPoint
    rw [hsequence, UInt32.le_iff_toNat_le]
    exact (hbeside href).1 (congrArg UInt64.toNat htime)
  · have hsequence : next.sequence = pair.2.sequence :=
      congrArg DeviceTimelinePoint.sequence hnextPoint
    rw [hsequence, UInt32.le_iff_toNat_le]
    exact (hbeside href).2 (congrArg UInt64.toNat htime)

section Gaps

variable {sortTimelines : List DeviceTimeline → List DeviceTimeline}
  {sortGaps : List ArchiveGap → List ArchiveGap}
  (htimelines : Sorts timelineBefore sortTimelines) (hgaps : Sorts gapBefore sortGaps)

include htimelines hgaps

/-- The gaps that are reported of a device are those between its points. -/
theorem gaps_of_device (collection : ArchiveCollection) (threshold : UInt64) (device : DeviceId) :
    ((detectArchiveGaps sortTimelines sortGaps collection threshold).filter
      fun gap => gap.device = device).Perm
        (pointGaps threshold device (devicePoints collection device)) := by
  have hdevice : ∀ device previous current gap,
      gapBetween device threshold previous current = some gap → gap.device = device :=
    fun _ _ _ _ h => gap_between_device h
  exact ((hgaps.perm _).filter _).trans (neighbours_report htimelines hdevice collection device)

/-- **Silences.** For every collection and threshold, a device is reported as silent between two
times exactly once when it has records at both, none strictly between, and they lie further apart
than the threshold; otherwise it is not. The reported archives are those of the last record before
the silence and of the first one behind it, by sequence, and longer silences come first. -/
theorem archive_gaps_exact (collection : ArchiveCollection) (threshold : UInt64) :
    let gaps := detectArchiveGaps sortTimelines sortGaps collection threshold
    (∀ device start finish,
      (gaps.map fun gap => (gap.device, gap.previousTimeNs, gap.nextTimeNs)).count
          (device, start, finish) =
        if start < finish ∧ threshold < finish - start ∧
            Adjacent ((deviceRefs collection device).map (·.captureTimeNs)) start finish
          then 1 else 0) ∧
      (∀ gap ∈ gaps, gap.gapNs = gap.nextTimeNs - gap.previousTimeNs ∧
        ∃ previous next, Bounds collection gap previous next) ∧
      gaps.Pairwise fun left right => right.gapNs ≤ left.gapNs := by
  intro gaps
  refine ⟨fun device start finish => ?_, fun gap hgap => ?_, ?_⟩
  · -- the gaps of the device alone count, and they are steps between its capture times
    have hcount : (gaps.map fun gap => (gap.device, gap.previousTimeNs, gap.nextTimeNs)).count
        (device, start, finish) =
          ((gaps.filter fun gap => gap.device = device).map fun gap =>
            (gap.previousTimeNs, gap.nextTimeNs)).count (start, finish) := by
      rw [List.count, List.count, List.countP_map, List.countP_map, List.countP_filter]
      refine List.countP_congr fun gap _ => ?_
      simp only [Function.comp_apply, beq_iff_eq, Prod.mk.injEq, Bool.and_eq_true,
        decide_eq_true_eq]
      exact and_comm
    have htimes := ((points_perm collection device).map DeviceTimelinePoint.captureTimeNs)
    rw [List.map_map] at htimes
    rw [hcount, ((gaps_of_device htimelines hgaps collection threshold device).map _).count_eq,
      point_gap_times]
    by_cases hlong : threshold < finish - start
    · have hkeep : overThreshold threshold (start, finish) = true := decide_eq_true hlong
      rw [List.count_filter hkeep]
      by_cases hlt : start < finish
      · rw [count_step (times_in_order collection device) hlt]
        refine if_congr ⟨fun h => ⟨hlt, hlong, h.of_perm htimes⟩, fun h =>
          h.2.2.of_perm htimes.symm⟩ rfl rfl
      · rw [if_neg fun h => hlt h.1, List.count_eq_zero]
        intro hmem
        have hle := rel_of_consecutive (times_in_order collection device) hmem
        obtain rfl : start = finish := le_antisymm hle (not_lt.mp hlt)
        rw [UInt64.sub_self] at hlong
        exact not_lt_of_ge UInt64.zero_le hlong
    · rw [if_neg fun h => hlong h.2.1, List.count_eq_zero]
      intro hmem
      exact hlong (of_decide_eq_true (List.mem_filter.mp hmem).2)
  · have hmem : gap ∈ gaps.filter fun other => other.device = gap.device :=
      List.mem_filter.mpr ⟨hgap, decide_eq_true rfl⟩
    exact point_gaps_bounds
      ((gaps_of_device htimelines hgaps collection threshold gap.device).mem_iff.mp hmem)
  · refine (hgaps.pairwise _).imp fun {left right} hle => ?_
    have hkeys := Prod.Lex.toLex_le_toLex.mp (gap_before_compares.not_less_iff.mp hle)
    exact hkeys.elim le_of_lt fun h => h.1.le

end Gaps

/-- A device with records in two archives that is silent for seventeen nanoseconds. -/
theorem one_silence :
    let collection : ArchiveCollection := { records :=
      [{ path := ⟨"a.ath"⟩, device := 7 }, { path := ⟨"a.ath"⟩, device := 7, captureTimeNs := 3 },
        { path := ⟨"b.ath"⟩, device := 7, captureTimeNs := 20 }] }
    let gaps := detectArchiveGaps (stableSort timelineBefore) (stableSort gapBefore) collection 5
    (gaps.map fun gap => (gap.device, gap.previousTimeNs, gap.nextTimeNs)).count (7, 3, 20) =
      1 := by
  intro collection gaps
  have hsilent : (3 : UInt64) < 20 ∧ (5 : UInt64) < 20 - 3 ∧
      Adjacent ((deviceRefs collection 7).map (·.captureTimeNs)) 3 20 := by decide
  exact ((archive_gaps_exact timeline_before_compares.stable_sort_sorts
    gap_before_compares.stable_sort_sorts collection 5).1 7 3 20).trans (if_pos hsilent)

/-! ## Anomalies between neighbours -/

/-- The anomaly between two points. -/
def anomalyOf (device : DeviceId) (previous current : DeviceTimelinePoint) : SequenceAnomaly where
  device := device
  previousSequence := previous.sequence
  currentSequence := current.sequence
  captureTimeNs := current.captureTimeNs
  archivePath := current.archivePath
  reason := anomalyReason previous.sequence current.sequence

/-- The later sequence is not the one behind the earlier sequence. -/
def broken (pair : DeviceTimelinePoint × DeviceTimelinePoint) : Bool :=
  pointSequence pair.2 ≠ pointSequence pair.1 + 1

/-- The three comparisons leave the next sequence alone. Behind the largest one there is none, since
a sequence that is back at zero moved backwards. -/
theorem anomaly_between_eq (device : DeviceId) (pair : DeviceTimelinePoint × DeviceTimelinePoint) :
    anomalyBetween device pair.1 pair.2 =
      if broken pair then some (anomalyOf device pair.1 pair.2) else none := by
  have hcond : (¬pair.2.sequence = pair.1.sequence ∧ ¬pair.2.sequence < pair.1.sequence ∧
      ¬pair.2.sequence > pair.1.sequence + 1) ↔ ¬broken pair = true := by
    rw [broken, pointSequence, pointSequence, decide_eq_true_iff, not_not,
      ← UInt32.toNat_inj, UInt32.lt_iff_toNat_lt, gt_iff_lt, UInt32.lt_iff_toNat_lt,
      UInt32.toNat_add]
    have hbound := pair.1.sequence.toNat_lt
    have hbound' := pair.2.sequence.toNat_lt
    show _ ∧ _ ∧ ¬(pair.1.sequence.toNat + 1) % 2 ^ 32 < _ ↔ _
    omega
  unfold anomalyBetween
  by_cases hbroken : broken pair = true
  · rw [if_pos hbroken]
    exact if_neg fun h => hcond.mp h hbroken
  · rw [if_neg hbroken]
    exact if_pos (hcond.mpr hbroken)

/-- An anomaly between points is about their device. -/
theorem anomaly_between_device {device : DeviceId} {previous current : DeviceTimelinePoint}
    {anomaly : SequenceAnomaly} (h : anomalyBetween device previous current = some anomaly) :
    anomaly.device = device := by
  unfold anomalyBetween at h
  dsimp only at h
  split at h
  · cases h
  · rw [← Option.some.inj h]

/-- The anomalies between the points of a device. -/
def pointAnomalies (device : DeviceId) (points : List DeviceTimelinePoint) :
    List SequenceAnomaly :=
  (points.consecutivePairs.filter broken).map fun pair => anomalyOf device pair.1 pair.2

/-- The anomalies are found pair by pair. -/
theorem filter_map_anomalies (device : DeviceId) (points : List DeviceTimelinePoint) :
    (points.consecutivePairs.filterMap fun pair => anomalyBetween device pair.1 pair.2) =
      pointAnomalies device points := by
  simp only [anomaly_between_eq]
  rw [pointAnomalies]
  induction points.consecutivePairs with
  | nil => rfl
  | cons pair pairs ih =>
      rw [List.filterMap_cons, List.filter_cons]
      by_cases hbroken : broken pair = true
      · rw [if_pos hbroken, if_pos hbroken, List.map_cons, ih]
      · rw [if_neg hbroken, if_neg hbroken, ih]

theorem mem_point_anomalies {device : DeviceId} {points : List DeviceTimelinePoint}
    {anomaly : SequenceAnomaly} :
    anomaly ∈ pointAnomalies device points ↔ ∃ pair ∈ points.consecutivePairs,
      pointSequence pair.2 ≠ pointSequence pair.1 + 1 ∧
        anomalyOf device pair.1 pair.2 = anomaly := by
  simp only [pointAnomalies, List.mem_map, List.mem_filter, broken, decide_eq_true_eq, and_assoc]

/-- Between the points of a device there is no anomaly when each sequence is the one behind that
before it. -/
theorem point_anomalies_eq_nil_iff {device : DeviceId} {points : List DeviceTimelinePoint} :
    pointAnomalies device points = [] ↔
      ∃ start, points.map pointSequence = List.range' start points.length := by
  have hchain := @chain_succ_iff (points.map pointSequence)
  rw [List.length_map] at hchain
  rw [← hchain, chain_iff, map_consecutive, List.forall_mem_map, pointAnomalies,
    List.map_eq_nil_iff, List.filter_eq_nil_iff]
  refine forall₂_congr fun pair _ => ?_
  rw [broken, decide_eq_true_iff, not_not]
  rfl

section Anomalies

variable {sortTimelines : List DeviceTimeline → List DeviceTimeline}
  {sortAnomalies : List SequenceAnomaly → List SequenceAnomaly}
  (htimelines : Sorts timelineBefore sortTimelines) (hanomalies : Sorts anomalyBefore sortAnomalies)

include htimelines hanomalies

/-- The anomalies that are reported of a device are those between its points. -/
theorem anomalies_of_device (collection : ArchiveCollection) (device : DeviceId) :
    ((detectSequenceAnomalies sortTimelines sortAnomalies collection).filter
      fun anomaly => anomaly.device = device).Perm
        (pointAnomalies device (devicePoints collection device)) := by
  have hdevice : ∀ device previous current anomaly,
      anomalyBetween device previous current = some anomaly → anomaly.device = device :=
    fun _ _ _ _ h => anomaly_between_device h
  rw [← filter_map_anomalies]
  exact ((hanomalies.perm _).filter _).trans
    (neighbours_report htimelines hdevice collection device)

theorem mem_anomalies_iff {collection : ArchiveCollection} {anomaly : SequenceAnomaly} :
    anomaly ∈ detectSequenceAnomalies sortTimelines sortAnomalies collection ↔
      anomaly ∈ pointAnomalies anomaly.device (devicePoints collection anomaly.device) := by
  rw [← (anomalies_of_device htimelines hanomalies collection anomaly.device).mem_iff,
    List.mem_filter]
  simp only [decide_true, and_true]

end Anomalies

/-! ## Counting upwards -/

/-- The records can be put in the order of their capture times so that each sequence is one more
than the one before it. -/
def Unbroken (refs : List ArchiveCollectionRecordRef) : Prop :=
  ∃ start ordered, refs.Perm ordered ∧
    (ordered.Pairwise fun left right => left.captureTimeNs ≤ right.captureTimeNs) ∧
    ordered.map (fun ref => ref.sequence.toNat) = List.range' start refs.length

/-- The later a record, the larger its sequence. -/
structure CountsUp (refs : List ArchiveCollectionRecordRef) : Prop where
  nodup : (refs.map fun ref => ref.sequence).Nodup
  grows : ∀ left ∈ refs, ∀ right ∈ refs,
    left.captureTimeNs < right.captureTimeNs → left.sequence < right.sequence

/-- No record has the sequence, and records have smaller and larger ones. -/
def Lost (refs : List ArchiveCollectionRecordRef) (sequence : ℕ) : Prop :=
  (∃ ref ∈ refs, ref.sequence.toNat < sequence) ∧ (∃ ref ∈ refs, sequence < ref.sequence.toNat) ∧
    ∀ ref ∈ refs, ref.sequence.toNat ≠ sequence

/-- The timeline of a device leaves its order no other choice. -/
theorem unbroken_iff {collection : ArchiveCollection} {device : DeviceId} :
    Unbroken (deviceRefs collection device) ↔
      ∃ start, (devicePoints collection device).map pointSequence =
        List.range' start (devicePoints collection device).length := by
  let refBefore (left right : ArchiveCollectionRecordRef) : Bool :=
    pointBefore (makeTimelinePoint left) (makeTimelinePoint right)
  let time (ref : ArchiveCollectionRecordRef) : ℕ := ref.captureTimeNs.toNat
  let sequence (ref : ArchiveCollectionRecordRef) : ℕ := ref.sequence.toNat
  have hbefore : ∀ left right, refBefore left right = true ↔ Before time sequence left right :=
    fun left right => point_before_iff _ _
  have hpoints : devicePoints collection device =
      (stableSort refBefore (deviceRefs collection device)).map makeTimelinePoint := by
    have hmap : ∀ left right, refBefore left right =
        pointBefore (makeTimelinePoint left) (makeTimelinePoint right) := fun _ _ => rfl
    exact (map_stable_sort hmap _).symm
  have hperm := stable_sort_perm refBefore (deviceRefs collection device)
  have hsequences (refs : List ArchiveCollectionRecordRef) :
      (refs.map makeTimelinePoint).map pointSequence = refs.map sequence := by
    rw [List.map_map]
    rfl
  constructor
  · rintro ⟨start, ordered, hall, htimes, hrange⟩
    refine ⟨start, ?_⟩
    -- the sequences increase, so the list is sorted and nothing stands at one place with another
    have hincrease : ordered.Pairwise fun left right => sequence left < sequence right := by
      refine List.pairwise_map.mp ?_
      rw [hrange]
      exact List.pairwise_lt_range'
    have hsorted : ordered.Pairwise (Before time sequence) := by
      refine (htimes.and hincrease).imp fun {left right} hboth => ?_
      exact (UInt64.le_iff_toNat_le.mp hboth.1).lt_or_eq.imp_right fun heq => ⟨heq, hboth.2⟩
    have hplaces : (deviceRefs collection device).Pairwise fun left right =>
        sequence left ≠ sequence right :=
      (hall.pairwise_iff Ne.symm).mpr (hincrease.imp ne_of_lt)
    have hsame : stableSort refBefore (deviceRefs collection device) = ordered :=
      eq_of_before (pairwise_sort hbefore hplaces) hsorted (hperm.trans hall)
    rw [hpoints, hsame, hsequences, List.length_map, ← hall.length_eq]
    exact hrange
  · rintro ⟨start, hrange⟩
    rw [hpoints, hsequences, List.length_map, hperm.length_eq] at hrange
    refine ⟨start, _, hperm.symm, ?_, hrange⟩
    refine (pairwise_key (compares_lex hbefore) _).imp fun {left right} hle => ?_
    rw [UInt64.le_iff_toNat_le]
    exact (Prod.Lex.toLex_le_toLex.mp hle).elim le_of_lt fun heq => heq.1.le

/-- The timeline of a device that counts upwards is in the order of its sequences. -/
theorem CountsUp.sequences_increase {collection : ArchiveCollection} {device : DeviceId}
    (h : CountsUp (deviceRefs collection device)) :
    ((devicePoints collection device).map pointSequence).Pairwise (· < ·) := by
  have hnodup : (devicePoints collection device).Pairwise fun left right =>
      pointSequence left ≠ pointSequence right := by
    rw [((points_perm collection device).pairwise_iff Ne.symm), List.pairwise_map]
    exact (List.pairwise_map.mp h.nodup).imp fun hne heq => hne (UInt32.toNat_inj.mp heq)
  refine List.pairwise_map.mpr (((points_in_order collection device).and hnodup).imp_of_mem
    fun {left right} hleft hright hboth => ?_)
  obtain ⟨ref, href, hdevice, rfl⟩ := mem_device_points.mp hleft
  obtain ⟨ref', href', hdevice', rfl⟩ := mem_device_points.mp hright
  rcases Prod.Lex.toLex_le_toLex.mp hboth.1 with htime | ⟨-, hsequence⟩
  · exact UInt32.lt_iff_toNat_lt.mp (h.grows ref
      (List.mem_filter.mpr ⟨href, decide_eq_true hdevice⟩) ref'
      (List.mem_filter.mpr ⟨href', decide_eq_true hdevice'⟩) (UInt64.lt_iff_toNat_lt.mpr htime))
  · exact lt_of_le_of_ne hsequence hboth.2

/-- A sequence is lost when it lies between two that were seen, and was not. -/
theorem lost_iff {collection : ArchiveCollection} {device : DeviceId} {sequence : ℕ} :
    Lost (deviceRefs collection device) sequence ↔
      (∃ low ∈ (devicePoints collection device).map pointSequence, low < sequence) ∧
      (∃ high ∈ (devicePoints collection device).map pointSequence, sequence < high) ∧
      sequence ∉ (devicePoints collection device).map pointSequence := by
  have hmem (number : ℕ) : number ∈ (devicePoints collection device).map pointSequence ↔
      ∃ ref ∈ deviceRefs collection device, ref.sequence.toNat = number := by
    rw [((points_perm collection device).map pointSequence).mem_iff, List.map_map, List.mem_map]
    rfl
  simp only [hmem, Lost]
  constructor
  · rintro ⟨⟨low, hlow, hless⟩, ⟨high, hhigh, hmore⟩, hnone⟩
    exact ⟨⟨_, ⟨low, hlow, rfl⟩, hless⟩, ⟨_, ⟨high, hhigh, rfl⟩, hmore⟩,
      fun ⟨ref, href, heq⟩ => hnone ref href heq⟩
  · rintro ⟨⟨_, ⟨low, hlow, rfl⟩, hless⟩, ⟨_, ⟨high, hhigh, rfl⟩, hmore⟩, hnone⟩
    exact ⟨⟨low, hlow, hless⟩, ⟨high, hhigh, hmore⟩, fun ref href heq => hnone ⟨ref, href, heq⟩⟩

section Reports

variable {sortTimelines : List DeviceTimeline → List DeviceTimeline}
  {sortAnomalies : List SequenceAnomaly → List SequenceAnomaly}
  (htimelines : Sorts timelineBefore sortTimelines) (hanomalies : Sorts anomalyBefore sortAnomalies)

include htimelines hanomalies

/-- Nothing is reported when each device runs on without a break. -/
theorem no_anomalies_iff (collection : ArchiveCollection) :
    detectSequenceAnomalies sortTimelines sortAnomalies collection = [] ↔
      ∀ device, Unbroken (deviceRefs collection device) := by
  simp only [unbroken_iff]
  constructor
  · intro hnone device
    have hperm := anomalies_of_device htimelines hanomalies collection device
    rw [hnone] at hperm
    exact point_anomalies_eq_nil_iff.mp hperm.nil_eq.symm
  · intro hall
    refine List.eq_nil_iff_forall_not_mem.mpr fun anomaly hanomaly => ?_
    have hmem := (mem_anomalies_iff htimelines hanomalies).mp hanomaly
    rw [point_anomalies_eq_nil_iff.mpr (hall anomaly.device)] at hmem
    exact List.not_mem_nil hmem

/-- Sequences that grow neither repeat nor move backwards. -/
theorem gap_of_counts_up {collection : ArchiveCollection} {anomaly : SequenceAnomaly}
    (hup : CountsUp (deviceRefs collection anomaly.device))
    (hanomaly : anomaly ∈ detectSequenceAnomalies sortTimelines sortAnomalies collection) :
    anomaly.reason = "sequence gap" := by
  obtain ⟨pair, hpair, -, heq⟩ := mem_point_anomalies.mp
    ((mem_anomalies_iff htimelines hanomalies).mp hanomaly)
  have hlt : pair.1.sequence < pair.2.sequence := UInt32.lt_iff_toNat_lt.mpr
    (rel_of_consecutive (List.pairwise_map.mp hup.sequences_increase) hpair)
  rw [← heq]
  show anomalyReason pair.1.sequence pair.2.sequence = "sequence gap"
  rw [anomalyReason, if_neg (UInt32.ne_of_lt hlt).symm, if_neg (UInt32.lt_asymm hlt)]

/-- A sequence between two that grow was lost between two neighbours, and they are reported. -/
theorem lost_iff_spanned {collection : ArchiveCollection} {device : DeviceId}
    (hup : CountsUp (deviceRefs collection device)) (sequence : ℕ) :
    Lost (deviceRefs collection device) sequence ↔
      ∃ anomaly ∈ detectSequenceAnomalies sortTimelines sortAnomalies collection,
        anomaly.device = device ∧ anomaly.previousSequence.toNat < sequence ∧
          sequence < anomaly.currentSequence.toNat := by
  rw [lost_iff]
  constructor
  · rintro ⟨⟨low, hlow, hbelow⟩, ⟨high, hhigh, habove⟩, hnone⟩
    obtain ⟨_, hstep, hacross⟩ := exists_step_across
      (hup.sequences_increase.imp le_of_lt) hlow hbelow hhigh habove hnone
    rw [map_consecutive] at hstep
    obtain ⟨pair, hpair, rfl⟩ := List.mem_map.mp hstep
    refine ⟨anomalyOf device pair.1 pair.2, ?_, rfl, hacross⟩
    refine (mem_anomalies_iff htimelines hanomalies).mpr
      (mem_point_anomalies.mpr ⟨pair, hpair, ?_, rfl⟩)
    have hfirst : pointSequence pair.1 < sequence := hacross.1
    have hsecond : sequence < pointSequence pair.2 := hacross.2
    omega
  · rintro ⟨anomaly, hanomaly, rfl, hacross⟩
    obtain ⟨pair, hpair, -, heq⟩ := mem_point_anomalies.mp
      ((mem_anomalies_iff htimelines hanomalies).mp hanomaly)
    have hfirst : pointSequence pair.1 < sequence := by
      rw [← heq] at hacross
      exact hacross.1
    have hsecond : sequence < pointSequence pair.2 := by
      rw [← heq] at hacross
      exact hacross.2
    obtain ⟨hprevious, hcurrent⟩ := mem_of_consecutive hpair
    refine ⟨⟨_, List.mem_map_of_mem hprevious, hfirst⟩,
      ⟨_, List.mem_map_of_mem hcurrent, hsecond⟩, fun hmem => ?_⟩
    -- a record with the sequence would stand between the neighbours
    obtain ⟨point, hpoint, rfl⟩ := List.mem_map.mp hmem
    rcases sides_of_consecutive (List.pairwise_map.mp hup.sequences_increase) hpair hpoint with
      (rfl | hless) | (rfl | hmore)
    · exact lt_irrefl _ hfirst
    · exact lt_asymm hless hfirst
    · exact lt_irrefl _ hsecond
    · exact lt_asymm hmore hsecond

/-- **Lost sequences.** For every collection, nothing is reported exactly when the records of every
device run on without a break, whichever archives they are in. Of a device whose sequences grow with
its capture times every report is a gap, and a sequence was lost exactly when one of the gaps spans
it. -/
theorem sequence_anomalies_exact (collection : ArchiveCollection) :
    let anomalies := detectSequenceAnomalies sortTimelines sortAnomalies collection
    (anomalies = [] ↔ ∀ device, Unbroken (deviceRefs collection device)) ∧
      ∀ device, CountsUp (deviceRefs collection device) →
        (∀ anomaly ∈ anomalies, anomaly.device = device → anomaly.reason = "sequence gap") ∧
        ∀ sequence, Lost (deviceRefs collection device) sequence ↔
          ∃ anomaly ∈ anomalies, anomaly.device = device ∧
            anomaly.previousSequence.toNat < sequence ∧
            sequence < anomaly.currentSequence.toNat := by
  intro anomalies
  refine ⟨no_anomalies_iff htimelines hanomalies collection, fun device hup => ⟨?_, ?_⟩⟩
  · rintro anomaly hanomaly rfl
    exact gap_of_counts_up htimelines hanomalies hup hanomaly
  · exact lost_iff_spanned htimelines hanomalies hup

end Reports

theorem anomaly_before_compares : Compares anomalyBefore fun anomaly =>
    toLex (anomaly.device, anomaly.captureTimeNs) :=
  compares_of_keys fun _ _ => rfl

/-- A device whose records jump from the fifth to the ninth sequence. -/
theorem sequences_lost_between_records :
    let collection : ArchiveCollection := { records :=
      [{ path := ⟨"b.ath"⟩, device := 7, captureTimeNs := 20, sequence := 9 },
        { path := ⟨"a.ath"⟩, device := 7, captureTimeNs := 3, sequence := 5 }] }
    ∃ anomaly ∈ detectSequenceAnomalies (stableSort timelineBefore) (stableSort anomalyBefore)
        collection,
      anomaly.device = 7 ∧ anomaly.previousSequence.toNat < 7 ∧
        7 < anomaly.currentSequence.toNat := by
  intro collection
  have hup : CountsUp (deviceRefs collection 7) := ⟨by decide, by decide⟩
  have hlost : Lost (deviceRefs collection 7) 7 := ⟨by decide, by decide, by decide⟩
  exact (((sequence_anomalies_exact timeline_before_compares.stable_sort_sorts
    anomaly_before_compares.stable_sort_sorts collection).2 7 hup).2 7).mp hlost

end Aethon.Storage
