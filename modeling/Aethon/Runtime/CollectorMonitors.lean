import Aethon.Runtime.CollectorArchive
import Aethon.Storage.CollectionRecords
import Aethon.Storage.StatisticsTimelines
import Aethon.Stream.SessionRuns

/-!
# What the monitors of a collector agree on

The session tracker and the link monitor of a collector see each packet when it arrives, and the
statistics over its archive see the packets later. `monitors_agree` says how far the three agree on
the sequences of a device: on those that did not advance, and, where all advance, on the gaps.
-/

namespace Aethon.Runtime

open Actions Consecutive FileStream FileSystem Protocol Storage Aethon.Stream Runs StableSort

/-! ## Sequences -/

/-- How many sequences are not beyond all that came in front of them. -/
def countBehind : UInt32 → List UInt32 → ℕ
  | _, [] => 0
  | last, next :: sequences =>
      if last < next then countBehind next sequences else countBehind last sequences + 1

/-- None is behind exactly when each is beyond the one in front of it. -/
theorem count_behind_eq_zero_iff {last : UInt32} {sequences : List UInt32} :
    countBehind last sequences = 0 ↔ (last :: sequences).IsChain (· < ·) := by
  induction sequences generalizing last with
  | nil => exact iff_of_true rfl (List.isChain_singleton last)
  | cons next sequences ih =>
      rw [countBehind, List.isChain_cons_cons]
      by_cases hlt : last < next
      · rw [if_pos hlt, ih, and_iff_right hlt]
      · rw [if_neg hlt]
        exact iff_of_false (Nat.succ_ne_zero _) fun h => hlt h.1

/-- No more packets are behind than there are. -/
theorem length_le_of_count_behind (last : UInt32) (sequences : List UInt32) :
    countBehind last sequences ≤ sequences.length := by
  induction sequences generalizing last with
  | nil => exact Nat.zero_le _
  | cons next sequences ih =>
      rw [countBehind, List.length_cons]
      split
      · exact (ih next).trans (Nat.le_succ _)
      · exact Nat.succ_le_succ (ih last)

/-- The later sequence does not advance. -/
def regresses (pair : UInt32 × UInt32) : Bool :=
  pair.2 ≤ pair.1

/-- The later sequence leaves more out than a tracker lets pass. -/
def skips (options : SessionTrackerOptions) (pair : UInt32 × UInt32) : Bool :=
  sequenceGap pair.2 pair.1 > options.maxGapWithoutWarning

/-- Where each sequence advances, the larger step leaves more out. -/
theorem skips_iff {options : SessionTrackerOptions} {pair : UInt32 × UInt32}
    (h : pair.1 < pair.2) : skips options pair = true ↔
      pair.1.toNat + options.maxGapWithoutWarning.toNat + 1 < pair.2.toNat := by
  have hlt := UInt32.lt_iff_toNat_lt.mp h
  have hbound := pair.2.toNat_lt
  have hnext : (pair.1 + 1).toNat = pair.1.toNat + 1 := by
    rw [UInt32.toNat_add]
    exact Nat.mod_eq_of_lt (by show pair.1.toNat + 1 < _; omega)
  rw [skips, decide_eq_true_iff, gt_iff_lt, UInt32.lt_iff_toNat_lt, sequenceGap]
  by_cases hle : pair.2 ≤ pair.1 + 1
  · rw [if_pos hle]
    rw [UInt32.le_iff_toNat_le, hnext] at hle
    show _ < 0 ↔ _
    omega
  · rw [if_neg hle]
    rw [UInt32.le_iff_toNat_le, hnext] at hle
    have hdifference : (pair.2 - pair.1).toNat = pair.2.toNat - pair.1.toNat :=
      UInt32.toNat_sub_of_le _ _ (UInt32.le_of_lt h)
    have hone : (1 : UInt32) ≤ pair.2 - pair.1 := by
      rw [UInt32.le_iff_toNat_le, hdifference]
      show 1 ≤ _
      omega
    rw [UInt32.toNat_sub_of_le _ _ hone, hdifference]
    show _ < _ - 1 ↔ _
    omega

/-! ## Sessions -/

/-- The call of the tracker for a packet with its arrival time. -/
def observation (entry : UInt64 × Packet) : SessionCall :=
  .observe entry.2 entry.1

/-- A packet adds a gap when its sequence skips some. -/
theorem gaps_observe (options : SessionTrackerOptions) (state : SessionState) (packet : Packet)
    (arrivalTimeNs : UInt64) : (state.observe options packet arrivalTimeNs).2.gaps =
      if state.lastSequence < packet.sequence ∧ skips options (state.lastSequence, packet.sequence)
      then state.gaps + 1 else state.gaps := by
  have hreopened : (state.reopen packet arrivalTimeNs).2.lastSequence = state.lastSequence ∧
      (state.reopen packet arrivalTimeNs).2.gaps = state.gaps := by
    rw [SessionState.reopen_eq]
    exact ⟨rfl, rfl⟩
  have htimed : ∀ sequenced : SessionState,
      (sequenced.observeTimestamp packet).2.gaps = sequenced.gaps := by
    intro sequenced
    unfold SessionState.observeTimestamp
    split <;> rfl
  show (((state.reopen packet arrivalTimeNs).2.observeSequence options packet).2.observeTimestamp
    packet).2.gaps = _
  rw [htimed, ← hreopened.1, ← hreopened.2]
  generalize (state.reopen packet arrivalTimeNs).2 = opened
  unfold SessionState.observeSequence sequenceAfter skips
  by_cases heq : packet.sequence = opened.lastSequence
  · rw [if_pos heq, heq]
    exact (if_neg fun h => UInt32.lt_irrefl _ h.1).symm
  rw [if_neg heq]
  by_cases hlt : opened.lastSequence < packet.sequence
  · rw [if_pos (decide_eq_true hlt)]
    by_cases hskips :
        sequenceGap packet.sequence opened.lastSequence > options.maxGapWithoutWarning
    · rw [if_pos hskips]
      exact (if_pos ⟨hlt, decide_eq_true hskips⟩).symm
    · rw [if_neg hskips]
      exact (if_neg fun h => hskips (of_decide_eq_true h.2)).symm
  · rw [if_neg (by simpa using hlt)]
    exact (if_neg fun h => hlt h.1).symm

/-- What further packets of its device leave of a session. -/
theorem observed_session (options : SessionTrackerOptions) (entries : List (UInt64 × Packet))
    {history : DeviceHistory} {state : SessionState} (hstate : history.session = some state) :
    let sequences := entries.map fun entry => entry.2.sequence
    ∃ after, (run (DeviceHistory.step options) history (entries.map observation)).session =
        some after ∧
      after.packets = state.packets + UInt64.ofNat entries.length ∧
      after.duplicates =
        state.duplicates + UInt64.ofNat (countBehind state.lastSequence sequences) ∧
      ((state.lastSequence :: sequences).IsChain (· < ·) → after.gaps = state.gaps +
        UInt64.ofNat ((state.lastSequence :: sequences).consecutivePairs.countP
          (skips options))) := by
  induction entries generalizing history state with
  | nil => exact ⟨state, hstate, (UInt64.add_zero _).symm, (UInt64.add_zero _).symm,
      fun _ => (UInt64.add_zero _).symm⟩
  | cons entry entries ih =>
      obtain ⟨remarks, seen, gaps, regressions, hobserve, -⟩ :=
        state.observe_spec options entry.2 entry.1
      have hgaps := gaps_observe options state entry.2 entry.1
      have hnext : (history.step options (observation entry)).session =
          some (state.observe options entry.2 entry.1).2 := by
        show some (observeDevice options history.session entry.2 entry.1).2 = _
        rw [hstate]
        rfl
      rw [hobserve] at hnext hgaps
      replace hgaps : gaps = _ := hgaps
      obtain ⟨after, hafter, hpackets, hduplicates, hskipped⟩ := ih hnext
      refine ⟨after, hafter, ?_, ?_, fun hchain => ?_⟩
      · rw [hpackets, List.length_cons, UInt64.ofNat_add]
        show state.packets + 1 + _ = state.packets + (_ + 1)
        ac_rfl
      · rw [hduplicates, List.map_cons, countBehind]
        by_cases hlt : state.lastSequence < entry.2.sequence
        · simp only [if_pos hlt]
        · simp only [if_neg hlt]
          rw [UInt64.ofNat_add]
          show state.duplicates + 1 + _ = state.duplicates + (_ + 1)
          ac_rfl
      · rw [List.map_cons, List.isChain_cons_cons] at hchain
        obtain ⟨hlt, hchain⟩ := hchain
        simp only [if_pos hlt] at hskipped
        rw [hskipped hchain, List.map_cons, consecutive_cons_cons, List.countP_cons, hgaps]
        by_cases hskips : skips options (state.lastSequence, entry.2.sequence) = true
        · rw [if_pos ⟨hlt, hskips⟩, if_pos hskips, UInt64.ofNat_add]
          show state.gaps + 1 + _ = state.gaps + (_ + 1)
          ac_rfl
        · rw [if_neg fun h => hskips h.2, if_neg hskips, Nat.add_zero]

/-- A device has at most one session in a snapshot. -/
theorem sessions_of_device (options : SessionTrackerOptions) (calls : List SessionCall)
    (device : DeviceId) :
    (SessionHistory.after options calls).tracker.snapshot.sessions.filter (·.device = device) =
      ((SessionHistory.after options calls).tracker.find device).toList := by
  have hkeyed := SessionHistory.keyed_after options calls
  generalize SessionHistory.after options calls = history at hkeyed
  have hlisted : ∀ (entries : List (DeviceId × SessionState)) (snapshot : SessionTrackerSnapshot),
      (entries.foldl (fun snapshot entry => accumulate
          { snapshot with sessions := snapshot.sessions ++ [entry.2] } entry.2)
        snapshot).sessions = snapshot.sessions ++ entries.map Prod.snd := by
    intro entries
    induction entries with
    | nil => exact fun snapshot => (List.append_nil _).symm
    | cons entry entries ih =>
        intro snapshot
        rw [List.foldl_cons, ih]
        exact List.append_assoc ..
  have hcompares : Compares
      (fun left right : SessionState => decide (left.device < right.device)) fun state =>
        state.device.toNat :=
    fun left right => decide_eq_true_iff.trans UInt64.lt_iff_toNat_lt
  have hfound : (history.tracker.sessions.toList.map Prod.snd).filter (·.device = device) =
      (history.tracker.find device).toList := by
    have hkeys : (history.tracker.sessions.toList.map Prod.snd).filter (·.device = device) =
        (history.tracker.sessions.toList.filter fun entry => entry.1 = device).map Prod.snd := by
      rw [List.filter_map]
      refine congrArg _ (List.filter_congr fun entry hentry => ?_)
      have hsession : history.tracker.find entry.1 = some entry.2 :=
        Std.ExtTreeMap.mem_toList_iff_getElem?_eq_some.mp hentry
      show decide (entry.2.device = device) = _
      rw [hkeyed.device entry.1 entry.2 hsession]
    rw [hkeys, OrderedMap.filter_toList_key]
    show ((history.tracker.find device).map _).toList.map Prod.snd = _
    cases history.tracker.find device <;> rfl
  unfold SessionTracker.snapshot
  dsimp only
  rw [hlisted, List.nil_append, filter_stable_sort hcompares, hfound]
  refine stable_sort_of_pairwise hcompares ?_
  cases history.tracker.find device with
  | none => exact List.Pairwise.nil
  | some state => exact List.pairwise_singleton _ _

/-- A device of which a tracker has seen no packet has no session. -/
theorem no_session_of_none {entries : List (UInt64 × Packet)} {device : DeviceId}
    (hentries : entries.filter (fun entry => entry.2.device = device) = []) :
    (SessionHistory.after {} (entries.map observation)).tracker.find device = none := by
  have hconcern : (entries.map observation).filter (SessionCall.concerns device) = [] := by
    rw [List.filter_map]
    exact congrArg (List.map observation) hentries
  have hpart := SessionHistory.part_after {} device (entries.map observation)
  rw [hconcern, run_nil] at hpart
  exact congrArg DeviceHistory.session hpart

/-- What a tracker holds of a device of which it has seen packets. -/
theorem session_of_packets (entries : List (UInt64 × Packet)) (device : DeviceId)
    {first : UInt64 × Packet} {rest : List (UInt64 × Packet)}
    (hentries : entries.filter (fun entry => entry.2.device = device) = first :: rest)
    (hcount : entries.length < 2 ^ 64) :
    let sequences := (first :: rest).map fun entry => entry.2.sequence
    ∃ session, (SessionHistory.after {} (entries.map observation)).tracker.find device =
        some session ∧
      session.packets.toNat = (first :: rest).length ∧
      (session.duplicates = 0 ↔ sequences.IsChain (· < ·)) ∧
      (sequences.IsChain (· < ·) →
        session.gaps.toNat = sequences.consecutivePairs.countP (skips {})) := by
  intro sequences
  have hconcern : (entries.map observation).filter (SessionCall.concerns device) =
      (first :: rest).map observation := by
    rw [← hentries, List.filter_map]
    rfl
  have hpart := SessionHistory.part_after {} device (entries.map observation)
  rw [hconcern, List.map_cons, run_cons] at hpart
  obtain ⟨session, hsession, hpackets, hduplicates, hgaps⟩ :=
    @observed_session {} rest (DeviceHistory.step {} {} (observation first)) _ rfl
  have hlength : rest.length + 1 < 2 ^ 64 := by
    have hle := List.length_filter_le (fun entry : UInt64 × Packet =>
      decide (entry.2.device = device)) entries
    rw [hentries, List.length_cons] at hle
    omega
  have hbehind := length_le_of_count_behind first.2.sequence
    (rest.map fun entry => entry.2.sequence)
  rw [List.length_map] at hbehind
  refine ⟨session, (congrArg DeviceHistory.session hpart).trans hsession, ?_, ?_, fun hchain => ?_⟩
  · have hone : session.packets = UInt64.ofNat (rest.length + 1) := by
      rw [hpackets, UInt64.ofNat_add, UInt64.add_comm]
      rfl
    rw [hone]
    exact UInt64.toNat_ofNat_of_lt' hlength
  · have hzero : session.duplicates = UInt64.ofNat (countBehind first.2.sequence
        (rest.map fun entry => entry.2.sequence)) := hduplicates.trans (UInt64.zero_add _)
    rw [hzero, ← UInt64.toNat_inj]
    refine Iff.trans ?_ count_behind_eq_zero_iff
    exact Eq.congr_left (UInt64.toNat_ofNat_of_lt' (lt_of_le_of_lt hbehind (by
      show _ < 2 ^ 64
      omega)))
  · have hskipped := (hgaps hchain).trans (UInt64.zero_add _)
    have hpairs : (first.2.sequence :: rest.map fun entry =>
        entry.2.sequence).consecutivePairs.length ≤ rest.length := by
      rw [List.consecutivePairs, List.length_zip, List.tail_cons, List.length_map]
      exact Nat.min_le_right _ _
    rw [hskipped]
    refine UInt64.toNat_ofNat_of_lt' (lt_of_le_of_lt (List.countP_le_length.trans hpairs) ?_)
    show _ < 2 ^ 64
    omega

/-! ## Links -/

/-- The sample that the link monitor keeps of a packet. -/
def linkSample (entry : UInt64 × Packet) : LinkSample :=
  ⟨entry.2.device, entry.1, entry.2.sequence⟩

/-- The samples of a device are those grouped under it. -/
theorem lookup_group_by_device (samples : List LinkSample) (device : DeviceId) :
    ((groupByDevice samples).lookup device).getD [] =
      samples.filter fun sample => sample.device = device := by
  have hfold : ∀ (items : List LinkSample) (held : Option (List LinkSample)),
      (items.foldl (fun held item => some (held.getD [] ++ [item])) held).getD [] =
        held.getD [] ++ items := by
    intro items
    induction items with
    | nil => exact fun held => (List.append_nil _).symm
    | cons item items ih =>
        intro held
        rw [List.foldl_cons, ih]
        exact List.append_assoc ..
  have hlookup : (groupByDevice samples).lookup device =
      (samples.filter fun sample => sample.device = device).foldl
        (fun held item => some (held.getD [] ++ [item])) none :=
    SortedTable.lookup_foldl_update _ _ _ _ _
  rw [hlookup, hfold]
  rfl

/-- A finding between two samples is about their device. -/
theorem findings_between_device {device : DeviceId} {previous current : LinkSample}
    {finding : LinkFinding} (h : finding ∈ findingsBetween {} device previous current) :
    finding.device = device := by
  unfold findingsBetween at h
  rcases List.mem_append.mp h with htime | hsequence
  · split_ifs at htime
    · rw [List.mem_singleton.mp htime]
    · rw [List.mem_singleton.mp htime]
    · cases htime
  · split_ifs at hsequence
    · rw [List.mem_singleton.mp hsequence]
    · cases hsequence

/-- Of two neighbours one regression is found if the later one does not advance. -/
theorem regressions_between (device : DeviceId) (previous current : LinkSample) :
    ((findingsBetween {} device previous current).filter
      fun finding => finding.code = "link.sequence_regression").length =
        if regresses (previous.sequence, current.sequence) then 1 else 0 := by
  unfold findingsBetween
  rw [List.filter_append, List.length_append]
  by_cases hsequence : current.sequence ≤ previous.sequence
  · have hregresses : regresses (previous.sequence, current.sequence) = true :=
      decide_eq_true hsequence
    rw [if_pos hsequence, hregresses, if_pos rfl]
    split_ifs <;> rfl
  · have hregresses : regresses (previous.sequence, current.sequence) = false :=
      decide_eq_false hsequence
    rw [if_neg hsequence, hregresses, if_neg Bool.false_ne_true]
    split_ifs <;> rfl

/-- A link report finds of a device what it finds between neighbours of its samples. -/
theorem findings_of_device {sortSamples : List LinkSample → List LinkSample}
    (hsort : Sorts LinkSample.before sortSamples) (monitor : LinkMonitor) (device : DeviceId) :
    (monitor.report sortSamples).findings.filter (·.device = device) =
      (sortSamples (monitor.samples.filter fun sample =>
        sample.device = device)).consecutivePairs.flatMap fun pair =>
          findingsBetween {} device pair.1 pair.2 := by
  let give (device : DeviceId) (samples : List LinkSample) : List LinkFinding :=
    (sortSamples samples).consecutivePairs.flatMap fun pair =>
      findingsBetween {} device pair.1 pair.2
  have hgiven : ∀ device samples, ∀ finding ∈ give device samples, finding.device = device := by
    intro device samples finding hfinding
    obtain ⟨pair, -, hpair⟩ := List.mem_flatMap.mp hfinding
    exact findings_between_device hpair
  have hnil : sortSamples [] = [] := List.perm_nil.mp (hsort.perm [])
  rw [← lookup_group_by_device]
  have hall := (groupByDevice monitor.samples).filter_flatMap_entries
    (fun entry _ => hgiven entry.1 entry.2) device
  refine hall.trans ?_
  cases (groupByDevice monitor.samples).lookup device with
  | none =>
      show [] = (sortSamples []).consecutivePairs.flatMap _
      rw [hnil]
      rfl
  | some samples => rfl

/-- A link report finds a regression of a device between each two neighbours of which the later one
does not advance. -/
theorem regressions_of_device {sortSamples : List LinkSample → List LinkSample}
    (hsort : Sorts LinkSample.before sortSamples) (monitor : LinkMonitor) (device : DeviceId) :
    ((monitor.report sortSamples).findings.filter fun finding =>
        finding.device = device ∧ finding.code = "link.sequence_regression").length =
      ((sortSamples (monitor.samples.filter fun sample => sample.device = device)).map
        LinkSample.sequence).consecutivePairs.countP regresses := by
  have hfilter : (monitor.report sortSamples).findings.filter (fun finding =>
      finding.device = device ∧ finding.code = "link.sequence_regression") =
      ((sortSamples (monitor.samples.filter fun sample =>
        sample.device = device)).consecutivePairs.flatMap fun pair =>
          findingsBetween {} device pair.1 pair.2).filter
        fun finding => finding.code = "link.sequence_regression" := by
    rw [← findings_of_device hsort, List.filter_filter]
    refine List.filter_congr fun finding _ => ?_
    rw [Bool.decide_and, Bool.and_comm]
  rw [hfilter, map_consecutive, List.countP_map]
  generalize (sortSamples _).consecutivePairs = pairs
  induction pairs with
  | nil => rfl
  | cons pair pairs ih =>
      rw [List.flatMap_cons, List.filter_append, List.length_append, ih, regressions_between,
        List.countP_cons, Nat.add_comm]
      rfl

/-- Samples that came in the order of their arrival times are sorted. -/
theorem sort_samples_eq {sortSamples : List LinkSample → List LinkSample}
    (hsort : Sorts LinkSample.before sortSamples) {samples : List LinkSample}
    (horder : samples.Pairwise fun earlier later => earlier.arrivalTimeNs < later.arrivalTimeNs) :
    sortSamples samples = samples := by
  have hless : ∀ left right : LinkSample, LinkSample.before left right = true ↔
      Before (fun sample : LinkSample => sample.arrivalTimeNs.toNat) (fun _ => 0) left right := by
    intro left right
    rw [LinkSample.before, decide_eq_true_iff, UInt64.lt_iff_toNat_lt]
    exact ⟨Or.inl, fun h => h.resolve_right fun heq => Nat.lt_irrefl 0 heq.2⟩
  have hbefore : samples.Pairwise (Before
      (fun sample : LinkSample => sample.arrivalTimeNs.toNat) fun _ => 0) :=
    horder.imp fun hlt => Or.inl (UInt64.lt_iff_toNat_lt.mp hlt)
  have hperm := hsort.perm samples
  have hne : (sortSamples samples).Pairwise fun left right =>
      left.arrivalTimeNs ≠ right.arrivalTimeNs :=
    (hperm.pairwise_iff Ne.symm).mpr (horder.imp UInt64.ne_of_lt)
  refine eq_of_before ?_ hbefore hperm
  refine ((hsort.pairwise samples).and hne).imp fun {left right} hboth => Or.inl ?_
  have hle : ¬right.arrivalTimeNs < left.arrivalTimeNs := by
    simpa [LinkSample.before] using hboth.1
  exact UInt64.lt_iff_toNat_lt.mp (UInt64.lt_of_le_of_ne (UInt64.not_lt.mp hle) hboth.2)

theorem regresses_none_iff {sequences : List UInt32} :
    sequences.consecutivePairs.countP regresses = 0 ↔ sequences.IsChain (· < ·) := by
  rw [chain_iff, List.countP_eq_zero]
  refine forall₂_congr fun pair _ => ?_
  rw [regresses, decide_eq_true_iff, UInt32.not_le]

/-! ## Archives -/

section Archives

variable {κ : Type} {disk : Disk Path κ} {path : Path}

/-- Where the capture times of a device increase, its points come in the order of the file. -/
theorem device_points_of_read {header : ArchiveSummary} {records : List ArchiveRecord}
    (hread : readArchive (disk.read path) = .ok (header, records)) :
    ∃ collection, buildArchiveCollection disk [path] = .ok collection ∧
      ∀ device, (records.filter fun record => record.packet.device = device).Pairwise
          (fun earlier later => earlier.captureTimeNs < later.captureTimeNs) →
        (devicePoints collection device).map DeviceTimelinePoint.sequence =
          (records.filter fun record => record.packet.device = device).map fun record =>
            record.packet.sequence := by
  have hreadable : ReadableArchives disk [path] :=
    List.forall_mem_singleton.mpr ⟨header, records, hread⟩
  obtain ⟨collection, hbuild, hrecords⟩ := collection_records hreadable
  refine ⟨collection, hbuild, fun device hincrease => ?_⟩
  let located := (records.filter fun record => record.packet.device = device).map
    (LocatedRecord.mk 0 path)
  have hlocated : (locatedRecords disk [path]).filter
      (fun item => item.record.packet.device = device) = located := by
    show ((archiveRecords (disk.read path)).map (LocatedRecord.mk 0 path) ++ []).filter _ = _
    rw [List.append_nil, archiveRecords, hread, List.filter_map]
    rfl
  have hcollected : (collectedRecords disk [path]).filter
      (fun item => item.record.packet.device = device) = located := by
    rw [collectedRecords, filter_stable_sort earlier_compares, hlocated]
    exact stable_sort_of_pairwise earlier_compares (List.pairwise_map.mpr
      (hincrease.imp fun hlt => (UInt64.lt_iff_toNat_lt.mp hlt).le))
  have hrefs : deviceRefs collection device = located.map LocatedRecord.ref := by
    rw [deviceRefs, hrecords, List.filter_map, ← hcollected]
    rfl
  have hpoints : devicePoints collection device =
      (located.map LocatedRecord.ref).map makeTimelinePoint := by
    rw [devicePoints, hrefs]
    refine stable_sort_of_pairwise (compares_lex point_before_iff) ?_
    rw [List.map_map, List.map_map]
    refine List.pairwise_map.mpr (hincrease.imp fun hlt => ?_)
    exact Prod.Lex.toLex_le_toLex.mpr (Or.inl (UInt64.lt_iff_toNat_lt.mp hlt))
  rw [hpoints, List.map_map, List.map_map, List.map_map]
  rfl

/-- The anomalies of a device that are no gaps are the steps that do not advance, and where all
advance those that leave much out are the gaps that a tracker warns of. -/
theorem anomalies_between_sequences (device : DeviceId) (points : List DeviceTimelinePoint) :
    let steps := (points.map DeviceTimelinePoint.sequence).consecutivePairs
    (pointAnomalies device points).countP (fun anomaly => anomaly.reason ≠ "sequence gap") =
        steps.countP regresses ∧
      ((points.map DeviceTimelinePoint.sequence).IsChain (· < ·) →
        (pointAnomalies device points).countP (fun anomaly =>
          anomaly.previousSequence.toNat + 5 < anomaly.currentSequence.toNat) =
            steps.countP (skips {})) := by
  intro steps
  have hsteps : steps = points.consecutivePairs.map
      (Prod.map DeviceTimelinePoint.sequence DeviceTimelinePoint.sequence) := map_consecutive _ _
  refine ⟨?_, fun hchain => ?_⟩
  · rw [pointAnomalies, List.countP_map, List.countP_filter, hsteps, List.countP_map]
    refine List.countP_congr fun pair _ => ?_
    rw [Bool.and_eq_true, broken, decide_eq_true_iff]
    show decide (anomalyReason pair.1.sequence pair.2.sequence ≠ "sequence gap") = true ∧
      pair.2.sequence.toNat ≠ pair.1.sequence.toNat + 1 ↔
        decide (pair.2.sequence ≤ pair.1.sequence) = true
    rw [decide_eq_true_iff, decide_eq_true_iff, UInt32.le_iff_toNat_le, anomalyReason]
    by_cases heq : pair.2.sequence = pair.1.sequence
    · rw [if_pos heq, heq]
      exact iff_of_true ⟨by decide, (Nat.succ_ne_self _).symm⟩ le_rfl
    · rw [if_neg heq]
      by_cases hlt : pair.2.sequence < pair.1.sequence
      · rw [if_pos hlt]
        rw [UInt32.lt_iff_toNat_lt] at hlt
        exact iff_of_true ⟨by decide, by omega⟩ hlt.le
      · rw [if_neg hlt]
        rw [UInt32.lt_iff_toNat_lt] at hlt
        rw [← UInt32.toNat_inj] at heq
        exact iff_of_false (fun h => h.1 rfl) (by omega)
  · rw [chain_iff] at hchain
    have hlt : ∀ pair ∈ points.consecutivePairs, pair.1.sequence < pair.2.sequence := by
      intro pair hpair
      refine hchain (pair.1.sequence, pair.2.sequence) ?_
      show _ ∈ steps
      rw [hsteps]
      exact List.mem_map.mpr ⟨pair, hpair, rfl⟩
    rw [pointAnomalies, List.countP_map, List.countP_filter, hsteps, List.countP_map]
    refine List.countP_congr fun pair hpair => ?_
    rw [Bool.and_eq_true, broken, decide_eq_true_iff]
    show decide (pair.1.sequence.toNat + 5 < pair.2.sequence.toNat) = true ∧
      pair.2.sequence.toNat ≠ pair.1.sequence.toNat + 1 ↔
        skips {} (pair.1.sequence, pair.2.sequence) = true
    rw [skips_iff (hlt pair hpair), decide_eq_true_iff]
    show _ ↔ pair.1.sequence.toNat + 4 + 1 < pair.2.sequence.toNat
    omega

end Archives

/-! ## Collectors -/

namespace CollectorRuntime

/-- The monitors have seen the entries, and the archive holds them. -/
structure Monitored (c : CollectorRuntime) (entries : List (UInt64 × Packet)) : Prop where
  links : c.links.samples = entries.map linkSample
  sessions : c.sessions = (SessionHistory.after {} (entries.map observation)).tracker
  archive : c.Archives entries
  good : ∀ writer ∈ c.archive, writer.out.failed = false

/-- The archive takes the packet of a call if validation lets it through. -/
def Takes (c : CollectorRuntime) (call : Packet × UInt64) : Prop :=
  (validatePacketSemantics call.1).ok = true → c.accepts call = true

/-- A new collector is monitored. -/
theorem monitored_create {profile : CollectorProfile} {media : Path → Option Medium}
    {opened : CollectorRuntime} (henabled : profile.archive.enabled = true)
    (h : create profile media = .ok opened) : Monitored opened [] := by
  have harchive := archives_create henabled h
  rw [create, if_pos henabled] at h
  obtain ⟨writer, hcreate, hpure⟩ := Parsing.except_bind_ok_iff.mp h
  obtain rfl := Except.ok.inj hpure
  refine ⟨rfl, rfl, harchive, ?_⟩
  rintro _ ⟨⟩
  rcases hmedium : media profile.archive.path with _ | medium
  · rw [hmedium] at hcreate
    cases hcreate
  · rw [hmedium] at hcreate
    obtain ⟨-, rfl⟩ := create_ok_iff.mp hcreate
    rfl

/-- A call that the archive takes shows the packet to all or to none. -/
theorem Monitored.next {c : CollectorRuntime} {entries : List (UInt64 × Packet)}
    (h : c.Monitored entries) {call : Packet × UInt64} (hportable : Portable call.1)
    (htakes : c.Takes call) :
    Monitored (c.next call) (entries ++ if c.accepts call then [(call.2, call.1)] else []) := by
  obtain ⟨harchived, -⟩ := h.archive.next hportable
  obtain ⟨writer, hopen, hholds⟩ := h.archive
  obtain ⟨-, result, after, hrun, hrefused, hsame⟩ |
    ⟨-, writer', result, after, happend, hrun, haccepted, htracked, harchive⟩ |
    ⟨hpasses, _, failure, after, -, hrun, -⟩ := accept_cases hopen call.1 call.2
  · have hnot : c.accepts call = false := by rw [accepts, hrun]; exact hrefused
    have hnext : c.next call = after := by rw [CollectorRuntime.next, hrun]
    rw [hnot] at harchived ⊢
    rw [hnext] at harchived ⊢
    simp only [Bool.false_eq_true, if_false, List.append_nil] at harchived ⊢
    exact ⟨hsame.links ▸ h.links, hsame.sessions ▸ h.sessions, harchived, hsame.archive ▸ h.good⟩
  · have haccepts : c.accepts call = true := by rw [accepts, hrun]; exact haccepted
    have hnext : c.next call = after := by rw [CollectorRuntime.next, hrun]
    rw [haccepts] at harchived ⊢
    rw [hnext] at harchived ⊢
    simp only [if_true] at harchived ⊢
    refine ⟨?_, ?_, harchived, ?_⟩
    · rw [htracked.links, List.map_append, ← h.links]
      rfl
    · rw [htracked.sessions, h.sessions, List.map_append, List.map_singleton,
        SessionHistory.after, SessionHistory.after, run_concat]
      rfl
    · obtain ⟨⟨-, hgood, -⟩, rfl⟩ := (append_ok_iff_of_appending hholds.appending).mp happend
      rw [harchive]
      rintro _ ⟨⟩
      exact hgood
  · have haccepts := htakes hpasses
    rw [accepts, hrun] at haccepts
    cases haccepts

/-- Accepted packets keep a collector monitored. -/
theorem Monitored.run {c : CollectorRuntime} {entries : List (UInt64 × Packet)}
    (h : c.Monitored entries) {calls : List (Packet × UInt64)}
    (hportable : ∀ call ∈ calls, Portable call.1)
    (htakes : Along CollectorRuntime.next Takes c calls) :
    Monitored (run CollectorRuntime.next c calls) (entries ++ c.accepted calls) := by
  induction calls generalizing c entries with
  | nil =>
      rw [accepted, List.append_nil]
      exact h
  | cons call calls ih =>
      obtain ⟨hcall, hcalls⟩ := List.forall_mem_cons.mp hportable
      rw [accepted, ← List.append_assoc]
      exact ih (h.next hcall htakes.1) hcalls htakes.2

/-- A collector that is destroyed leaves the archive of its entries. -/
theorem Monitored.destroyed {c : CollectorRuntime} {entries : List (UInt64 × Packet)}
    (h : c.Monitored entries) : c.destroyed = some (archiveWire entries) := by
  obtain ⟨writer, hopen, hholds⟩ := h.archive
  obtain ⟨header, part, hfile, -, hwell⟩ := hholds.destroyed
  obtain ⟨rfl, rfl⟩ := hwell (h.good writer hopen)
  rw [CollectorRuntime.destroyed, hopen, Option.map_some, hfile, List.append_nil]
  rfl

/-- The archive of a monitored collector can be addressed. -/
theorem Monitored.addressable {c : CollectorRuntime} {entries : List (UInt64 × Packet)}
    (h : c.Monitored entries) : (archiveWire entries).length < 2 ^ 63 := by
  obtain ⟨writer, hopen, hholds⟩ := h.archive
  obtain ⟨part, hcontent, -⟩ := hholds.content
  have hheld := (hholds.appending (h.good writer hopen)).held
  have hcapacity := writer.out.medium.addressable
  rw [hcontent] at hheld
  simp only [List.length_append, length_summary_wire] at hheld
  simp only [archiveWire, List.length_append, length_summary_wire]
  omega

/-- The accepted packets are some of those that were sent, in their order. -/
theorem accepted_sublist (c : CollectorRuntime) (calls : List (Packet × UInt64)) :
    (c.accepted calls).Sublist (calls.map Prod.swap) := by
  induction calls generalizing c with
  | nil => exact List.Sublist.refl []
  | cons call calls ih =>
      rw [accepted, List.map_cons]
      split
      · exact (ih (c.next call)).cons_cons _
      · exact (ih (c.next call)).cons _

/-! ### What each of them finds -/

section Findings

variable {c : CollectorRuntime} {entries : List (UInt64 × Packet)} (h : c.Monitored entries)

include h

/-- The link monitor finds the steps between the packets of a device that do not advance. -/
theorem Monitored.regressions {sortSamples : List LinkSample → List LinkSample}
    (hsort : Sorts LinkSample.before sortSamples) {device : DeviceId}
    (harrivals : (entries.filter fun entry => entry.2.device = device).Pairwise
      fun earlier later => earlier.1 < later.1) :
    ((c.links.report sortSamples).findings.filter fun finding =>
        finding.device = device ∧ finding.code = "link.sequence_regression").length =
      ((entries.filter fun entry => entry.2.device = device).map fun entry =>
        entry.2.sequence).consecutivePairs.countP regresses := by
  have hsampled : (c.links.samples.filter fun sample => sample.device = device) =
      (entries.filter fun entry => entry.2.device = device).map linkSample := by
    rw [h.links, List.filter_map]
    rfl
  refine (regressions_of_device hsort c.links device).trans ?_
  rw [hsampled, sort_samples_eq hsort (List.pairwise_map.mpr harrivals), List.map_map]
  rfl

/-- The statistics of the archive see the same sequences of a device. -/
theorem Monitored.sequences (hreadable : ∀ entry ∈ entries, ReadableLimits entry.2) {κ : Type}
    {disk : Disk Path κ} {path : Path} (hfile : disk.read path = c.destroyed) :
    ∃ collection, buildArchiveCollection disk [path] = .ok collection ∧
      ∀ device, (entries.filter fun entry => entry.2.device = device).Pairwise
          (fun earlier later => earlier.1 < later.1) →
        (devicePoints collection device).map DeviceTimelinePoint.sequence =
          (entries.filter fun entry => entry.2.device = device).map fun entry =>
            entry.2.sequence := by
  have hread := read_archive_wire hreadable
  rw [← h.destroyed, ← hfile] at hread
  obtain ⟨collection, hbuild, hpoints⟩ := device_points_of_read hread
  refine ⟨collection, hbuild, fun device harrivals => ?_⟩
  have hrecorded : ((recordsAt 36 entries).filter fun record =>
      record.packet.device = device).map ArchiveRecord.entry =
        entries.filter fun entry => entry.2.device = device := by
    have hentries := congrArg (List.filter fun entry : UInt64 × Packet =>
      entry.2.device = device) (entries_recordsAt 36 entries)
    rw [List.filter_map] at hentries
    exact hentries
  rw [← hrecorded, List.pairwise_map] at harrivals
  rw [hpoints device harrivals, ← hrecorded, List.map_map]
  rfl

/-- The tracker has a session of each device that it has seen, with its packets. -/
theorem Monitored.session_counts (hcount : entries.length < 2 ^ 64) (device : DeviceId) :
    let seen := entries.filter fun entry => entry.2.device = device
    let sequences := seen.map fun entry => entry.2.sequence
    (c.sessions.snapshot.sessions.filter (·.device = device)).length =
        (if seen = [] then 0 else 1) ∧
      ∀ session ∈ c.sessions.snapshot.sessions, session.device = device →
        session.packets.toNat = seen.length ∧
        (session.duplicates = 0 ↔ sequences.IsChain (· < ·)) ∧
        (sequences.IsChain (· < ·) →
          session.gaps.toNat = sequences.consecutivePairs.countP (skips {})) := by
  intro seen sequences
  have hsessions : c.sessions.snapshot.sessions.filter (·.device = device) =
      ((SessionHistory.after {} (entries.map observation)).tracker.find device).toList := by
    rw [h.sessions]
    exact sessions_of_device {} _ device
  rw [hsessions]
  constructor
  · rcases hseen : seen with _ | ⟨first, rest⟩
    · rw [no_session_of_none hseen]
      rfl
    · obtain ⟨session, hfound, -⟩ := session_of_packets _ device hseen hcount
      rw [hfound]
      rfl
  · intro session hsession hdevice
    have hmem : session ∈ c.sessions.snapshot.sessions.filter (·.device = device) :=
      List.mem_filter.mpr ⟨hsession, decide_eq_true hdevice⟩
    rw [hsessions] at hmem
    rcases hseen : seen with _ | ⟨first, rest⟩
    · rw [no_session_of_none hseen] at hmem
      cases hmem
    · obtain ⟨found, hfound, hcounts⟩ := session_of_packets _ device hseen hcount
      rw [hfound] at hmem
      obtain rfl := List.mem_singleton.mp hmem
      rw [← hseen] at hcounts
      exact hseen ▸ hcounts

end Findings

/-- **What the monitors agree on.** Take a collector with an archive that takes every packet that
passes validation, after any calls in which the packets of a device arrive one after the other. Read
the archive once the collector is destroyed. The link monitor has found as many regressions of the
device as the statistics find anomalies that are no gaps. Where there are none the session of the
device has no duplicate, and counts as gaps the anomalies that leave more than four sequences
out. -/
theorem monitors_agree {profile : CollectorProfile} {media : Path → Option Medium}
    {opened : CollectorRuntime} (henabled : profile.archive.enabled = true)
    (hcreate : create profile media = .ok opened) {calls : List (Packet × UInt64)}
    (hcount : calls.length < 2 ^ 64) (hportable : ∀ call ∈ calls, Portable call.1)
    (htakes : Along next Takes opened calls) {κ : Type} {disk : Disk Path κ} {path : Path}
    (hfile : disk.read path = (run next opened calls).destroyed)
    {sortSamples : List LinkSample → List LinkSample}
    {sortTimelines : List DeviceTimeline → List DeviceTimeline}
    {sortAnomalies : List SequenceAnomaly → List SequenceAnomaly}
    (hsamples : Sorts LinkSample.before sortSamples)
    (htimelines : Sorts timelineBefore sortTimelines)
    (hanomalies : Sorts anomalyBefore sortAnomalies) (device : DeviceId)
    (harrivals : ((opened.accepted calls).filter fun entry => entry.2.device = device).Pairwise
      fun earlier later => earlier.1 < later.1) :
    let c := run next opened calls
    let seen := (opened.accepted calls).filter fun entry => entry.2.device = device
    let regressions := (c.links.report sortSamples).findings.filter fun finding =>
      finding.device = device ∧ finding.code = "link.sequence_regression"
    ∃ collection, buildArchiveCollection disk [path] = .ok collection ∧
      let anomalies := (detectSequenceAnomalies sortTimelines sortAnomalies collection).filter
        fun anomaly => anomaly.device = device
      regressions.length = anomalies.countP (fun anomaly => anomaly.reason ≠ "sequence gap") ∧
      (c.sessions.snapshot.sessions.filter (·.device = device)).length =
        (if seen = [] then 0 else 1) ∧
      ∀ session ∈ c.sessions.snapshot.sessions, session.device = device →
        session.packets.toNat = seen.length ∧
        (session.duplicates = 0 ↔ regressions = []) ∧
        (regressions = [] → session.gaps.toNat = anomalies.countP fun anomaly =>
          anomaly.previousSequence.toNat + 5 < anomaly.currentSequence.toNat) := by
  intro c seen regressions
  have hmonitored := (monitored_create henabled hcreate).run hportable htakes
  rw [List.nil_append] at hmonitored
  have hshort : (opened.accepted calls).length < 2 ^ 64 :=
    ((accepted_sublist opened calls).length_le.trans_eq (List.length_map _)).trans_lt hcount
  -- the three see the same sequences
  let sequences := seen.map fun entry => entry.2.sequence
  have hregressions : regressions.length = sequences.consecutivePairs.countP regresses :=
    hmonitored.regressions hsamples harrivals
  have hreadable := ((archives_create henabled hcreate).run hportable).2
  obtain ⟨collection, hbuild, hsequences⟩ := hmonitored.sequences hreadable hfile
  obtain ⟨hone, hcounts⟩ := hmonitored.session_counts hshort device
  have hadvances : regressions = [] ↔ sequences.IsChain (· < ·) := by
    rw [← List.length_eq_zero_iff, hregressions, regresses_none_iff]
  obtain ⟨hnoGaps, hwide⟩ :=
    anomalies_between_sequences device (devicePoints collection device)
  rw [hsequences device harrivals] at hnoGaps hwide
  have hperm := anomalies_of_device htimelines hanomalies collection device
  refine ⟨collection, hbuild, ?_, hone, fun session hsession hdevice => ?_⟩
  · rw [hregressions, hperm.countP_eq, hnoGaps]
  · obtain ⟨hpackets, hduplicates, hgaps⟩ := hcounts session hsession hdevice
    refine ⟨hpackets, hduplicates.trans hadvances.symm, fun hnone => ?_⟩
    rw [hgaps (hadvances.mp hnone), hperm.countP_eq, hwide (hadvances.mp hnone)]

/-! ### A sequence that is sent again -/

/-- A packet that has room is taken. -/
theorem takes_of_room {c : CollectorRuntime} (h : Recording c) {call : Packet × UInt64}
    (hlimits : EncoderLimits call.1) (hroom : HasRoom c call.1 call.2) : c.Takes call := by
  intro hpasses
  obtain ⟨result, after, hrun, haccepted, -⟩ := h.records hpasses hlimits hroom
  rw [accepts, hrun]
  exact haccepted

/-- A packet, and later one with the same sequence. -/
def sentAgain : List (Packet × UInt64) :=
  [({ payload := [1] }, 6), ({ payload := [2] }, 9)]

/-- Both packets of the example are taken. -/
theorem takes_sent_again : Along CollectorRuntime.next Takes archivingCollector sentAgain := by
  have hrecording : Recording archivingCollector :=
    recording_create rfl create_archiving_collector
  have hroom : HasRoom archivingCollector { payload := [1] } 6 := by
    refine ⟨_, rfl, rfl, ?_⟩
    rw [length_record_wire]
    decide
  have hlimits : ∀ payload : Bytes, EncoderLimits { payload } :=
    fun payload => ⟨by simp, by simp, by simp, by simp, by simp⟩
  have hpasses : (validatePacketSemantics { payload := [1] }).ok = true :=
    validate_ok_iff.mpr ⟨by decide, by simp, by simp, by decide⟩
  obtain ⟨result, after, hrun, -, hrecorded⟩ := hrecording.records hpasses (hlimits [1]) hroom
  obtain ⟨writer, hwriter, hafter⟩ := hrecorded.archive
  obtain rfl := Option.some.inj hwriter
  have hnext : archivingCollector.next ({ payload := [1] }, 6) = after := by
    rw [CollectorRuntime.next, hrun]
  refine ⟨takes_of_room hrecording (hlimits [1]) hroom,
    takes_of_room (hrecording.next _) (hlimits [2]) ?_, trivial⟩
  rw [hnext]
  refine ⟨_, hafter, rfl, ?_⟩
  show (_ ++ recordWire _ _).length + _ ≤ _
  rw [List.length_append, length_record_wire, length_record_wire]
  decide

open Words in
/-- The monitors agree on a packet that is sent again. -/
theorem monitors_agree_on_sent_again :
    let c := run CollectorRuntime.next archivingCollector sentAgain
    let disk : Disk Path Path :=
      { locate := id, medium := fun _ => none, files := fun _ => c.destroyed.map File.ofBytes }
    let seen := (archivingCollector.accepted sentAgain).filter fun entry => entry.2.device = 0
    let regressions := (c.links.report (stableSort LinkSample.before)).findings.filter
      fun finding => finding.device = 0 ∧ finding.code = "link.sequence_regression"
    ∃ collection, buildArchiveCollection disk [⟨"day.ath"⟩] = .ok collection ∧
      let anomalies := (detectSequenceAnomalies (stableSort timelineBefore)
        (stableSort anomalyBefore) collection).filter fun anomaly => anomaly.device = 0
      regressions.length = anomalies.countP (fun anomaly => anomaly.reason ≠ "sequence gap") ∧
      (c.sessions.snapshot.sessions.filter (·.device = 0)).length =
        (if seen = [] then 0 else 1) ∧
      ∀ session ∈ c.sessions.snapshot.sessions, session.device = 0 →
        session.packets.toNat = seen.length ∧
        (session.duplicates = 0 ↔ regressions = []) ∧
        (regressions = [] → session.gaps.toNat = anomalies.countP fun anomaly =>
          anomaly.previousSequence.toNat + 5 < anomaly.currentSequence.toNat) := by
  intro c disk
  have hportable : ∀ call ∈ sentAgain, Portable call.1 := List.forall_mem_cons.mpr
    ⟨fun _ => @readable_observation [1] 0 0 (by decide),
      List.forall_mem_singleton.mpr fun _ => @readable_observation [2] 0 0 (by decide)⟩
  have hcompares : Compares LinkSample.before fun sample : LinkSample =>
      sample.arrivalTimeNs.toNat :=
    fun left right => decide_eq_true_iff.trans UInt64.lt_iff_toNat_lt
  have hfile : disk.read ⟨"day.ath"⟩ = c.destroyed := by
    have hmonitored := (monitored_create rfl create_archiving_collector).run hportable
      takes_sent_again
    show (c.destroyed.map File.ofBytes).map File.bytes = _
    rw [hmonitored.destroyed]
    exact congrArg some (File.bytes_ofBytes hmonitored.addressable)
  have harrivals : (sentAgain.map Prod.swap).Pairwise fun earlier later => earlier.1 < later.1 := by
    simp [sentAgain]
  exact monitors_agree rfl create_archiving_collector (by decide) hportable
    takes_sent_again hfile hcompares.stable_sort_sorts timeline_before_compares.stable_sort_sorts
    anomaly_before_compares.stable_sort_sorts 0
    (harrivals.sublist (List.filter_sublist.trans (accepted_sublist _ _)))

end CollectorRuntime

end Aethon.Runtime
