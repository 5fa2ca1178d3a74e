import Aethon.Foundation.Runs
import Aethon.Runtime.Collector
import Aethon.Storage.ArchiveFiles

/-!
# Packets that a collector takes as a whole

`accept_cases` lists what a call of `accept` can do to the two trackers and to the archive.
A packet that validation lets through and the archive refuses has been shown to the trackers
already, so `accept_all_or_nothing_iff` needs the limits of the encoder and room for the record.
-/

namespace Aethon.Runtime

open Actions FileStream Parsing Protocol Storage Aethon.Stream Runs

namespace CollectorRuntime

/-- Two collectors agree on sessions, links and archive. -/
structure SameRecords (before after : CollectorRuntime) : Prop where
  sessions : after.sessions = before.sessions
  links : after.links = before.links
  archive : after.archive = before.archive

theorem SameRecords.trans {first second third : CollectorRuntime} (h : SameRecords first second)
    (h' : SameRecords second third) : SameRecords first third :=
  ⟨h'.sessions.trans h.sessions, h'.links.trans h.links, h'.archive.trans h.archive⟩

/-- Publishing and counting touch none of the three. -/
theorem same_records_foldl {α : Type} {f : CollectorRuntime → α → CollectorRuntime}
    (hf : ∀ c a, SameRecords c (f c a)) (c : CollectorRuntime) (items : List α) :
    SameRecords c (items.foldl f c) := by
  induction items generalizing c with
  | nil => exact ⟨rfl, rfl, rfl⟩
  | cons a items ih => exact (hf c a).trans (ih (f c a))

/-- A warning leaves sessions, links and archive alone. -/
theorem same_records_warn (packet : Packet) (arrivalTimeNs : UInt64) (c : CollectorRuntime)
    (issue : PacketValidationIssue) : SameRecords c (warn packet arrivalTimeNs c issue) := by
  unfold warn
  split
  · exact ⟨rfl, rfl, rfl⟩
  · exact ⟨rfl, rfl, rfl⟩

/-- Both trackers have seen the packet once. -/
structure Tracked (before : CollectorRuntime) (packet : Packet) (arrivalTimeNs : UInt64)
    (after : CollectorRuntime) : Prop where
  sessions : after.sessions = (before.sessions.observe packet arrivalTimeNs).2
  links : after.links = before.links.observe packet arrivalTimeNs

/-- The trackers see a packet once, and the archive is left alone. -/
theorem tracked_track (c : CollectorRuntime) (packet : Packet) (arrivalTimeNs : UInt64) :
    Tracked c packet arrivalTimeNs (c.track packet arrivalTimeNs) ∧
      (c.track packet arrivalTimeNs).archive = c.archive := by
  have hkept := same_records_foldl
    (fun (c : CollectorRuntime) event =>
      (⟨rfl, rfl, rfl⟩ : SameRecords c (c.publish .sessionEvent arrivalTimeNs packet
        (renderSessionEvent event))))
    { c with
      links := c.links.observe packet arrivalTimeNs
      sessions := (c.sessions.observe packet arrivalTimeNs).2 }
    (c.sessions.observe packet arrivalTimeNs).1
  exact ⟨⟨hkept.sessions, hkept.links⟩, hkept.archive⟩

/-- The collector as `accept` has left it in front of the archive. -/
def shown (c : CollectorRuntime) (packet : Packet) (arrivalTimeNs : UInt64) : CollectorRuntime :=
  let received := { c with stats.packetsReceived := c.stats.packetsReceived + 1 }
  ((validatePacketSemantics packet).issues.foldl (warn packet arrivalTimeNs) received).track packet
    arrivalTimeNs

/-- What is shown of a packet has been tracked once. -/
theorem tracked_shown (c : CollectorRuntime) (packet : Packet) (arrivalTimeNs : UInt64) :
    Tracked c packet arrivalTimeNs (c.shown packet arrivalTimeNs) ∧
      (c.shown packet arrivalTimeNs).archive = c.archive := by
  let received := { c with stats.packetsReceived := c.stats.packetsReceived + 1 }
  have hwarned : SameRecords received _ := same_records_foldl (same_records_warn packet
    arrivalTimeNs) received (validatePacketSemantics packet).issues
  obtain ⟨htracked, harchive⟩ := tracked_track
    ((validatePacketSemantics packet).issues.foldl (warn packet arrivalTimeNs) received) packet
    arrivalTimeNs
  refine ⟨⟨?_, ?_⟩, harchive.trans hwarned.archive⟩
  · exact htracked.sessions.trans (by rw [hwarned.sessions])
  · exact htracked.links.trans (by rw [hwarned.links])

/-- With an open archive the block over the archive appends the packet and counts it, or throws what
the append throws. -/
theorem start_archive_packet {c : CollectorRuntime} {writer : ArchiveWriter}
    (hopen : c.archive = some writer) (packet : Packet) (arrivalTimeNs : UInt64) :
    start (archivePacket packet arrivalTimeNs) c =
      match start (ArchiveWriter.append arrivalTimeNs packet) writer with
      | (.ok _, writer') =>
          (.ok (), { c with archive := some writer' }.countArchived packet arrivalTimeNs)
      | (.error failure, writer') => (.error failure, { c with archive := some writer' }) := by
  rw [archivePacket, start_get_bind, hopen]
  show start (zoom _ _ _ >>= _) c = _
  rw [start_bind, start_zoom]
  rcases start (ArchiveWriter.append arrivalTimeNs packet) writer with ⟨failure | _, writer'⟩
  · rfl
  · rfl

/-- A packet that passes is shown to the trackers and given to the archive. -/
theorem start_accept_of_ok {packet : Packet} (hok : (validatePacketSemantics packet).ok = true)
    (arrivalTimeNs : UInt64) (c : CollectorRuntime) :
    start (accept packet arrivalTimeNs) c =
      start (do
        archivePacket packet arrivalTimeNs
        modify fun c => c.publish .packetReceived arrivalTimeNs packet "packet accepted"
        pure { accepted := true, messages := warningMessages (validatePacketSemantics packet) })
        (c.shown packet arrivalTimeNs) := by
  rw [accept, start_modify_bind, if_neg (by simp [hok]), start_modify_bind, start_modify_bind]
  rfl

/-- What a call does to the trackers and to an open archive: nothing, when the packet does not
pass; otherwise the trackers see the packet, and the append succeeds or throws. -/
theorem accept_cases {c : CollectorRuntime} {writer : ArchiveWriter}
    (hopen : c.archive = some writer) (packet : Packet) (arrivalTimeNs : UInt64) :
    ((validatePacketSemantics packet).ok = false ∧
        ∃ result after, start (accept packet arrivalTimeNs) c = (.ok result, after) ∧
          result.accepted = false ∧ SameRecords c after) ∨
      ((validatePacketSemantics packet).ok = true ∧
        ∃ writer' result after,
          start (ArchiveWriter.append arrivalTimeNs packet) writer = (.ok (), writer') ∧
          start (accept packet arrivalTimeNs) c = (.ok result, after) ∧
          result.accepted = true ∧ Tracked c packet arrivalTimeNs after ∧
          after.archive = some writer') ∨
      ((validatePacketSemantics packet).ok = true ∧
        ∃ writer' failure after,
          start (ArchiveWriter.append arrivalTimeNs packet) writer = (.error failure, writer') ∧
          start (accept packet arrivalTimeNs) c = (.error failure, after) ∧
          Tracked c packet arrivalTimeNs after ∧ after.archive = some writer') := by
  by_cases hok : (validatePacketSemantics packet).ok = false
  · rw [accept, start_modify_bind, if_pos hok]
    exact Or.inl ⟨hok, _, _, rfl, rfl, ⟨rfl, rfl, rfl⟩⟩
  · have hpasses : (validatePacketSemantics packet).ok = true := by simpa using hok
    obtain ⟨⟨hsessions, hlinks⟩, harchive⟩ := tracked_shown c packet arrivalTimeNs
    have harchived := start_archive_packet (harchive.trans hopen) packet arrivalTimeNs
    rw [start_accept_of_ok hpasses]
    rcases happend : start (ArchiveWriter.append arrivalTimeNs packet) writer with
      ⟨failure | _, writer'⟩
    · rw [happend] at harchived
      exact Or.inr (Or.inr ⟨hpasses, writer', failure, _, rfl, start_bind_of_error harchived,
        ⟨hsessions, hlinks⟩, rfl⟩)
    · rw [happend] at harchived
      exact Or.inr (Or.inl ⟨hpasses, writer', _, _, rfl, start_bind_of_ok harchived, rfl,
        ⟨hsessions, hlinks⟩, rfl⟩)

/-! ## All or nothing -/

/-- The packet was appended to the archive, and each tracker has seen it once. -/
structure Recorded (before : CollectorRuntime) (packet : Packet) (arrivalTimeNs : UInt64)
    (after : CollectorRuntime) : Prop extends Tracked before packet arrivalTimeNs after where
  archive : ∃ writer, before.archive = some writer ∧ after.archive =
    some (writer.extend (recordWire arrivalTimeNs (packetFrame packet))
      (ArchiveWriter.record writer.summary arrivalTimeNs))

/-- A call that accepts the packet has recorded it, and any other call has changed no record. -/
def AllOrNothing (before : CollectorRuntime) (packet : Packet) (arrivalTimeNs : UInt64)
    (outcome : Except Error CollectorResult × CollectorRuntime) : Prop :=
  match outcome with
  | (.ok result, after) =>
      if result.accepted then Recorded before packet arrivalTimeNs after
      else SameRecords before after
  | (.error _, after) => SameRecords before after

/-- The call returns and accepts the packet. -/
def Accepts (outcome : Except Error CollectorResult × CollectorRuntime) : Prop :=
  ∃ result, outcome.1 = .ok result ∧ result.accepted = true

/-- The stream of the archive is good, and its medium has room for the record of the packet. -/
def HasRoom (c : CollectorRuntime) (packet : Packet) (arrivalTimeNs : UInt64) : Prop :=
  ∃ writer, c.archive = some writer ∧ writer.out.failed = false ∧
    writer.out.content.length + (recordWire arrivalTimeNs (packetFrame packet)).length ≤
      writer.out.medium.capacity

/-- An open archive that was only appended to. -/
def Recording (c : CollectorRuntime) : Prop :=
  ∃ writer, c.archive = some writer ∧ writer.Appending

/-- The state after a call, whatever it yields. -/
def next (c : CollectorRuntime) (call : Packet × UInt64) : CollectorRuntime :=
  (start (accept call.1 call.2) c).2

/-- A call keeps the archive open. -/
theorem Recording.next {c : CollectorRuntime} (h : Recording c) (call : Packet × UInt64) :
    Recording (c.next call) := by
  obtain ⟨writer, hopen, happending⟩ := h
  have happended := happending.append call.2 call.1
  unfold CollectorRuntime.next
  obtain ⟨-, _, after, hrun, -, hsame⟩ | ⟨-, writer', _, after, happend, hrun, -, -, harchive⟩ |
    ⟨-, writer', _, after, happend, hrun, -, harchive⟩ := accept_cases hopen call.1 call.2
  · rw [hrun]
    exact ⟨writer, hsame.archive.trans hopen, happending⟩
  · rw [happend] at happended
    rw [hrun]
    exact ⟨writer', harchive, happended⟩
  · rw [happend] at happended
    rw [hrun]
    exact ⟨writer', harchive, happended⟩

/-- A collector whose profile has an archive starts with an open one. -/
theorem recording_create {profile : CollectorProfile} {media : Path → Option Medium}
    {opened : CollectorRuntime} (henabled : profile.archive.enabled = true)
    (h : create profile media = .ok opened) : Recording opened := by
  rw [create, if_pos henabled] at h
  obtain ⟨writer, hcreate, hpure⟩ := except_bind_ok_iff.mp h
  obtain rfl := Except.ok.inj hpure
  rcases hmedium : media profile.archive.path with _ | medium
  · rw [hmedium] at hcreate
    cases hcreate
  · rw [hmedium] at hcreate
    obtain ⟨hroom, rfl⟩ := create_ok_iff.mp hcreate
    exact ⟨_, rfl, fun _ => ⟨rfl, rfl, hroom⟩⟩

/-- A packet that passes is recorded when the encoder and the archive take it too. -/
theorem Recording.records {c : CollectorRuntime} (h : Recording c) {packet : Packet}
    {arrivalTimeNs : UInt64} (hpasses : (validatePacketSemantics packet).ok = true)
    (hlimits : EncoderLimits packet) (hroom : HasRoom c packet arrivalTimeNs) :
    ∃ result after, start (accept packet arrivalTimeNs) c = (.ok result, after) ∧
      result.accepted = true ∧ Recorded c packet arrivalTimeNs after := by
  obtain ⟨writer, hopen, happending⟩ := h
  obtain ⟨_, hsame, hgood, hfits⟩ := hroom
  obtain rfl := Option.some.inj (hopen.symm.trans hsame)
  have hok := (@append_ok_iff_of_appending _ _ happending arrivalTimeNs packet ()).mpr
    ⟨⟨hlimits, hgood, hfits⟩, rfl⟩
  obtain ⟨hfails, -⟩ | ⟨-, writer', result, after, happend, hrun, haccepted, htracked, harchive⟩ |
    ⟨-, _, _, _, happend, -⟩ := accept_cases hopen packet arrivalTimeNs
  · simp [hpasses] at hfails
  · obtain ⟨-, rfl⟩ := Prod.mk.inj (hok.symm.trans happend)
    exact ⟨result, after, hrun, haccepted, htracked, writer, hopen, harchive⟩
  · cases hok.symm.trans happend

/-- Otherwise the call throws, and the trackers are ahead of the archive. -/
theorem Recording.throws {c : CollectorRuntime} (h : Recording c) {packet : Packet}
    {arrivalTimeNs : UInt64} (hpasses : (validatePacketSemantics packet).ok = true)
    (hnot : ¬ (EncoderLimits packet ∧ HasRoom c packet arrivalTimeNs)) :
    ∃ failure after, start (accept packet arrivalTimeNs) c = (.error failure, after) ∧
      Tracked c packet arrivalTimeNs after ∧ ¬ SameRecords c after := by
  obtain ⟨writer, hopen, happending⟩ := h
  obtain ⟨hfails, -⟩ | ⟨-, writer', -, -, happend, -⟩ |
    ⟨-, _, failure, after, -, hrun, htracked, -⟩ := accept_cases hopen packet arrivalTimeNs
  · simp [hpasses] at hfails
  · obtain ⟨⟨hlimits, hgood, hfits⟩, -⟩ := (append_ok_iff_of_appending happending).mp happend
    exact absurd ⟨hlimits, writer, hopen, hgood, hfits⟩ hnot
  · refine ⟨failure, after, hrun, htracked, fun hsame => ?_⟩
    -- the monitor has one more sample than before the call
    exact c.links.observe_ne packet arrivalTimeNs (htracked.links.symm.trans hsame.links)

/-- A packet that does not pass leaves all records as they are. -/
theorem Recording.rejects {c : CollectorRuntime} (h : Recording c) {packet : Packet}
    (hfails : (validatePacketSemantics packet).ok = false) (arrivalTimeNs : UInt64) :
    ∃ result after, start (accept packet arrivalTimeNs) c = (.ok result, after) ∧
      result.accepted = false ∧ SameRecords c after := by
  obtain ⟨writer, hopen, -⟩ := h
  obtain ⟨-, hrun⟩ | ⟨hpasses, -⟩ | ⟨hpasses, -⟩ := accept_cases hopen packet arrivalTimeNs
  · exact hrun
  · simp [hfails] at hpasses
  · simp [hfails] at hpasses

/-- One call on an open archive. -/
theorem Recording.all_or_nothing_iff {c : CollectorRuntime} (h : Recording c) (packet : Packet)
    (arrivalTimeNs : UInt64) :
    AllOrNothing c packet arrivalTimeNs (start (accept packet arrivalTimeNs) c) ∧
        ((validatePacketSemantics packet).ok = true →
          Accepts (start (accept packet arrivalTimeNs) c)) ↔
      (validatePacketSemantics packet).ok = false ∨
        EncoderLimits packet ∧ HasRoom c packet arrivalTimeNs := by
  by_cases hfails : (validatePacketSemantics packet).ok = false
  · obtain ⟨result, after, hrun, hrefused, hsame⟩ := h.rejects hfails arrivalTimeNs
    rw [hrun, AllOrNothing, if_neg (by simp [hrefused])]
    simp [hfails, hsame]
  have hpasses : (validatePacketSemantics packet).ok = true := by simpa using hfails
  by_cases htaken : EncoderLimits packet ∧ HasRoom c packet arrivalTimeNs
  · obtain ⟨result, after, hrun, haccepted, hrecorded⟩ := h.records hpasses htaken.1 htaken.2
    rw [hrun, AllOrNothing, if_pos haccepted]
    exact iff_of_true ⟨hrecorded, fun _ => ⟨result, rfl, haccepted⟩⟩ (Or.inr htaken)
  · obtain ⟨failure, after, hrun, -, hchanged⟩ := h.throws hpasses htaken
    rw [hrun]
    refine iff_of_false (fun hall => hchanged hall.1) ?_
    rintro (hfails' | htaken')
    · exact hfails hfails'
    · exact htaken htaken'

/-- In every state that calls of `accept` reach, whatever they yielded, a call is all or nothing
and accepts each packet that validation passes exactly when the packet does not pass, or the
encoder and the archive take it too. -/
theorem accept_all_or_nothing_iff {profile : CollectorProfile} {media : Path → Option Medium}
    {opened : CollectorRuntime} (henabled : profile.archive.enabled = true)
    (hcreate : create profile media = .ok opened) (calls : List (Packet × UInt64))
    (packet : Packet) (arrivalTimeNs : UInt64) :
    AllOrNothing (run next opened calls) packet arrivalTimeNs
          (start (accept packet arrivalTimeNs) (run next opened calls)) ∧
        ((validatePacketSemantics packet).ok = true →
          Accepts (start (accept packet arrivalTimeNs) (run next opened calls))) ↔
      (validatePacketSemantics packet).ok = false ∨
        EncoderLimits packet ∧ HasRoom (run next opened calls) packet arrivalTimeNs := by
  have hrecording : Recording (run next opened calls) :=
    run_invariant (fun _ call h => h.next call) (recording_create henabled hcreate) calls
  exact hrecording.all_or_nothing_iff packet arrivalTimeNs

/-! ### A path that is too deep -/

/-- A profile with an archive. -/
def archivingProfile : CollectorProfile where
  archive := { enabled := true, path := ⟨"day.ath"⟩ }

/-- The collector of that profile on the small medium. -/
def archivingCollector : CollectorRuntime where
  profile := archivingProfile
  archive := some { out := {
    medium := smallMedium
    content := archiveMagic ++ ({} : ArchiveSummary).wire
    position := 36 } }

/-- The validator lets 33 hops pass with a warning, the encoder throws. -/
def deepPath : Packet where
  route := some { relayPath := List.replicate 33 7 }
  payload := [1]

/-- The example begins with an archive. -/
theorem create_archiving_collector :
    create archivingProfile (fun _ => some smallMedium) = .ok archivingCollector := by
  have hcreate : ArchiveWriter.create (some smallMedium) = .ok { out := {
      medium := smallMedium
      content := archiveMagic ++ ({} : ArchiveSummary).wire
      position := 36 } } :=
    create_ok_iff.mpr ⟨by decide, rfl⟩
  show (ArchiveWriter.create (some smallMedium) >>= fun writer => _) = _
  rw [hcreate]
  rfl

/-- A packet with too deep a path passes the validator, and is neither accepted nor left untracked.
-/
theorem deep_path_not_all_or_nothing :
    create archivingProfile (fun _ => some smallMedium) = .ok archivingCollector ∧
      (validatePacketSemantics deepPath).ok = true ∧
      ¬ AllOrNothing archivingCollector deepPath 5
        (start (accept deepPath 5) archivingCollector) ∧
      ¬ Accepts (start (accept deepPath 5) archivingCollector) := by
  have hrecording : Recording archivingCollector :=
    recording_create rfl create_archiving_collector
  have hpasses : (validatePacketSemantics deepPath).ok = true :=
    validate_ok_iff.mpr ⟨by decide, by simp [deepPath], by simp [deepPath], by decide⟩
  have hdeep : ¬ EncoderLimits deepPath := by
    intro hlimits
    have hops := hlimits.relayPath _ rfl
    simp at hops
  obtain ⟨failure, after, hrun, -, hchanged⟩ := @Recording.throws _ hrecording _ 5 hpasses
    fun htaken => hdeep htaken.1
  rw [hrun]
  refine ⟨create_archiving_collector, hpasses, hchanged, ?_⟩
  rintro ⟨result, hreturned, -⟩
  cases hreturned

/-- The packet behind the one that was thrown out is recorded. -/
theorem recorded_after_deep_path :
    AllOrNothing (run next archivingCollector [(deepPath, 5)]) { payload := [1] } 6
        (start (accept { payload := [1] } 6) (run next archivingCollector [(deepPath, 5)])) ∧
      Accepts (start (accept { payload := [1] } 6)
        (run next archivingCollector [(deepPath, 5)])) := by
  have harchive : (run next archivingCollector [(deepPath, 5)]).archive =
      archivingCollector.archive := rfl
  have hroom : HasRoom (run next archivingCollector [(deepPath, 5)]) { payload := [1] } 6 := by
    refine ⟨_, harchive, rfl, ?_⟩
    rw [length_record_wire]
    decide
  obtain ⟨hall, haccepts⟩ :=
    (accept_all_or_nothing_iff rfl create_archiving_collector [(deepPath, 5)] _ _).mpr
      (Or.inr ⟨⟨by simp, by simp, by simp, by simp, by simp⟩, hroom⟩)
  exact ⟨hall, haccepts (validate_ok_iff.mpr ⟨by decide, by simp, by simp, by decide⟩)⟩

end CollectorRuntime

end Aethon.Runtime
