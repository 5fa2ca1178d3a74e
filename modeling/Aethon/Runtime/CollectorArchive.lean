import Aethon.Replay.ReplayEngine
import Aethon.Runtime.CollectorSteps
import Aethon.Storage.UnfinishedWriting

/-!
# What a collector leaves behind

The archive of a collector after any calls of `accept`, whatever they yielded, and after the
collector is destroyed, where every write fit on the medium: `accepted_packets_recovered` says that
reading it gives the packets the calls accepted, each once, in order and with their arrival times.
`collected_packets_replayed` goes on to the subscribers of a replay driver on that archive.
-/

namespace Aethon.Runtime.CollectorRuntime

open Actions FileStream Protocol Replay Storage Runs

/-- Whether a call returns and accepts its packet. -/
def accepts (c : CollectorRuntime) (call : Packet × UInt64) : Bool :=
  match (start (accept call.1 call.2) c).1 with
  | .ok result => result.accepted
  | .error _ => false

/-- The arrival times and packets that the calls accepted, in order. -/
def accepted : CollectorRuntime → List (Packet × UInt64) → List (UInt64 × Packet)
  | _, [] => []
  | c, call :: calls =>
      (if c.accepts call then [(call.2, call.1)] else []) ++ accepted (c.next call) calls

/-- What the file of the archive holds once the collector is destroyed. -/
def destroyed (c : CollectorRuntime) : Option Bytes :=
  c.archive.map ArchiveWriter.destroyed

/-- The archive is open and holds the entries. -/
def Archives (c : CollectorRuntime) (entries : List (UInt64 × Packet)) : Prop :=
  ∃ writer, c.archive = some writer ∧ writer.Holds entries

/-- Every write to the archive fit on its medium: a stream that failed once stays failed. -/
def EveryWriteFit (c : CollectorRuntime) : Prop :=
  ∀ writer ∈ c.archive, writer.out.failed = false

instance (c : CollectorRuntime) : Decidable c.EveryWriteFit :=
  inferInstanceAs (Decidable (∀ writer ∈ c.archive, writer.out.failed = false))

/-- A packet that the encoder takes is one that the reader gives back. -/
def Portable (packet : Packet) : Prop :=
  EncoderLimits packet → ReadableLimits packet

/-- A new collector has an archive without records. -/
theorem archives_create {profile : CollectorProfile} {media : Path → Option Medium}
    {opened : CollectorRuntime} (henabled : profile.archive.enabled = true)
    (h : create profile media = .ok opened) : Archives opened [] := by
  rw [create, if_pos henabled] at h
  obtain ⟨writer, hcreate, hpure⟩ := Parsing.except_bind_ok_iff.mp h
  obtain rfl := Except.ok.inj hpure
  rcases hmedium : media profile.archive.path with _ | medium
  · rw [hmedium] at hcreate
    cases hcreate
  · rw [hmedium] at hcreate
    exact ⟨writer, rfl, ArchiveWriter.holds_create hcreate⟩

/-- A call adds to the archive exactly the packet that it accepts. -/
theorem Archives.next {c : CollectorRuntime} {entries : List (UInt64 × Packet)}
    (h : c.Archives entries) {call : Packet × UInt64} (hportable : Portable call.1) :
    Archives (c.next call)
        (entries ++ if c.accepts call then [(call.2, call.1)] else []) ∧
      (c.accepts call = true → EncoderLimits call.1) := by
  obtain ⟨writer, hopen, hholds⟩ := h
  have hsize : EncoderLimits call.1 →
      (packetFrame call.1).length ≤ ({} : DecodeOptions).maxPacketSize := fun hlimits => by
    rw [length_packet_frame]
    exact (hportable hlimits).size
  have happended := hholds.append call.2 hsize
  unfold CollectorRuntime.next accepts
  obtain ⟨-, result, after, hrun, hrefused, hsame⟩ |
    ⟨-, writer', result, after, happend, hrun, haccepted, -, harchive⟩ |
    ⟨-, writer', failure, after, happend, hrun, -, harchive⟩ := accept_cases hopen call.1 call.2
  · rw [hrun]
    simp only [hrefused, Bool.false_eq_true, if_false, List.append_nil, false_imp_iff, and_true]
    exact ⟨writer, hsame.archive.trans hopen, hholds⟩
  · rw [happend] at happended
    rw [hrun]
    simp only [haccepted, if_true, forall_const]
    exact ⟨⟨writer', harchive, happended⟩,
      ((append_ok_iff_of_appending hholds.appending).mp happend).1.1⟩
  · rw [happend] at happended
    rw [hrun]
    simp only [Bool.false_eq_true, if_false, List.append_nil, false_imp_iff, and_true]
    exact ⟨writer', harchive, happended⟩

/-- After any calls the archive holds what they accepted, and that is readable. -/
theorem Archives.run {c : CollectorRuntime} {entries : List (UInt64 × Packet)}
    (h : c.Archives entries) {calls : List (Packet × UInt64)}
    (hportable : ∀ call ∈ calls, Portable call.1) :
    Archives (run CollectorRuntime.next c calls) (entries ++ c.accepted calls) ∧
      ∀ entry ∈ c.accepted calls, ReadableLimits entry.2 := by
  induction calls generalizing c entries with
  | nil =>
      rw [accepted, List.append_nil]
      exact ⟨h, List.forall_mem_nil _⟩
  | cons call calls ih =>
      obtain ⟨hcall, hcalls⟩ := List.forall_mem_cons.mp hportable
      obtain ⟨hnext, hlimits⟩ := h.next hcall
      obtain ⟨hrun, hreadable⟩ := ih hnext hcalls
      rw [accepted, ← List.append_assoc]
      refine ⟨hrun, fun entry hentry => ?_⟩
      rcases List.mem_append.mp hentry with hhead | htail
      · split_ifs at hhead with haccepts
        · rw [List.mem_singleton.mp hhead]
          exact hcall (hlimits haccepts)
        · cases hhead
      · exact hreadable entry htail

/-- **What a collector leaves behind.** Take a collector with an archive, any calls of `accept`
on packets that the reader gives back if the encoder takes them, and destroy the collector. If every
write fit on the medium, the reader opens the file, its records are the packets that the calls
accepted, in order and with their arrival times, the loop over the records ends well and the header
describes them. -/
theorem accepted_packets_recovered {profile : CollectorProfile} {media : Path → Option Medium}
    {opened : CollectorRuntime} (henabled : profile.archive.enabled = true)
    (hcreate : create profile media = .ok opened) (calls : List (Packet × UInt64))
    (hportable : ∀ call ∈ calls, Portable call.1)
    (hfits : (run next opened calls).EveryWriteFit) :
    ∃ file reader, (run next opened calls).destroyed = some file ∧
      ArchiveReader.ofFile (some file) = .ok reader ∧
      reader.drain.1.map ArchiveRecord.entry = opened.accepted calls ∧
      reader.drain.2 = none ∧ Describes reader.summary (opened.accepted calls) := by
  obtain ⟨⟨writer, harchive, hholds⟩, hreadable⟩ := (archives_create henabled hcreate).run hportable
  rw [List.nil_append] at hholds
  obtain ⟨reader, hopen, hrecords, hgood⟩ := hholds.reads hreadable
  refine ⟨writer.destroyed, reader, ?_, hopen, ?_, hgood (hfits writer harchive)⟩
  · rw [destroyed, harchive, Option.map_some]
  · rw [hrecords, entries_recordsAt]

/-- The writes of the run below fit on a small medium. -/
theorem every_write_fit_behind_deep_path :
    (run next archivingCollector [(deepPath, 5), ({ payload := [1] }, 6)]).EveryWriteFit := by
  decide +kernel

/-- A packet that the encoder throws out, and one that is recovered. -/
theorem recovered_behind_deep_path :
    ∃ file reader,
      (run next archivingCollector [(deepPath, 5), ({ payload := [1] }, 6)]).destroyed =
        some file ∧
      ArchiveReader.ofFile (some file) = .ok reader ∧
      reader.drain.1.map ArchiveRecord.entry =
        archivingCollector.accepted [(deepPath, 5), ({ payload := [1] }, 6)] ∧
      reader.drain.2 = none ∧ Describes reader.summary
        (archivingCollector.accepted [(deepPath, 5), ({ payload := [1] }, 6)]) := by
  refine accepted_packets_recovered rfl create_archiving_collector _
    (List.forall_mem_cons.mpr ⟨fun hlimits => ?_, List.forall_mem_singleton.mpr fun _ =>
      readable_observation 0 0 (by decide)⟩) every_write_fit_behind_deep_path
  have hops := hlimits.relayPath _ rfl
  simp at hops

/-! ## Replaying what was collected -/

/-- The event in which the driver replays an entry. -/
def entryEvent (entry : UInt64 × Packet) : RuntimeEvent where
  kind := .packetReceived
  timeNs := entry.1.toNat
  packet := entry.2
  message := "replayed archive packet"

/-- Records are selected and replayed by their entries. -/
theorem selected_entries (engine : ReplayEngine) (records : List ArchiveRecord) :
    (engine.selected records).map ArchiveRecord.entry =
      (records.map ArchiveRecord.entry).filter fun entry => engine.withinWindow entry.1 := by
  rw [List.filter_map]
  rfl

theorem payload_bytes_entries (records : List ArchiveRecord) :
    ReplayEngine.payloadBytes records =
      ((records.map ArchiveRecord.entry).map fun entry => entry.2.payload.length).sum := by
  rw [List.map_map]
  rfl

/-- **From the collector to the subscribers of a replay.** Destroy a collector with an archive after
any calls whose writes all fit on the medium, and run a replay driver with a positive speed on the
file. Each subscriber gets one event for each packet that the calls accepted and whose arrival time
is in the window, in order, and the run returns, with the exact counts. -/
theorem collected_packets_replayed {profile : CollectorProfile} {media : Path → Option Medium}
    {opened : CollectorRuntime} (henabled : profile.archive.enabled = true)
    (hcreate : create profile media = .ok opened) (calls : List (Packet × UInt64))
    (hportable : ∀ call ∈ calls, Portable call.1)
    (hfits : (run next opened calls).EveryWriteFit) {σ : Type} (driver : ReplayDriver σ)
    (hspeed : 0 < driver.options.speed) (world : σ) :
    let engine : ReplayEngine := ⟨driver.options, hspeed⟩
    let replayed := (opened.accepted calls).filter fun entry => engine.withinWindow entry.1
    let outcome := driver.run (run next opened calls).destroyed world
    outcome.2 = (replayed.map entryEvent).foldl driver.dispatcher.publish world ∧
      outcome.1 = .ok
        { stats :=
            { recordsSeen := UInt64.ofNat (opened.accepted calls).length
              recordsEmitted := UInt64.ofNat replayed.length
              bytesEmitted :=
                UInt64.ofNat (replayed.map fun entry => entry.2.payload.length).sum }
          eventsPublished := UInt64.ofNat replayed.length } := by
  intro engine replayed outcome
  obtain ⟨⟨writer, harchive, hholds⟩, hreadable⟩ := (archives_create henabled hcreate).run hportable
  rw [List.nil_append] at hholds
  obtain ⟨reader, hopen, hrecords, hgood⟩ := hholds.reads hreadable
  have hfile : (run next opened calls).destroyed = some writer.destroyed := by
    rw [destroyed, harchive, Option.map_some]
  have hentries : (engine.selected reader.drain.1).map ArchiveRecord.entry = replayed := by
    rw [selected_entries, hrecords, entries_recordsAt]
  have hevents : (engine.selected reader.drain.1).map replayEvent = replayed.map entryEvent := by
    rw [← hentries, List.map_map]
    rfl
  have hlength : (engine.selected reader.drain.1).length = replayed.length := by
    rw [← hentries, List.length_map]
  have hseen : reader.drain.1.length = (opened.accepted calls).length := by
    rw [hrecords, ← List.length_map ArchiveRecord.entry, entries_recordsAt]
  obtain ⟨hworld, hresult⟩ := ReplayDriver.run_of_open hopen engine rfl world
  rw [← hfile] at hworld hresult
  refine ⟨hworld.trans (by rw [hevents]), hresult.trans ?_⟩
  rw [(hgood (hfits writer harchive)).1, payload_bytes_entries, hentries, hlength, hseen]
  rfl

/-- A driver with one subscriber that keeps the events. -/
def keepingDriver : ReplayDriver (List RuntimeEvent) :=
  ({} : ReplayDriver (List RuntimeEvent)).subscribe fun events event => events ++ [event]

/-- What was recovered behind the packet that the encoder throws out is replayed. -/
theorem replayed_behind_deep_path :
    let calls : List (Packet × UInt64) := [(deepPath, 5), ({ payload := [1] }, 6)]
    let engine : ReplayEngine := ⟨keepingDriver.options, by decide⟩
    let replayed := (archivingCollector.accepted calls).filter fun entry =>
      engine.withinWindow entry.1
    let outcome := keepingDriver.run (run next archivingCollector calls).destroyed []
    outcome.2 = (replayed.map entryEvent).foldl keepingDriver.dispatcher.publish [] ∧
      outcome.1 = .ok
        { stats :=
            { recordsSeen := UInt64.ofNat (archivingCollector.accepted calls).length
              recordsEmitted := UInt64.ofNat replayed.length
              bytesEmitted :=
                UInt64.ofNat (replayed.map fun entry => entry.2.payload.length).sum }
          eventsPublished := UInt64.ofNat replayed.length } := by
  intro calls
  refine collected_packets_replayed rfl create_archiving_collector calls
    (List.forall_mem_cons.mpr ⟨fun hlimits => ?_, List.forall_mem_singleton.mpr fun _ =>
      readable_observation 0 0 (by decide)⟩) every_write_fit_behind_deep_path keepingDriver
    (by decide) []
  have hops := hlimits.relayPath _ rfl
  simp at hops

end Aethon.Runtime.CollectorRuntime
