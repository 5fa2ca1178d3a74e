import Aethon.Storage.ArchiveRoundTrip

/-!
# Reading an archive to its end

The loop `while (auto record = reader.next())` ends behind the last record or with the exception of
the first one that cannot be read. `drain_stands` says what it sees: the records that stand one
behind the other at the position of the reader, up to the first bytes that are not a record.
-/

namespace Aethon.Storage

open Actions FileStream Codec Protocol Parsing LittleEndian

namespace ArchiveReader

/-- A good reader reports the end exactly when nothing is left to read. -/
theorem next_none_iff {reader reader' : ArchiveReader} (hgood : reader.input.good = true) :
    start next reader = (.ok none, reader') ↔
      reader.input.unread = [] ∧
        reader' = { reader with input := { reader.input with eof := true } } := by
  rcases hunread : reader.input.unread with _ | ⟨byte, tail⟩
  · rw [next_of_nil hgood hunread]
    simp [eq_comm]
  · rw [next, start_onInput_modifyGet_bind, InputFile.peek_of_cons hgood hunread]
    simp only [start_onInput_modifyGet_bind, InputFile.tell_of_good hgood,
      read_exact_bind_ok_iff, start_lift_bind_ok_iff, validate_record_extent_bind_ok_iff,
      start_rejectIf_bind_ok_iff, start_pure, hgood, input_advance, InputFile.good_advance,
      Prod.mk.injEq, Except.ok.injEq, reduceCtorEq, false_and, and_false, exists_false, iff_self]

/-- Only a good reader returns a record. -/
theorem good_of_next_some {reader reader' : ArchiveReader} {record : ArchiveRecord}
    (h : start next reader = (.ok (some record), reader')) : reader.input.good = true := by
  by_contra hbad
  have hpeek : reader.input.peek = (none, { reader.input with fail := true }) := by
    simp [InputFile.peek, hbad]
  rw [next, start_onInput_modifyGet_bind, hpeek] at h
  cases h

/-- A record takes bytes off the file. -/
theorem next_some_shorter {reader reader' : ArchiveReader} {record : ArchiveRecord}
    (h : start next reader = (.ok (some record), reader')) :
    reader'.input.unread.length < reader.input.unread.length := by
  obtain ⟨frame, ⟨rest, hwire⟩, -, -, -, rfl⟩ := (next_some_iff (good_of_next_some h)).mp h
  rw [input_advance, InputFile.unread_advance, List.length_drop, hwire, List.length_append,
    length_record_wire]
  omega

/-- `while (auto record = reader.next())`: the records that the loop sees, and the exception that
ends it early. -/
def drain (reader : ArchiveReader) : List ArchiveRecord × Option Error :=
  match _h : start next reader with
  | (.error failure, _) => ([], some failure)
  | (.ok none, _) => ([], none)
  | (.ok (some record), behind) =>
      let rest := behind.drain
      (record :: rest.1, rest.2)
termination_by reader.input.unread.length
decreasing_by exact next_some_shorter _h

/-- The records of a loop that may not end early. -/
def readToEnd (reader : ArchiveReader) : Except Error (List ArchiveRecord) :=
  match reader.drain with
  | (_, some failure) => .error failure
  | (records, none) => .ok records

end ArchiveReader

/-- The exception that ends a loop over records, if any. -/
def endLoop (ending : Option Error) : Except Error Unit :=
  match ending with
  | some failure => .error failure
  | none => .ok ()

/-! ## The records at a position -/

/-- A packet without metadata is within the limits when its payload leaves room for the rest of the
frame. -/
theorem readable_plain {kind : PacketKind} {payload : Bytes} (device : DeviceId)
    (sequence : UInt32) (hkind : 1 ≤ kind.raw ∧ kind.raw ≤ 5)
    (hsize : 45 + payload.length ≤ ({} : DecodeOptions).maxPacketSize) :
    ReadableLimits { kind, device, sequence, payload } where
  version := show (1 : UInt8) ≤ 3 ∧ (3 : UInt8) ≤ 3 by decide
  kind := hkind
  fragment := by simp
  relayPath := by simp
  bandCount := by simp
  bandLength := by simp
  extensions := by simp
  size := by simpa [Packet.sectionsWire] using hsize

theorem readable_observation {payload : Bytes} (device : DeviceId) (sequence : UInt32)
    (hsize : 45 + payload.length ≤ ({} : DecodeOptions).maxPacketSize) :
    ReadableLimits { device, sequence, payload } :=
  readable_plain device sequence (by decide) hsize

/-- A frame that the reader accepts, and its packet. -/
def Frames (frame : Bytes) (packet : Packet) : Prop :=
  frame.length ≤ ({} : DecodeOptions).maxPacketSize ∧ decodePacket frame = .ok packet

/-- No record stands in front of these bytes. -/
def NoRecord (bytes : Bytes) : Prop :=
  ∀ captureTimeNs frame packet rest, bytes = recordWire captureTimeNs frame ++ rest →
    ¬ Frames frame packet

/-- These records stand at a position of a file, one behind the other, with `rest` behind them. -/
inductive Stands : Nat → Bytes → List ArchiveRecord → Bytes → Prop where
  | nil (position : Nat) (rest : Bytes) : Stands position rest [] rest
  | cons {position : Nat} {record : ArchiveRecord} {frame bytes rest : Bytes}
      {records : List ArchiveRecord} (hframes : Frames frame record.packet)
      (hoffset : record.offset = UInt64.ofNat position)
      (htail : Stands (position + (16 + frame.length)) bytes records rest) :
      Stands position (recordWire record.captureTimeNs frame ++ bytes) (record :: records) rest

namespace Stands

variable {position : Nat} {bytes rest : Bytes} {records : List ArchiveRecord}

/-- The packets of records are within the limits of the reader. -/
theorem readable (h : Stands position bytes records rest) :
    ∀ record ∈ records, ReadableLimits record.packet := by
  induction h with
  | nil => simp
  | cons hframes _ _ ih =>
      intro record hrecord
      rcases List.mem_cons.mp hrecord with rfl | hrecord
      · exact readable_of_decode hframes.1 hframes.2
      · exact ih record hrecord

/-- Written again, records take no more bytes. -/
theorem length_records_wire_le (h : Stands position bytes records rest) :
    (recordsWire (records.map ArchiveRecord.entry)).length + rest.length ≤ bytes.length := by
  induction h with
  | nil => exact Nat.le_of_eq (Nat.zero_add _)
  | cons hframes _ _ ih =>
      have hframe := length_frame_le hframes.2
      rw [List.map_cons, recordsWire_cons, List.length_append, List.length_append,
        length_record_wire, length_record_wire]
      simp only [packetFrame, ArchiveRecord.entry] at ih ⊢
      omega

/-- The offsets of records lie in the bytes that they stand in. -/
theorem offset_mem (h : Stands position bytes records rest)
    (hsize : position + bytes.length < 2 ^ 64) :
    ∀ record ∈ records, position ≤ record.offset.toNat := by
  induction h with
  | nil => simp
  | @cons position record frame bytes rest records hframes hoffset htail ih =>
      rw [List.length_append, length_record_wire] at hsize
      intro other hother
      rcases List.mem_cons.mp hother with rfl | hother
      · rw [hoffset, UInt64.toNat_ofNat_of_lt' (show position < 2 ^ 64 by omega)]
      · have := ih (by omega) other hother
        omega

/-- The offsets of records increase. -/
theorem offsets_increase (h : Stands position bytes records rest)
    (hsize : position + bytes.length < 2 ^ 64) :
    records.Pairwise fun earlier later => earlier.offset < later.offset := by
  induction h with
  | nil => exact List.Pairwise.nil
  | @cons position record frame bytes rest records hframes hoffset htail ih =>
      rw [List.length_append, length_record_wire] at hsize
      refine List.pairwise_cons.mpr ⟨?_, ih (by omega)⟩
      intro later hlater
      have hbehind := htail.offset_mem (by omega) later hlater
      rw [UInt64.lt_iff_toNat_lt, hoffset,
        UInt64.toNat_ofNat_of_lt' (show position < 2 ^ 64 by omega)]
      omega

end Stands

/-- The records of entries that a writer put at a position. -/
def recordsAt (position : Nat) : List (UInt64 × Packet) → List ArchiveRecord
  | [] => []
  | entry :: entries =>
      ⟨UInt64.ofNat position, entry.1, entry.2⟩ ::
        recordsAt (position + (16 + (packetFrame entry.2).length)) entries

@[simp] theorem entries_recordsAt (position : Nat) (entries : List (UInt64 × Packet)) :
    (recordsAt position entries).map ArchiveRecord.entry = entries := by
  induction entries generalizing position with
  | nil => rfl
  | cons entry entries ih => exact congrArg (entry :: ·) (ih _)

/-- Written entries stand at their position as records. -/
theorem stands_of_entries (position : Nat) (rest : Bytes) {entries : List (UInt64 × Packet)}
    (hlimits : ∀ entry ∈ entries, ReadableLimits entry.2) :
    Stands position (recordsWire entries ++ rest) (recordsAt position entries) rest := by
  induction entries generalizing position with
  | nil => exact Stands.nil _ _
  | cons entry entries ih =>
      obtain ⟨hentry, hentries⟩ := List.forall_mem_cons.mp hlimits
      have htail := ih (position + (16 + (packetFrame entry.2).length)) hentries
      let record : ArchiveRecord := ⟨UInt64.ofNat position, entry.1, entry.2⟩
      have hframes : Frames (packetFrame entry.2) record.packet := hentry.decode
      rw [recordsWire_cons, List.append_assoc]
      exact @Stands.cons position record _ _ _ _ hframes rfl htail

theorem no_record_nil : NoRecord [] := by
  intro captureTimeNs frame packet rest hwire
  have := congrArg List.length hwire
  rw [List.length_append, length_record_wire, List.length_nil] at this
  omega

namespace ArchiveReader

/-- A loop in front of bytes that are no record yields nothing, and ends well only at the end. -/
theorem drain_of_no_record {reader : ArchiveReader} (hgood : reader.input.good = true)
    (h : NoRecord reader.input.unread) :
    reader.drain.1 = [] ∧ (reader.drain.2 = none ↔ reader.input.unread = []) := by
  rw [drain]
  rcases hnext : start next reader with ⟨failure | _ | record, behind⟩
  · refine ⟨rfl, ?_⟩
    constructor
    · intro hnone
      cases hnone
    · intro hunread
      rw [next_of_nil hgood hunread] at hnext
      cases hnext
  · exact ⟨rfl, iff_of_true rfl ((next_none_iff hgood).mp hnext).1⟩
  · obtain ⟨frame, ⟨rest, hwire⟩, hsize, hdecode, -⟩ := (next_some_iff hgood).mp hnext
    exact absurd ⟨hsize, hdecode⟩ (h _ _ _ _ hwire)

/-- The loop over bytes that begin with records yields them, and goes on behind them. -/
theorem drain_of_stands {position : Nat} {bytes rest : Bytes} {records : List ArchiveRecord}
    (h : Stands position bytes records rest) {reader : ArchiveReader}
    (hgood : reader.input.good = true) (hposition : reader.input.position = position)
    (hunread : reader.input.unread = bytes) :
    ∃ behind : ArchiveReader, behind.input.good = true ∧ behind.input.unread = rest ∧
      reader.drain = (records ++ behind.drain.1, behind.drain.2) := by
  induction h generalizing reader with
  | nil position rest => exact ⟨reader, hgood, hunread, rfl⟩
  | @cons position record frame bytes rest records hframes hoffset htail ih =>
      let next := reader.advance (16 + frame.length)
      have hnext : start ArchiveReader.next reader = (.ok (some record), next) :=
        (next_some_iff hgood).mpr
          ⟨frame, ⟨_, hunread⟩, hframes.1, hframes.2, by rw [hoffset, hposition], rfl⟩
      have hbehind : next.input.unread = bytes :=
        ((InputFile.unread_eq_append_iff (length_record_wire _ frame)).mp hunread).2
      obtain ⟨behind, hbehindGood, hrest, hdrain⟩ :=
        @ih next hgood (congrArg (· + (16 + frame.length)) hposition) hbehind
      refine ⟨behind, hbehindGood, hrest, ?_⟩
      rw [drain, hnext]
      simp only [hdrain, List.cons_append]

/-- The loop yields the records in front of the first bytes that are none, and ends well exactly
when these are the end of the file. -/
theorem drain_of_stands_no_record {position : Nat} {bytes rest : Bytes}
    {records : List ArchiveRecord} (h : Stands position bytes records rest) (hrest : NoRecord rest)
    {reader : ArchiveReader} (hgood : reader.input.good = true)
    (hposition : reader.input.position = position) (hunread : reader.input.unread = bytes) :
    reader.drain.1 = records ∧ (reader.drain.2 = none ↔ rest = []) := by
  obtain ⟨behind, hbehindGood, rfl, hdrain⟩ := drain_of_stands h hgood hposition hunread
  obtain ⟨hnothing, hend⟩ := drain_of_no_record hbehindGood hrest
  rw [hdrain, hnothing, List.append_nil]
  exact ⟨rfl, hend⟩

/-- Whatever a file holds, a loop yields the records that stand at its position, up to bytes that
are no record. -/
theorem drain_stands {reader : ArchiveReader} (hgood : reader.input.good = true) :
    ∃ rest, Stands reader.input.position reader.input.unread reader.drain.1 rest ∧
      NoRecord rest ∧ (reader.drain.2 = none ↔ rest = []) := by
  induction hlength : reader.input.unread.length using Nat.strongRecOn generalizing reader with
  | ind length ih =>
      subst hlength
      by_cases h : NoRecord reader.input.unread
      · obtain ⟨hnothing, hend⟩ := drain_of_no_record hgood h
        rw [hnothing]
        exact ⟨_, Stands.nil _ _, h, hend⟩
      · -- the record at the front is read, and the loop goes on behind it
        simp only [NoRecord, not_forall, not_not] at h
        obtain ⟨captureTimeNs, frame, packet, more, hwire, hframes⟩ := h
        let record : ArchiveRecord :=
          ⟨UInt64.ofNat reader.input.position, captureTimeNs, packet⟩
        let behind := reader.advance (16 + frame.length)
        have hnext : start next reader = (.ok (some record), behind) :=
          (next_some_iff hgood).mpr ⟨frame, ⟨more, hwire⟩, hframes.1, hframes.2, rfl, rfl⟩
        have hbehind : behind.input.unread = more :=
          ((InputFile.unread_eq_append_iff (length_record_wire _ frame)).mp hwire).2
        obtain ⟨rest, hstands, hnone, hend⟩ := @ih _ (next_some_shorter hnext) behind hgood rfl
        have hdrain : reader.drain = (record :: behind.drain.1, behind.drain.2) := by
          rw [drain, hnext]
        rw [hdrain, hwire]
        rw [hbehind] at hstands
        have hcons : Stands _ (recordWire record.captureTimeNs frame ++ more) (record :: _) rest :=
          Stands.cons hframes rfl hstands
        exact ⟨rest, hcons, hnone, hend⟩

end ArchiveReader

/-! ## Reading a file -/

/-- Open a file and read it to its end. -/
def readArchive (file : Option Bytes) : Except Error (ArchiveSummary × List ArchiveRecord) := do
  let reader ← ArchiveReader.ofFile file
  let records ← reader.readToEnd
  pure (reader.summary, records)

/-- A reader that was opened stands in front of the bytes behind the header. -/
theorem of_file_spec {content : Bytes} {reader : ArchiveReader}
    (h : ArchiveReader.ofFile (some content) = .ok reader) :
    reader.input.good = true ∧ reader.input.position = 36 ∧
      content = archiveMagic ++ reader.summary.wire ++ reader.input.unread := by
  obtain ⟨⟨body, hcontent⟩, hinput⟩ := ArchiveReader.of_file_ok_iff.mp h
  have hunread : reader.input.unread = body := by
    rw [hinput, hcontent]
    exact List.drop_left' (by rw [List.length_append, length_summary_wire]; rfl)
  rw [hunread]
  exact ⟨by rw [hinput]; rfl, by rw [hinput], hcontent⟩

/-- An archive is read to its end when draining it meets no error. -/
theorem read_to_end_ok_iff {reader : ArchiveReader} {records : List ArchiveRecord} :
    reader.readToEnd = .ok records ↔ reader.drain = (records, none) := by
  unfold ArchiveReader.readToEnd
  rcases reader.drain with ⟨drained, _ | failure⟩
  · simp
  · simp

/-- A file is read to its end exactly when it is a header and records. -/
theorem read_archive_ok_iff {content : Bytes} {summary : ArchiveSummary}
    {records : List ArchiveRecord} :
    readArchive (some content) = .ok (summary, records) ↔
      ∃ body, content = archiveMagic ++ summary.wire ++ body ∧ Stands 36 body records [] := by
  simp only [readArchive, except_bind_ok_iff, except_pure_ok_iff, read_to_end_ok_iff, Prod.mk.injEq]
  constructor
  · intro h
    obtain ⟨reader, hopen, _, hdrain, rfl, rfl⟩ := h
    obtain ⟨hgood, hposition, hcontent⟩ := of_file_spec hopen
    obtain ⟨rest, hstands, -, hend⟩ := reader.drain_stands hgood
    rw [hdrain] at hstands hend
    obtain rfl := hend.mp rfl
    rw [hposition] at hstands
    exact ⟨_, hcontent, hstands⟩
  · intro h
    obtain ⟨body, hcontent, hstands⟩ := h
    let reader : ArchiveReader := { input := { content, position := 36 }, summary }
    have hopen : ArchiveReader.ofFile (some content) = .ok reader :=
      ArchiveReader.of_file_ok_iff.mpr ⟨⟨body, hcontent⟩, rfl⟩
    obtain ⟨hgood, hposition, hunread⟩ := of_file_spec hopen
    have hbody : reader.input.unread = body := List.append_cancel_left (hunread.symm.trans hcontent)
    obtain ⟨hrecords, hend⟩ :=
      ArchiveReader.drain_of_stands_no_record hstands no_record_nil hgood hposition hbody
    exact ⟨reader, hopen, records, Prod.ext hrecords (hend.mpr rfl), rfl, rfl⟩

end Aethon.Storage
