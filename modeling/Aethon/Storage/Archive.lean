import Aethon.Foundation.Actions
import Aethon.Foundation.FileStream
import Aethon.Protocol.Packet

/-!
# Archive files

`ArchiveWriter` and `ArchiveReader`, after `storage/archive.cpp`. An archive is the magic string,
a header that the writer patches when it is closed, and one record for each packet: capture time,
frame length, frame and the checksum of the three. Both classes hold a file stream, so their
methods are actions: a method that throws leaves the object as far as it came.
-/

namespace Aethon.Storage

open Actions FileStream Codec Protocol Parsing

/-- The characters `AETHARC1`. -/
def archiveMagic : Bytes :=
  [0x41, 0x45, 0x54, 0x48, 0x41, 0x52, 0x43, 0x31]

/-- The bytes of the checksum behind a record. -/
def archiveRecordCrcBytes : Nat := 4

/-- The exceptions about the archive file itself. -/
def archiveError (message : String) : Error :=
  ⟨.archiveCorrupt, message⟩

/-- What the header of an archive says of its records. -/
structure ArchiveSummary where
  formatVersion : UInt32 := 1
  recordCount : UInt64 := 0
  firstTimeNs : UInt64 := 0
  lastTimeNs : UInt64 := 0
  deriving DecidableEq, Repr

/-- A packet in an archive, with the place and the time of its capture. -/
structure ArchiveRecord where
  offset : UInt64 := 0
  captureTimeNs : UInt64 := 0
  packet : Packet
  deriving DecidableEq

/-! ## Writing -/

/-- Put bytes into the file, and fail when the stream failed. -/
def writeAll (bytes : Bytes) : Action OutputFile Error Unit := do
  modify fun out => out.write bytes
  rejectIf (← get).failed (archiveError "failed to write archive data")

/-- A writer of an archive, which counts what it wrote. -/
structure ArchiveWriter where
  out : OutputFile
  summary : ArchiveSummary := {}
  closed : Bool := false

namespace ArchiveWriter

/-- An action on the file of a writer. -/
def onOut {α : Type} (x : Action OutputFile Error α) : Action ArchiveWriter Error α :=
  zoom out (fun writer out => { writer with out }) x

/-- The constructor. There is no medium where the file cannot be opened. -/
def create (medium : Option Medium) : Except Error ArchiveWriter :=
  match medium with
  | none => .error (archiveError "failed to open archive for writing")
  | some medium => execute
      (do
        onOut (writeAll archiveMagic)
        let header := (BinaryWriter.mk []).u32 (← get).summary.formatVersion
        let header := ((header.u64 0).u64 0).u64 0
        onOut (writeAll header.buffer))
      { out := { medium } }

/-- The summary after one more record. -/
def record (summary : ArchiveSummary) (captureTimeNs : UInt64) : ArchiveSummary :=
  let summary :=
    if summary.recordCount = 0 then
      { summary with firstTimeNs := captureTimeNs, lastTimeNs := captureTimeNs }
    else
      { summary with
        firstTimeNs := min summary.firstTimeNs captureTimeNs
        lastTimeNs := max summary.lastTimeNs captureTimeNs }
  { summary with recordCount := summary.recordCount + 1 }

/-- Only the encoder's own limits guard a record: the reader's limits are not asked for. -/
def append (captureTimeNs : UInt64) (packet : Packet) : Action ArchiveWriter Error Unit := do
  let frame ← liftM (encodePacket packet)
  -- the length field keeps the low 32 bits of the frame length
  let prefixed := (((BinaryWriter.mk []).u64 captureTimeNs).u32 (UInt32.ofNat frame.length)).bytes
    frame
  let framed := prefixed.u32 (crc32c prefixed.buffer)
  onOut (writeAll framed.buffer)
  modify fun writer => { writer with summary := record writer.summary captureTimeNs }

/-- Patch the header behind the magic string. A writer is closed once. -/
def close : Action ArchiveWriter Error Unit := do
  let writer ← get
  if writer.closed then
    pure ()
  else
    modify fun writer => { writer with out := writer.out.seek archiveMagic.length }
    let header := (BinaryWriter.mk []).u32 writer.summary.formatVersion
    let header := ((header.u64 writer.summary.recordCount).u64
      writer.summary.firstTimeNs).u64 writer.summary.lastTimeNs
    onOut (writeAll header.buffer)
    modify fun writer => { writer with closed := true }

end ArchiveWriter

/-- Write an archive: open it, append the entries in order and close it. -/
def writeArchive (medium : Medium) (entries : List (UInt64 × Packet)) :
    Except Error ArchiveWriter := do
  let writer ← ArchiveWriter.create (some medium)
  execute
    (do
      forM entries fun entry => ArchiveWriter.append entry.1 entry.2
      ArchiveWriter.close)
    writer

/-! ## Reading -/

/-- Take `n` bytes of the file, or fail. -/
def readExact (n : Nat) : Action InputFile Error Bytes := do
  rejectIf (n > 2 ^ 63 - 1) (archiveError "archive read size exceeds platform stream limit")
  let bytes ← modifyGet (InputFile.read n)
  rejectIf (bytes.length ≠ n) (archiveError "truncated archive record")
  pure bytes

/-- Check, before the frame is read, that the file holds the frame and its checksum. -/
def validateRecordExtent (frameLen : UInt32) : Action InputFile Error Unit := do
  rejectIf (frameLen.toNat > ({} : DecodeOptions).maxPacketSize)
    (archiveError "archive record frame exceeds packet size limit")
  -- the file is sought to its end and back
  let frameStart ← modifyGet InputFile.tell
  modify InputFile.seekEnd
  let fileEnd ← modifyGet InputFile.tell
  modify (InputFile.seek frameStart)
  rejectIf (frameStart = none ∨ fileEnd = none ∨ fileEnd.getD 0 < frameStart.getD 0)
    (archiveError "archive record frame position is invalid")
  rejectIf (fileEnd.getD 0 - frameStart.getD 0 < frameLen.toNat + archiveRecordCrcBytes)
    (archiveError "archive record is truncated")

/-- A reader of an archive, which has read the header. -/
structure ArchiveReader where
  input : InputFile
  summary : ArchiveSummary := {}

namespace ArchiveReader

/-- An action on the file of a reader. -/
def onInput {α : Type} (x : Action InputFile Error α) : Action ArchiveReader Error α :=
  zoom input (fun reader input => { reader with input }) x

/-- Run a binary reader over a buffer of its own. -/
def parse {α : Type} (bytes : Bytes) (p : BinaryReader α) : Except Error α :=
  p.run' bytes

/-- The fields of the header behind the magic string. -/
def readHeader : BinaryReader ArchiveSummary := do
  let formatVersion ← BinaryReader.u32
  let recordCount ← BinaryReader.u64
  let firstTimeNs ← BinaryReader.u64
  let lastTimeNs ← BinaryReader.u64
  pure { formatVersion, recordCount, firstTimeNs, lastTimeNs }

/-- The constructor. There are no bytes where the file cannot be opened. -/
def ofFile (file : Option Bytes) : Except Error ArchiveReader :=
  match file with
  | none => .error (archiveError "failed to open archive for reading")
  | some content => execute
      (do
        let magic ← onInput (readExact archiveMagic.length)
        rejectIf (magic ≠ archiveMagic) (archiveError "archive magic mismatch")
        let header ← onInput (readExact 28)
        let summary ← liftM (parse header readHeader)
        modify fun reader => { reader with summary })
      { input := { content } }

/-- A stream position as the 64-bit offset of a record: a failed stream reports minus one. -/
def streamOffset : Option Nat → UInt64
  | none => 0 - 1
  | some position => UInt64.ofNat position

/-- Capture time and frame length, in front of each frame. -/
def readPrefix : BinaryReader (UInt64 × UInt32) := do
  let captureTimeNs ← BinaryReader.u64
  let frameLen ← BinaryReader.u32
  pure (captureTimeNs, frameLen)

/-- The next record. A stream that has failed before reads as an ended one. -/
def next : Action ArchiveReader Error (Option ArchiveRecord) := do
  let first ← onInput (modifyGet InputFile.peek)
  match first with
  | none => pure none
  | some _ =>
      let position ← onInput (modifyGet InputFile.tell)
      let fields ← onInput (readExact 12)
      let (captureTimeNs, frameLen) ← liftM (parse fields readPrefix)
      onInput (validateRecordExtent frameLen)
      let frame ← onInput (readExact frameLen.toNat)
      let crcBytes ← onInput (readExact 4)
      let crc ← liftM (parse crcBytes BinaryReader.u32)
      rejectIf (crc32c (fields ++ frame) ≠ crc)
        (Error.mk .checksumMismatch "archive record crc mismatch")
      -- the frame is decoded with the default options, whatever wrote it
      let packet ← liftM (decodePacket frame)
      pure (some { offset := streamOffset position, captureTimeNs, packet })

end ArchiveReader

end Aethon.Storage
