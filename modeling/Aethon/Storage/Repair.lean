import Aethon.Storage.Archive

/-!
# The salvage scan

`ArchiveRepairScanner` looks for packet frames at every offset of a byte string, after
`storage/repair.cpp`. A frame that the decoder accepts is jumped over, and every other offset is
left by one byte. Offsets and counters count bytes of the string, so they are naturals.
-/

namespace Aethon.Storage

open Codec Protocol Parsing

/-- The bytes of a file that is scanned. -/
def readFile (file : Option Bytes) : Except Error Bytes :=
  match file with
  | none => .error (archiveError "failed to open file for repair scan")
  | some bytes => .ok bytes

/-- A word of 32 bits at an offset. -/
def readU32Le (bytes : Bytes) (offset : Nat) : UInt32 :=
  BinaryReader.word32 (bytes.getD offset 0) (bytes.getD (offset + 1) 0) (bytes.getD (offset + 2) 0)
    (bytes.getD (offset + 3) 0)

/-- The bytes of a span from an offset on. -/
def subspan (bytes : Bytes) (offset count : Nat) : Bytes :=
  (bytes.drop offset).take count

/-- The capture time in front of a frame whose length was recorded there, or zero. -/
def inferCaptureTime (bytes : Bytes) (frameOffset : Nat) : Except Error UInt64 :=
  if frameOffset < 12 then .ok 0
  else
    let prefixOffset := frameOffset - 12
    let recordedLen := readU32Le bytes (prefixOffset + 8)
    let bodyLen := readU32Le bytes (frameOffset + 4)
    if recordedLen ≠ bodyLen + 12 then .ok 0
    else BinaryReader.u64.run' (subspan bytes prefixOffset 8)

/-- A packet that was found in the bytes of an archive. -/
structure SalvagedPacket where
  fileOffset : Nat := 0
  inferredCaptureTimeNs : UInt64 := 0
  packet : Packet
  deriving DecidableEq

/-- What a scan looked at, and the packets that it found. -/
structure RepairReport where
  bytesScanned : Nat := 0
  candidateFrames : Nat := 0
  rejectedFrames : Nat := 0
  packets : List SalvagedPacket := []
  deriving DecidableEq

/-- The length of the frame that begins at an offset, as its length field has it. -/
def frameLen (bytes : Bytes) (offset : Nat) : Nat :=
  (readU32Le bytes (offset + 4)).toNat + 12

/-- The `try` block of the loop. -/
def salvage (options : DecodeOptions) (bytes : Bytes) (offset : Nat) :
    Except Error SalvagedPacket := do
  let packet ← decodePacket (subspan bytes offset (frameLen bytes offset)) options
  let inferredCaptureTimeNs ← inferCaptureTime bytes offset
  pure { fileOffset := offset, inferredCaptureTimeNs, packet }

/-- The loop of `scan_bytes`, with the report so far. -/
def scanLoop (options : DecodeOptions) (bytes : Bytes) (offset : Nat) (report : RepairReport) :
    RepairReport :=
  if offset + 12 ≤ bytes.length then
    if readU32Le bytes offset ≠ packetMagic then scanLoop options bytes (offset + 1) report
    else
      let report := { report with candidateFrames := report.candidateFrames + 1 }
      if frameLen bytes offset > options.maxPacketSize
          ∨ offset + frameLen bytes offset > bytes.length then
        scanLoop options bytes (offset + 1)
          { report with rejectedFrames := report.rejectedFrames + 1 }
      else match salvage options bytes offset with
        | .ok item =>
            scanLoop options bytes (offset + (frameLen bytes offset - 1) + 1)
              { report with packets := report.packets ++ [item] }
        | .error _ =>
            scanLoop options bytes (offset + 1)
              { report with rejectedFrames := report.rejectedFrames + 1 }
  else report
termination_by bytes.length - offset

/-- Scan bytes for frames, none where there is no room for one. -/
def scanBytes (options : DecodeOptions) (bytes : Bytes) : RepairReport :=
  if bytes.length < 12 then { bytesScanned := bytes.length }
  else scanLoop options bytes 0 { bytesScanned := bytes.length }

/-- Scan the bytes of a file. -/
def scanFile (options : DecodeOptions) (file : Option Bytes) : Except Error RepairReport := do
  let bytes ← readFile file
  pure (scanBytes options bytes)

/-- A salvaged packet as it is written to a repaired archive: without an inferred time it keeps the
time of the packet. -/
def SalvagedPacket.entry (item : SalvagedPacket) : UInt64 × Packet :=
  (if item.inferredCaptureTimeNs = 0 then item.packet.timestampNs else item.inferredCaptureTimeNs,
    item.packet)

end Aethon.Storage
