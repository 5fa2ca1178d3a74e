import Aethon.Protocol.Wire
import Aethon.Storage.Archive

/-!
# The archive format

The byte strings of the archive format, written without the two classes.
-/

namespace Aethon.Storage

open Codec Protocol LittleEndian

/-- Capture time and frame length, in front of each frame. -/
def prefixWire (captureTimeNs : UInt64) (frameLen : Nat) : Bytes :=
  digits 8 captureTimeNs.toNat ++ digits 4 frameLen

/-- The part of a record that its checksum covers. -/
def coveredWire (captureTimeNs : UInt64) (frame : Bytes) : Bytes :=
  prefixWire captureTimeNs frame.length ++ frame

/-- The bytes of a record: what the checksum covers, and the checksum. -/
def recordWire (captureTimeNs : UInt64) (frame : Bytes) : Bytes :=
  coveredWire captureTimeNs frame ++ digits 4 (crc32c (coveredWire captureTimeNs frame)).toNat

/-- The bytes of the header behind the magic. -/
def ArchiveSummary.wire (summary : ArchiveSummary) : Bytes :=
  digits 4 summary.formatVersion.toNat ++ digits 8 summary.recordCount.toNat ++
    digits 8 summary.firstTimeNs.toNat ++ digits 8 summary.lastTimeNs.toNat

/-- The frame the encoder writes for a packet. -/
def packetFrame (packet : Packet) : Bytes :=
  frameWire (packet.bodyWire (packet.sectionsWire ++ [0]))

/-- Capture times and packets as records one behind the other. -/
def recordsWire (entries : List (UInt64 × Packet)) : Bytes :=
  entries.flatMap fun entry => recordWire entry.1 (packetFrame entry.2)

/-- The summary a writer that started from `summary` reaches. -/
def summarize (summary : ArchiveSummary) (entries : List (UInt64 × Packet)) : ArchiveSummary :=
  entries.foldl (fun summary entry => ArchiveWriter.record summary entry.1) summary

/-- A closed archive of the entries. -/
def archiveWire (entries : List (UInt64 × Packet)) : Bytes :=
  archiveMagic ++ (summarize {} entries).wire ++ recordsWire entries

theorem recordsWire_cons (entry : UInt64 × Packet) (entries : List (UInt64 × Packet)) :
    recordsWire (entry :: entries) =
      recordWire entry.1 (packetFrame entry.2) ++ recordsWire entries := rfl

@[simp] theorem length_prefix_wire (captureTimeNs : UInt64) (frameLen : Nat) :
    (prefixWire captureTimeNs frameLen).length = 12 := by
  simp [prefixWire]

@[simp] theorem length_record_wire (captureTimeNs : UInt64) (frame : Bytes) :
    (recordWire captureTimeNs frame).length = 16 + frame.length := by
  simp [recordWire, coveredWire]
  omega

@[simp] theorem length_summary_wire (summary : ArchiveSummary) : summary.wire.length = 28 := by
  simp [ArchiveSummary.wire]

@[simp] theorem length_archive_magic : archiveMagic.length = 8 := rfl

end Aethon.Storage
